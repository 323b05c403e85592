import MiniKvm.Core.Trace
import MiniKvm.Vmm.Exit

/-!
# The single-step budget

`main` may start a Linux guest with a budget of 2000 single-stepped
instructions; `handle_vm_exit` counts them, pauses at a REP prefix and resumes
(kvm-vmm-x86/src/main.c:191-205, 2353-2362, 2390-2464, 3101-3112).

Of all this only three variables matter, the budget, the pause flag and what
KVM was last told (`Stepping`), and of an exit only whether it is a debug exit
and of a REP instruction (`StepEvent`): `handleVmExit_stepping`. The results
are about the small machine on these three and carry over to every run of exits
(`singlestep_consistent`).
-/
namespace MiniKvm.Vmm

/-! ## The three variables -/

structure Stepping where
  /-- `singlestep_remaining` -/
  remaining : Int
  /-- `singlestep_paused` -/
  paused : Bool
  /-- The last value given to KVM_SET_GUEST_DEBUG. -/
  on : Bool
  deriving DecidableEq, Repr

inductive StepEvent where
  /-- A debug exit; `rep`: the instruction has a REP prefix. -/
  | debug (rep : Bool)
  | other
  deriving DecidableEq, Repr

namespace Stepping

/-- The debug exit that pauses. -/
def Pauses (t : Stepping) (v : StepEvent) : Prop :=
  v = .debug true ∧ 0 < t.remaining ∧ t.paused = false

instance (t : Stepping) (v : StepEvent) : Decidable (t.Pauses v) :=
  inferInstanceAs (Decidable (_ ∧ _))

def next (t : Stepping) : StepEvent → Stepping
  | .debug rep =>
    if 0 < t.remaining then
      if t.Pauses (.debug rep) then { t with paused := true, on := false }
      else { t with remaining := t.remaining - 1, on := if t.remaining = 1 then false else t.on }
    else t
  | .other =>
    if t.paused then { t with paused := false, on := if 0 < t.remaining then true else t.on } else t

/-- Where `main` leaves the variables, with `DEBUG_ALL` or without. -/
def Start (t : Stepping) : Prop := t = ⟨0, false, false⟩ ∨ t = ⟨2000, false, true⟩

structure Consistent (t : Stepping) : Prop where
  on_iff : t.on = true ↔ 0 < t.remaining ∧ t.paused = false
  nonneg : 0 ≤ t.remaining

/-- What an exit does to the budget and to a pause. -/
structure StepOk (t : Stepping) (v : StepEvent) (t' : Stepping) : Prop where
  le : t'.remaining ≤ t.remaining
  /-- The exit that pauses takes nothing from the budget. -/
  pause : t.paused = false → t'.paused = true → t'.remaining = t.remaining
  /-- Only a REP prefix pauses. -/
  rep : t.paused = false → t'.paused = true → v = .debug true
  resume : v = .other → t'.paused = false
  /-- Debug exits do not end a pause. -/
  stay : t.paused = true → v ≠ .other → t'.paused = true

theorem Start.consistent {t : Stepping} (h : t.Start) : t.Consistent := by
  rcases h with rfl | rfl
  · exact ⟨by decide, by decide⟩
  · exact ⟨by decide, by decide⟩

theorem Consistent.next {t : Stepping} (h : t.Consistent) (v : StepEvent) :
    (t.next v).Consistent := by
  obtain ⟨hon, hnn⟩ := h
  cases v with
  | debug rep =>
    unfold Stepping.next
    simp only
    split
    · rename_i hpos
      split
      · exact ⟨by simp, hnn⟩
      · refine ⟨?_, by show 0 ≤ t.remaining - 1; omega⟩
        show (if t.remaining = 1 then false else t.on) = true ↔
          0 < t.remaining - 1 ∧ t.paused = false
        by_cases h1 : t.remaining = 1
        · rw [if_pos h1, h1]
          simp
        · have hrest : 0 < t.remaining - 1 := by omega
          rw [if_neg h1, hon]
          simp only [hpos, hrest]
    · exact ⟨hon, hnn⟩
  | other =>
    unfold Stepping.next
    simp only
    split
    · rename_i hp
      refine ⟨?_, hnn⟩
      show (if 0 < t.remaining then true else t.on) = true ↔ 0 < t.remaining ∧ false = false
      by_cases hpos : 0 < t.remaining
      · rw [if_pos hpos]
        simp [hpos]
      · rw [if_neg hpos, hon]
        simp [hpos]
    · exact ⟨hon, hnn⟩

theorem next_ok (t : Stepping) (v : StepEvent) : t.StepOk v (t.next v) := by
  cases v with
  | debug rep =>
    unfold Stepping.next
    simp only
    split
    · split
      · rename_i hp
        exact ⟨Int.le_refl _, fun _ _ => rfl, fun _ _ => hp.1, fun hv => (by cases hv),
          fun _ _ => rfl⟩
      · refine ⟨?_, fun h1 h2 => ?_, fun h1 h2 => ?_, fun hv => (by cases hv), fun h _ => h⟩
        · show t.remaining - 1 ≤ t.remaining
          omega
        · cases h1.symm.trans h2
        · cases h1.symm.trans h2
    · refine ⟨Int.le_refl _, fun _ _ => rfl, fun h1 h2 => ?_, fun hv => (by cases hv), fun h _ => h⟩
      cases h1.symm.trans h2
  | other =>
    unfold Stepping.next
    simp only
    split
    · exact ⟨Int.le_refl _, fun _ _ => rfl, fun _ h => (by cases h), fun _ => rfl,
        fun _ hv => absurd rfl hv⟩
    · rename_i hp
      refine ⟨Int.le_refl _, fun _ _ => rfl, fun h1 h2 => ?_,
        fun _ => Bool.eq_false_of_not_eq_true hp, fun h _ => absurd h hp⟩
      cases h1.symm.trans h2

end Stepping

/-! ## The handler on the three variables -/

def Thread.stepping (s : Thread) : Stepping :=
  ⟨s.ctx.singlestepRemaining, s.ctx.singlestepPaused, s.mach.stepping⟩

/-- Whether the handler sees a REP prefix at the stepped address. -/
def repPrefix (s : Thread) (regs : Option Regs) (sregs : Option Sregs) : Bool :=
  match regs, sregs with
  | some regs, some sregs =>
    let b0 := (stepBytes s (sregs.cs.base + regs.rip)).headD 0
    decide (b0 = 0xF3 ∨ b0 = 0xF2)
  | _, _ => false

def stepEvent (s : Thread) : ExitReason → StepEvent
  | .debug regs sregs => .debug (repPrefix s regs sregs)
  | _ => .other

@[simp] theorem print_stepping (g : Globals) (s : Thread) (text : List UInt8) :
    (s.print g text).stepping = s.stepping := rfl

@[simp] theorem setGuestSinglestep_stepping (enable : Bool) (s : Thread) :
    (setGuestSinglestep true enable s).stepping = { s.stepping with on := enable } := rfl

theorem logExit_stepping (g : Globals) (e : VmExit) (s : Thread) :
    (logExit g e s).stepping = s.stepping := by
  unfold logExit
  split
  · simp only
    split <;> rfl
  · rfl

theorem logStep_stepping (g : Globals) (regs : Regs) (sregs : Sregs) (bytes : List UInt8)
    (s : Thread) : (logStep g regs sregs bytes s).stepping = s.stepping := by
  unfold logStep
  split <;> rfl

theorem printData_stepping (g : Globals) (data : List UInt64) (s : Thread) :
    (printData g data s).stepping = s.stepping := by
  unfold printData
  generalize (data.take 8).zipIdx = ps
  induction ps generalizing s with
  | nil => rfl
  | cons p ps ih => exact ih _

theorem dumpIdt_stepping (g : Globals) (s : Thread) : (dumpIdt g s).stepping = s.stepping := by
  unfold dumpIdt
  generalize [0, 6, 8, 13, 14] = vecs
  induction vecs generalizing s with
  | nil => rfl
  | cons vec vecs ih =>
    refine (ih _).trans ?_
    simp only
    split <;> rfl

theorem handleShutdown_stepping (g : Globals) (regs : Option Regs) (sregs : Option Sregs)
    (events : Option VcpuEvents) (s : Thread) :
    (handleShutdown g regs sregs events s).stepping = s.stepping := by
  have hlast : ∀ t : Thread, (printLastStep g t).stepping = t.stepping := fun t => by
    unfold printLastStep
    split
    · exact dumpIdt_stepping g _
    · rfl
  unfold handleShutdown
  generalize ht : printLastStep g _ = t
  have hs : t.stepping = s.stepping := by
    rw [← ht]
    exact hlast _
  rw [← hs]
  cases regs <;> cases sregs <;> cases events <;> rfl

theorem handleMmio_stepping (g : Globals) (physAddr : UInt64) (isWrite : Bool) (data : List UInt8)
    (s : Thread) : (handleMmio g physAddr isWrite data s).thread.stepping = s.stepping := by
  unfold handleMmio
  simp only
  split
  · split <;> rfl
  · rfl

theorem handleIo_stepping (g : Globals) (ctx : Vcpu) (io : IoExit) (d : Devices) :
    (handleIo g ctx io d).ctx.singlestepRemaining = ctx.singlestepRemaining ∧
      (handleIo g ctx io d).ctx.singlestepPaused = ctx.singlestepPaused := by
  have hout : ∀ regs d', (handleHypercallOut g ctx regs io.data d').ctx.singlestepRemaining =
        ctx.singlestepRemaining ∧
      (handleHypercallOut g ctx regs io.data d').ctx.singlestepPaused = ctx.singlestepPaused := by
    intro regs d'
    unfold handleHypercallOut
    simp only
    split
    · exact ⟨rfl, rfl⟩
    · split
      · exact ⟨rfl, rfl⟩
      · split <;> exact ⟨rfl, rfl⟩
  unfold handleIo
  simp only
  split
  · split
    · split
      · exact ⟨rfl, rfl⟩
      · split
        · exact ⟨rfl, rfl⟩
        · exact hout _ _
    · split <;> exact ⟨rfl, rfl⟩
  · split
    · split
      · exact ⟨rfl, rfl⟩
      · unfold handleHypercallIn
        split <;> exact ⟨rfl, rfl⟩
    · split <;> exact ⟨rfl, rfl⟩

theorem resumeSinglestep_stepping {e : VmExit} (hok : e.guestDebug = true) (s : Thread) :
    (resumeSinglestep e s).stepping =
      if e.reason.code = 4 then s.stepping else s.stepping.next .other := by
  unfold resumeSinglestep Stepping.next
  by_cases h4 : e.reason.code = 4
  · rw [if_neg fun h => h.2 h4, if_pos h4]
  · rw [if_neg h4, hok]
    simp only
    by_cases hp : s.ctx.singlestepPaused = true
    · rw [if_pos ⟨hp, h4⟩, if_pos (show s.stepping.paused = true from hp)]
      by_cases hr : 0 < s.ctx.singlestepRemaining
      · rw [if_pos hr, if_pos (show 0 < s.stepping.remaining from hr)]
        rfl
      · rw [if_neg hr, if_neg (show ¬ 0 < s.stepping.remaining from hr)]
        rfl
    · rw [if_neg fun h => hp h.1, if_neg (show ¬ s.stepping.paused = true from hp)]

theorem countStep_stepping (g : Globals) (s : Thread) :
    (countStep g true s).stepping =
      { s.stepping with
        remaining := s.stepping.remaining - 1
        on := if s.stepping.remaining = 1 then false else s.stepping.on } := by
  unfold countStep
  simp only
  have h1 : s.ctx.singlestepRemaining - 1 = 0 ↔ s.stepping.remaining = 1 := by
    show s.ctx.singlestepRemaining - 1 = 0 ↔ s.ctx.singlestepRemaining = 1
    omega
  by_cases h : s.stepping.remaining = 1
  · rw [if_pos (h1.2 h), if_pos h]
    rfl
  · rw [if_neg (mt h1.1 h), if_neg h]
    rfl

theorem handleDebug_stepping (g : Globals) (regs : Option Regs) (sregs : Option Sregs)
    (s : Thread) :
    (handleDebug g true regs sregs s).stepping =
      s.stepping.next (.debug (repPrefix s regs sregs)) := by
  unfold handleDebug Stepping.next
  simp only
  by_cases hr : 0 < s.ctx.singlestepRemaining
  · rw [if_pos hr, if_pos (show 0 < s.stepping.remaining from hr)]
    have hcount : ∀ t : Thread, t.stepping = s.stepping →
        ¬ s.stepping.Pauses (.debug (repPrefix s regs sregs)) →
        (countStep g true t).stepping =
          if s.stepping.Pauses (.debug (repPrefix s regs sregs)) then
            { s.stepping with paused := true, on := false }
          else { s.stepping with
            remaining := s.stepping.remaining - 1
            on := if s.stepping.remaining = 1 then false else s.stepping.on } := by
      intro t ht hn
      rw [if_neg hn, countStep_stepping, ht]
    cases regs with
    | none => exact hcount _ rfl fun h => by cases h.1
    | some regs =>
      cases sregs with
      | none => exact hcount _ rfl fun h => by cases h.1
      | some sregs =>
        simp only
        generalize ht : logStep g regs sregs _ _ = t
        have hv : t.stepping = s.stepping := by
          rw [← ht, logStep_stepping]
          rfl
        have hp : t.ctx.singlestepPaused = s.ctx.singlestepPaused := congrArg Stepping.paused hv
        by_cases h : s.stepping.Pauses (.debug (repPrefix s (some regs) (some sregs)))
        · have hrep : repPrefix s (some regs) (some sregs) = true := by
            simpa using h.1
          rw [if_pos h, if_pos ⟨by rw [hp, show s.ctx.singlestepPaused = false from h.2.2]; rfl,
            of_decide_eq_true hrep⟩, ← hv]
          rfl
        · rw [if_neg fun hc => h ⟨?_, hr, ?_⟩]
          · exact hcount t hv h
          · exact congrArg StepEvent.debug (decide_eq_true hc.2)
          · have hc1 := hc.1
            rw [hp] at hc1
            show s.ctx.singlestepPaused = false
            simpa using hc1
  · rw [if_neg hr, if_neg (show ¬ 0 < s.stepping.remaining from hr)]

theorem stepEvent_of_code {e : VmExit} (h : e.reason.code ≠ 4) (s : Thread) :
    stepEvent s e.reason = .other := by
  cases hre : e.reason with
  | debug regs sregs =>
    rw [hre] at h
    exact absurd rfl h
  | _ => rfl

/-- Outside the debug exits the `switch` leaves the three variables alone. -/
theorem exitSwitch_stepping (g : Globals) {e : VmExit} (h : e.reason.code ≠ 4) {s : Thread}
    {r : ExitResult} (hr : exitSwitch g e s = some r) : r.thread.stepping = s.stepping := by
  unfold exitSwitch at hr
  cases hre : e.reason with
  | debug regs sregs =>
    rw [hre] at h
    exact absurd rfl h
  | hlt =>
    rw [hre] at hr
    rw [← Option.some_inj.1 hr]
    show Thread.stepping (if g.verbose then _ else s) = _
    split <;> rfl
  | io io =>
    rw [hre] at hr
    obtain ⟨h1, h2⟩ := handleIo_stepping g s.ctx io s.dev
    rw [← Option.some_inj.1 hr]
    show Stepping.mk _ _ _ = _
    rw [h1, h2]
    rfl
  | mmio physAddr isWrite data =>
    rw [hre] at hr
    rw [← Option.some_inj.1 hr]
    exact handleMmio_stepping g _ _ _ _
  | shutdown regs sregs events =>
    rw [hre] at hr
    rw [← Option.some_inj.1 hr]
    exact handleShutdown_stepping g _ _ _ _
  | internalError suberror data =>
    rw [hre] at hr
    rw [← Option.some_inj.1 hr]
    exact printData_stepping g _ _
  | failEntry reason => rw [hre] at hr; rw [← Option.some_inj.1 hr]; rfl
  | irqWindowOpen => rw [hre] at hr; rw [← Option.some_inj.1 hr]
  | intr => rw [hre] at hr; rw [← Option.some_inj.1 hr]
  | other code unknown => rw [hre] at hr; rw [← Option.some_inj.1 hr]; rfl

theorem debug_of_code {e : VmExit} (h : e.reason.code = 4) :
    ∃ regs sregs, e.reason = .debug regs sregs := by
  cases hre : e.reason with
  | debug regs sregs => exact ⟨regs, sregs, rfl⟩
  | other code unknown =>
    rw [hre] at h
    exact absurd (show code ∈ knownReasons by rw [show code = 4 from h]; decide) unknown
  | _ =>
    rw [hre] at h
    simp [ExitReason.code] at h

/-- On a debug exit the handler reaches the `switch` with the memory as it was. -/
theorem repPrefix_enterSwitch (g : Globals) {e : VmExit} (h : e.reason.code = 4) (s : Thread)
    (regs : Option Regs) (sregs : Option Sregs) :
    repPrefix (enterSwitch g e s) regs sregs = repPrefix s regs sregs := by
  have hresume : ∀ t : Thread, resumeSinglestep e t = t := fun t => if_neg fun hc => hc.2 h
  have hmem : (enterSwitch g e s).ctx.memSize = s.ctx.memSize ∧
      (enterSwitch g e s).mach.mem = s.mach.mem := by
    rw [enterSwitch, hresume, logExit_ctx, logExit_mach]
    exact ⟨rfl, rfl⟩
  unfold repPrefix stepBytes
  rw [hmem.1, hmem.2]

/-- On the three variables `handle_vm_exit` is the small machine. -/
theorem handleVmExit_stepping (g : Globals) {e : VmExit} (hok : e.guestDebug = true) (s : Thread) :
    (handleVmExit g e s).thread.stepping = s.stepping.next (stepEvent s e.reason) := by
  obtain ⟨r, hr, heq⟩ := handleVmExit_eq g e s
  rw [heq]
  have henter : (enterSwitch g e s).stepping =
      if e.reason.code = 4 then s.stepping else s.stepping.next .other := by
    rw [enterSwitch, logExit_stepping, resumeSinglestep_stepping hok]
    rfl
  by_cases h4 : e.reason.code = 4
  · obtain ⟨regs, sregs, hre⟩ := debug_of_code h4
    rw [exitSwitch, hre, hok] at hr
    rw [← Option.some_inj.1 hr, handleDebug_stepping, henter, if_pos h4,
      repPrefix_enterSwitch g h4, hre]
    rfl
  · rw [exitSwitch_stepping g h4 hr, henter, if_neg h4, stepEvent_of_code h4]

/-! ## Runs -/

/-- An exit, with what the guest, KVM and the other threads have changed since
the last one. -/
structure GuestExit where
  exit : VmExit
  /-- The memory and the registers; `stepping` stays as the VMM set it. -/
  mach : Machine
  dev : Devices
  log : ExitLog
  guestDebug : exit.guestDebug = true

def Thread.resumed (s : Thread) (o : GuestExit) : Thread :=
  { s with mach := { o.mach with stepping := s.mach.stepping }, dev := o.dev, log := o.log }

def Thread.afterExit (g : Globals) (s : Thread) (o : GuestExit) : Thread :=
  (handleVmExit g o.exit (s.resumed o)).thread

/-- What the exit is for the three variables. -/
def GuestExit.event (o : GuestExit) (s : Thread) : StepEvent :=
  stepEvent (s.resumed o) o.exit.reason

theorem afterExit_stepping (g : Globals) (s : Thread) (o : GuestExit) :
    (s.afterExit g o).stepping = s.stepping.next (o.event s) :=
  handleVmExit_stepping g o.guestDebug (s.resumed o)

/-- `DEBUG_ALL`: `none` when KVM refuses.
mirrors kvm-vmm-x86/src/main.c:3101-3112 -/
def enableSinglestep (debugAll ok : Bool) (s : Thread) : Option Thread :=
  if debugAll then
    if ok then
      some (setGuestSinglestep ok true { s with ctx := { s.ctx with
        singlestepRemaining := 2000, singlestepPaused := false, singlestepExits := 0 } })
    else none
  else some s

/-- From a context that `memset` cleared. -/
theorem enableSinglestep_start {debugAll ok : Bool} {s t : Thread}
    (hs : s.stepping = ⟨0, false, false⟩) (ht : enableSinglestep debugAll ok s = some t) :
    t.stepping.Start := by
  unfold enableSinglestep at ht
  cases debugAll with
  | false =>
    rw [← Option.some_inj.1 ht]
    exact Or.inl hs
  | true =>
    cases ok with
    | false => cases ht
    | true =>
      rw [← Option.some_inj.1 ht]
      exact Or.inr rfl

/-- From either start, in every run of exits: after every exit KVM was last told
to single-step exactly if budget is left and no pause is on, and the budget is
not negative; an exit never raises the budget; the exit that pauses does so at a
REP prefix and leaves the budget; and the pause lasts over debug exits and ends
with the first other exit. -/
theorem singlestep_consistent (g : Globals) {s : Thread} (hs : s.stepping.Start)
    (os : List GuestExit) :
    Throughout (Thread.afterExit g) (fun t => t.stepping.Consistent) s os ∧
      Along (Thread.afterExit g)
        (fun t o => t.stepping.StepOk (o.event t) (t.afterExit g o).stepping) s os := by
  refine ⟨throughout_keeps (I := fun t : Thread => t.stepping.Consistent) (fun t o h => ?_)
    hs.consistent os, along_of_forall (fun t o => ?_) os⟩
  · rw [afterExit_stepping]
    exact h.next _
  · rw [afterExit_stepping]
    exact t.stepping.next_ok _

/-- A REP prefix at the first step, then an interrupt: the budget stays 2000. -/
theorem singlestep_consistent_rep :
    let s : Thread :=
      { ctx := { memSize := 0x1000, singlestepRemaining := 2000 }, mach := { stepping := true },
        dev := {} }
    let rep : GuestExit :=
      { exit := ⟨.debug (some {}) (some {}), true⟩, mach := { mem := fun _ => 0xF3 }, dev := {},
        log := {}, guestDebug := rfl }
    let irq : GuestExit :=
      { exit := ⟨.intr, true⟩, mach := {}, dev := {}, log := {}, guestDebug := rfl }
    (s.afterExit quiet rep).stepping = ⟨2000, true, false⟩ ∧
      (after (Thread.afterExit quiet) s [rep, irq]).stepping = ⟨2000, false, true⟩ ∧
      Throughout (Thread.afterExit quiet) (fun t => t.stepping.Consistent) s [rep, irq] := by
  intro s rep irq
  have h := (singlestep_consistent quiet (s := s) (Or.inr rfl) [rep, irq]).1
  exact ⟨by decide +kernel, by decide +kernel, h⟩

end MiniKvm.Vmm
