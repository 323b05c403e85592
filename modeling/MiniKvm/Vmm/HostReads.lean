import MiniKvm.Vmm.Exit

/-!
# What the exit handler reads of guest memory

`handle_vm_exit` reads guest memory in two places, the instruction at the
stepped address and the IDT entries it dumps at a shutdown
(kvm-vmm-x86/src/main.c:2395-2408, 2534-2548), both at addresses the guest
chooses, behind a guard on a 64-bit sum. `hostReads` lists the addresses;
nothing else of guest memory matters (`handleVmExit_frame`).

The sums wrap, and a sum that has wrapped passes the guard of the address it
came from: `host_reads_in_bounds_iff`.
-/
namespace MiniKvm.Vmm

/-! ## Windows of a 64-bit address space -/

/-- The `n` addresses from `a` on. -/
def window (a : UInt64) (n : Nat) : List UInt64 := (List.range n).map fun k => a + UInt64.ofNat k

theorem mem_window {a x : UInt64} {n : Nat} :
    x ∈ window a n ↔ ∃ k < n, x.toNat = (a.toNat + k) % 2 ^ 64 := by
  have hval : ∀ k, (a + UInt64.ofNat k).toNat = (a.toNat + k) % 2 ^ 64 := fun k => by
    rw [UInt64.toNat_add, UInt64.toNat_ofNat', Nat.add_mod_mod]
  unfold window
  simp only [List.mem_map, List.mem_range]
  constructor
  · rintro ⟨k, hk, rfl⟩
    exact ⟨k, hk, hval k⟩
  · rintro ⟨k, hk, hx⟩
    exact ⟨k, hk, UInt64.toNat_inj.1 ((hval k).trans hx.symm)⟩

/-- A window whose end is in bounds, when the sum wraps: it lies in bounds
exactly if the sum does not wrap. -/
theorem window_below_iff {a : UInt64} {n M : Nat} (hM : M < 2 ^ 64)
    (hend : (a.toNat + n) % 2 ^ 64 ≤ M) :
    (∀ x ∈ window a n, x.toNat < M) ↔ a.toNat + n < 2 ^ 64 := by
  have ha := a.toNat_lt
  constructor
  · intro h
    by_contra hw
    -- the last address of all is in a window that wraps
    have hlast : UInt64.ofNat (2 ^ 64 - 1) ∈ window a n :=
      mem_window.2 ⟨2 ^ 64 - 1 - a.toNat, by omega, by
        rw [Nat.add_sub_cancel' (by omega)]
        rfl⟩
    have := h _ hlast
    rw [UInt64.toNat_ofNat'] at this
    omega
  · intro hw x hx
    obtain ⟨k, hk, hx⟩ := mem_window.1 hx
    rw [hx, Nat.mod_eq_of_lt (by omega)]
    rw [Nat.mod_eq_of_lt hw] at hend
    omega

/-! ## The reads -/

def stepReads (memSize : Nat) (linear : UInt64) : List UInt64 :=
  if (linear + 3).toNat < memSize then window linear 4 else []

def entryReads (memSize : Nat) (entryAddr : UInt64) : List UInt64 :=
  if (entryAddr + 8).toNat ≤ memSize then window entryAddr 8 else []

def dumpedEntries (c : Vcpu) : List UInt64 :=
  [0, 6, 8, 13, 14].map fun vec => c.last.idtBase + UInt64.ofNat vec * 8

/-- The addresses at which `handle_vm_exit` reads guest memory. -/
def hostReads (e : VmExit) (c : Vcpu) : List UInt64 :=
  match e.reason with
  | .debug (some regs) (some sregs) =>
    if c.singlestepRemaining > 0 then stepReads c.memSize (sregs.cs.base + regs.rip) else []
  | .shutdown _ _ _ =>
    if c.singlestepExits > 0 then (dumpedEntries c).flatMap (entryReads c.memSize) else []
  | _ => []

/-- The guard's sum does not wrap, or it is out of bounds all the same. -/
def StepSafe (memSize : Nat) (linear : UInt64) : Prop :=
  linear.toNat + 3 < 2 ^ 64 ∨ memSize ≤ (linear + 3).toNat

def EntrySafe (memSize : Nat) (entryAddr : UInt64) : Prop :=
  entryAddr.toNat + 8 < 2 ^ 64 ∨ memSize < (entryAddr + 8).toNat

/-- No guard that the exit reaches is passed by a sum that wraps. -/
def NoWrap (e : VmExit) (c : Vcpu) : Prop :=
  match e.reason with
  | .debug (some regs) (some sregs) =>
    c.singlestepRemaining > 0 → StepSafe c.memSize (sregs.cs.base + regs.rip)
  | .shutdown _ _ _ => c.singlestepExits > 0 → ∀ a ∈ dumpedEntries c, EntrySafe c.memSize a
  | _ => True

theorem stepReads_below_iff {M : Nat} (hM : M < 2 ^ 64) (linear : UInt64) :
    (∀ a ∈ stepReads M linear, a.toNat < M) ↔ StepSafe M linear := by
  have hl := linear.toNat_lt
  have h3 : (linear + 3).toNat = (linear.toNat + 3) % 2 ^ 64 := UInt64.toNat_add _ _
  unfold stepReads StepSafe
  split
  · rw [window_below_iff hM (by omega)]
    omega
  · exact iff_of_true (fun a ha => absurd ha List.not_mem_nil) (Or.inr (by omega))

theorem entryReads_below_iff {M : Nat} (hM : M < 2 ^ 64) (entryAddr : UInt64) :
    (∀ a ∈ entryReads M entryAddr, a.toNat < M) ↔ EntrySafe M entryAddr := by
  have h8 : (entryAddr + 8).toNat = (entryAddr.toNat + 8) % 2 ^ 64 := UInt64.toNat_add _ _
  unfold entryReads EntrySafe
  split
  · rw [window_below_iff hM (by omega)]
    omega
  · exact iff_of_true (fun a ha => absurd ha List.not_mem_nil) (Or.inr (by omega))

theorem hostReads_below_iff (e : VmExit) {c : Vcpu} (hM : c.memSize < 2 ^ 64) :
    (∀ a ∈ hostReads e c, a.toNat < c.memSize) ↔ NoWrap e c := by
  unfold hostReads NoWrap
  have hnil : ∀ {P : Prop}, P → ((∀ a ∈ ([] : List UInt64), a.toNat < c.memSize) ↔ P) := fun hp =>
    iff_of_true (fun a ha => absurd ha List.not_mem_nil) hp
  split
  · split
    · rename_i hr
      rw [stepReads_below_iff hM]
      exact ⟨fun h _ => h, fun h => h hr⟩
    · rename_i hr
      exact hnil fun h => absurd h hr
  · split
    · rename_i hx
      simp only [List.mem_flatMap]
      constructor
      · exact fun h _ a ha => (entryReads_below_iff hM a).1 fun x hx => h x ⟨a, ha, hx⟩
      · rintro h x ⟨a, ha, hx'⟩
        exact (entryReads_below_iff hM a).2 (h hx a ha) x hx'
    · rename_i hx
      exact hnil fun h => absurd h hx
  · exact hnil trivial

/-! ## The rest of guest memory does not matter -/

def Thread.withMem (s : Thread) (m : Mem) : Thread := { s with mach := { s.mach with mem := m } }

section Frame

variable (g : Globals) (m : Mem)

theorem setGuestSinglestep_withMem (ok enable : Bool) (s : Thread) :
    setGuestSinglestep ok enable (s.withMem m) = (setGuestSinglestep ok enable s).withMem m := by
  unfold setGuestSinglestep
  split <;> rfl

theorem resumeSinglestep_withMem (e : VmExit) (s : Thread) :
    resumeSinglestep e (s.withMem m) = (resumeSinglestep e s).withMem m := by
  unfold resumeSinglestep
  simp only [apply_ite (Thread.withMem · m), ← setGuestSinglestep_withMem]
  rfl

theorem logExit_withMem (e : VmExit) (s : Thread) :
    logExit g e (s.withMem m) = (logExit g e s).withMem m := by
  unfold logExit
  simp only [apply_ite (Thread.withMem · m)]
  rfl

theorem enterSwitch_withMem (e : VmExit) (s : Thread) :
    enterSwitch g e (s.withMem m) = (enterSwitch g e s).withMem m := by
  unfold enterSwitch
  rw [← logExit_withMem, ← resumeSinglestep_withMem]
  rfl

theorem countStep_withMem (ok : Bool) (s : Thread) :
    countStep g ok (s.withMem m) = (countStep g ok s).withMem m := by
  have hprint : ∀ (t : Thread) text, (t.print g text).withMem m = (t.withMem m).print g text :=
    fun _ _ => rfl
  unfold countStep
  simp only [apply_ite (Thread.withMem · m), hprint, ← setGuestSinglestep_withMem]
  rfl

theorem logStep_withMem (regs : Regs) (sregs : Sregs) (bytes : List UInt8) (s : Thread) :
    logStep g regs sregs bytes (s.withMem m) = (logStep g regs sregs bytes s).withMem m := by
  unfold logStep
  simp only [apply_ite (Thread.withMem · m)]
  rfl

theorem handleMmio_withMem (physAddr : UInt64) (isWrite : Bool) (data : List UInt8) (s : Thread) :
    handleMmio g physAddr isWrite data (s.withMem m) =
      { handleMmio g physAddr isWrite data s with
        thread := (handleMmio g physAddr isWrite data s).thread.withMem m } := by
  unfold handleMmio
  simp only [apply_ite (Thread.withMem · m)]
  rfl

theorem printData_withMem (data : List UInt64) (s : Thread) :
    printData g data (s.withMem m) = (printData g data s).withMem m := by
  unfold printData
  generalize (data.take 8).zipIdx = ps
  induction ps generalizing s with
  | nil => rfl
  | cons p ps ih => exact ih (s.print g _)

end Frame

/-- `m` has what the machine has at these addresses. -/
def SameAt (m : Mem) (s : Thread) (as : List UInt64) : Prop :=
  ∀ a ∈ as, m a.toNat = s.mach.mem a.toNat

theorem SameAt.window {m : Mem} {s : Thread} {a : UInt64} {n k : Nat} (h : SameAt m s (window a n))
    (hk : k < n) : m (a + UInt64.ofNat k).toNat = s.mach.mem (a + UInt64.ofNat k).toNat :=
  h _ (List.mem_map_of_mem (List.mem_range.2 hk))

theorem stepBytes_withMem {s : Thread} {m : Mem} {linear : UInt64}
    (h : SameAt m s (stepReads s.ctx.memSize linear)) :
    stepBytes (s.withMem m) linear = stepBytes s linear := by
  unfold stepReads at h
  unfold stepBytes
  by_cases hg : (linear + 3).toNat < s.ctx.memSize
  · rw [if_pos hg] at h
    rw [if_pos hg, if_pos (show (linear + 3).toNat < (s.withMem m).ctx.memSize from hg)]
    have h0 := h.window (k := 0) (by decide)
    have h1 := h.window (k := 1) (by decide)
    have h2 := h.window (k := 2) (by decide)
    have h3 := h.window (k := 3) (by decide)
    exact congr (congrArg _ h0) (congr (congrArg _ h1)
      (congr (congrArg _ h2) (congrArg (fun b => [b]) h3)))
  · rw [if_neg hg, if_neg (show ¬ (linear + 3).toNat < (s.withMem m).ctx.memSize from hg)]

/-- One more debug exit. -/
def Thread.counted (s : Thread) : Thread :=
  { s with ctx := { s.ctx with singlestepExits := s.ctx.singlestepExits + 1 } }

/-- What a debug exit does once the instruction bytes are read. -/
def handleStep (g : Globals) (ok : Bool) (regs : Regs) (sregs : Sregs) (bytes : List UInt8)
    (s : Thread) : Thread :=
  let s := logStep g regs sregs bytes (recordStep regs sregs bytes s)
  if !s.ctx.singlestepPaused ∧ (bytes.headD 0 = 0xF3 ∨ bytes.headD 0 = 0xF2) then
    let s := { s with ctx := { s.ctx with singlestepPaused := true } }
    (setGuestSinglestep ok false s).print g
      (ascii "STEP: pausing single-step for REP instruction\n")
  else countStep g ok s

theorem handleDebug_eq (g : Globals) (ok : Bool) (regs : Option Regs) (sregs : Option Sregs)
    (s : Thread) :
    handleDebug g ok regs sregs s =
      if s.ctx.singlestepRemaining > 0 then
        match regs, sregs with
        | some regs, some sregs =>
          handleStep g ok regs sregs (stepBytes s (sregs.cs.base + regs.rip)) s.counted
        | _, _ => countStep g ok s.counted
      else s := rfl

theorem handleStep_withMem (g : Globals) (m : Mem) (ok : Bool) (regs : Regs) (sregs : Sregs)
    (bytes : List UInt8) (s : Thread) :
    handleStep g ok regs sregs bytes (s.withMem m) =
      (handleStep g ok regs sregs bytes s).withMem m := by
  have hprint : ∀ (t : Thread) text, (t.print g text).withMem m = (t.withMem m).print g text :=
    fun _ _ => rfl
  have hrecord : recordStep regs sregs bytes (s.withMem m) =
    (recordStep regs sregs bytes s).withMem m := rfl
  unfold handleStep
  simp only [apply_ite (Thread.withMem · m), hprint, hrecord, logStep_withMem, countStep_withMem,
    ← setGuestSinglestep_withMem]
  rfl

theorem handleDebug_withMem (g : Globals) {e : VmExit} {m : Mem} {s : Thread}
    {regs : Option Regs} {sregs : Option Sregs} (he : e.reason = .debug regs sregs)
    (h : SameAt m s (hostReads e s.ctx)) :
    handleDebug g e.guestDebug regs sregs (s.withMem m) =
      (handleDebug g e.guestDebug regs sregs s).withMem m := by
  have hcount : (s.withMem m).counted = s.counted.withMem m := rfl
  unfold hostReads at h
  rw [handleDebug_eq, handleDebug_eq, hcount]
  by_cases hr : s.ctx.singlestepRemaining > 0
  · rw [if_pos hr, if_pos (show (s.withMem m).ctx.singlestepRemaining > 0 from hr)]
    cases regs with
    | none => exact countStep_withMem g m _ _
    | some regs =>
      cases sregs with
      | none => exact countStep_withMem g m _ _
      | some sregs =>
        simp only [he, if_pos hr] at h
        simp only [stepBytes_withMem h]
        exact handleStep_withMem g m _ _ _ _ _
  · rw [if_neg hr, if_neg (show ¬ (s.withMem m).ctx.singlestepRemaining > 0 from hr)]

theorem idtEntryAt_memFrom {m : Mem} {s : Thread} {a : UInt64} (h : SameAt m s (window a 8)) :
    idtEntryAt (memFrom m a) 0 = idtEntryAt (memFrom s.mach.mem a) 0 := by
  have hb : ∀ k, k < 8 → memFrom m a k = memFrom s.mach.mem a k := fun k hk => h.window hk
  unfold idtEntryAt
  rw [Mem.load_congr fun x _ hx => hb x (by omega), Mem.load_congr fun x _ hx => hb x (by omega),
    Mem.load_congr fun x _ hx => hb x (by omega), hb 4 (by decide), hb 5 (by decide)]

/-- One turn of the dump. -/
def dumpEntry (g : Globals) (s : Thread) (vec : Nat) : Thread :=
  let entryAddr := s.ctx.last.idtBase + UInt64.ofNat vec * 8
  if (entryAddr + 8).toNat ≤ s.ctx.memSize then
    let e := idtEntryAt (memFrom s.mach.mem entryAddr) 0
    s.print g (ascii "  IDT[" ++ dec vec ++ ascii "]: sel=0x" ++ hex e.selector ++
      ascii " off=0x" ++ hex e.offset ++ ascii " flags=0x" ++ hex e.flags.toNat ++ ascii "\n")
  else s

theorem dumpEntry_ctx (g : Globals) (s : Thread) (vec : Nat) :
    (dumpEntry g s vec).ctx = s.ctx ∧ (dumpEntry g s vec).mach = s.mach := by
  unfold dumpEntry
  simp only
  split <;> exact ⟨rfl, rfl⟩

theorem dumpEntry_withMem (g : Globals) {m : Mem} {s : Thread} {vec : Nat}
    (h : SameAt m s (entryReads s.ctx.memSize (s.ctx.last.idtBase + UInt64.ofNat vec * 8))) :
    dumpEntry g (s.withMem m) vec = (dumpEntry g s vec).withMem m := by
  have hc : (s.withMem m).ctx = s.ctx := rfl
  have hm : (s.withMem m).mach.mem = m := rfl
  unfold entryReads at h
  unfold dumpEntry
  simp only [hc, hm]
  split
  · rename_i hg
    rw [if_pos hg] at h
    rw [idtEntryAt_memFrom h]
    rfl
  · rfl

theorem dumpIdt_withMem (g : Globals) {m : Mem} {s : Thread}
    (h : SameAt m s ((dumpedEntries s.ctx).flatMap (entryReads s.ctx.memSize))) :
    dumpIdt g (s.withMem m) = (dumpIdt g s).withMem m := by
  show [0, 6, 8, 13, 14].foldl (dumpEntry g) (s.withMem m) =
    ([0, 6, 8, 13, 14].foldl (dumpEntry g) s).withMem m
  unfold dumpedEntries at h
  generalize [0, 6, 8, 13, 14] = vecs at h ⊢
  induction vecs generalizing s with
  | nil => rfl
  | cons vec vecs ih =>
    obtain ⟨hc, hm⟩ := dumpEntry_ctx g s vec
    rw [List.foldl_cons, List.foldl_cons, dumpEntry_withMem g fun a ha =>
      h a (by rw [List.map_cons, List.flatMap_cons]; exact List.mem_append_left _ ha)]
    refine ih fun a ha => ?_
    rw [hc] at ha
    rw [hm]
    exact h a (by rw [List.map_cons, List.flatMap_cons]; exact List.mem_append_right _ ha)

theorem handleShutdown_withMem (g : Globals) {m : Mem} {s : Thread} (regs : Option Regs)
    (sregs : Option Sregs) (events : Option VcpuEvents)
    (h : SameAt m s (if s.ctx.singlestepExits > 0 then
      (dumpedEntries s.ctx).flatMap (entryReads s.ctx.memSize) else [])) :
    handleShutdown g regs sregs events (s.withMem m) =
      (handleShutdown g regs sregs events s).withMem m := by
  have hlast : ∀ text, printLastStep g ((s.withMem m).print g text) =
      (printLastStep g (s.print g text)).withMem m := by
    intro text
    unfold printLastStep
    by_cases hx : s.ctx.singlestepExits > 0
    · rw [if_pos (show ((s.withMem m).print g text).ctx.singlestepExits > 0 from hx),
        if_pos (show (s.print g text).ctx.singlestepExits > 0 from hx)]
      rw [if_pos hx] at h
      exact dumpIdt_withMem g (s := (s.print g text).print g _) h
    · rw [if_neg (show ¬ ((s.withMem m).print g text).ctx.singlestepExits > 0 from hx),
        if_neg (show ¬ (s.print g text).ctx.singlestepExits > 0 from hx)]
      rfl
  unfold handleShutdown
  rw [hlast]
  cases regs <;> cases sregs <;> cases events <;> rfl

def ExitResult.withMem (r : ExitResult) (m : Mem) : ExitResult :=
  { r with thread := r.thread.withMem m }

theorem exitSwitch_withMem (g : Globals) {e : VmExit} {m : Mem} {s : Thread}
    (h : SameAt m s (hostReads e s.ctx)) :
    exitSwitch g e (s.withMem m) = (exitSwitch g e s).map (·.withMem m) := by
  unfold exitSwitch
  cases hre : e.reason with
  | hlt =>
    simp only
    cases g.verbose <;> rfl
  | debug regs sregs =>
    exact congrArg (fun t => some (ExitResult.mk 0 t [])) (handleDebug_withMem g hre h)
  | mmio physAddr isWrite data => exact congrArg some (handleMmio_withMem g m _ _ _ _)
  | internalError suberror data =>
    exact congrArg (fun t => some (ExitResult.mk (-1) t []))
      (printData_withMem g m data (s.print g _))
  | shutdown regs sregs events =>
    unfold hostReads at h
    rw [hre] at h
    exact congrArg (fun t => some (ExitResult.mk 0 t [])) (handleShutdown_withMem g _ _ _ h)
  | _ => rfl

theorem hostReads_resume (e : VmExit) (s : Thread) :
    hostReads e (resumeSinglestep e s).ctx = hostReads e s.ctx ∧
      (resumeSinglestep e s).mach.mem = s.mach.mem := by
  have hset : ∀ ok enable (t : Thread),
      (setGuestSinglestep ok enable t).mach.mem = t.mach.mem := fun ok enable t => by
    unfold setGuestSinglestep
    split <;> rfl
  unfold resumeSinglestep
  split
  · simp only
    split
    · rw [setGuestSinglestep_ctx, hset]
      exact ⟨rfl, rfl⟩
    · exact ⟨rfl, rfl⟩
  · exact ⟨rfl, rfl⟩

theorem SameAt.enterSwitch (g : Globals) {e : VmExit} {m : Mem} {s : Thread}
    (h : SameAt m s (hostReads e s.ctx)) :
    SameAt m (enterSwitch g e s) (hostReads e (enterSwitch g e s).ctx) := by
  obtain ⟨hr, hm⟩ := hostReads_resume e
    { s with ctx := { s.ctx with exitCount := s.ctx.exitCount + 1 } }
  intro a ha
  rw [MiniKvm.Vmm.enterSwitch, logExit_ctx, hr] at ha
  rw [MiniKvm.Vmm.enterSwitch, logExit_mach, hm]
  exact h a ha

/-- `handle_vm_exit` does the same in two machines that agree on `hostReads`. -/
theorem handleVmExit_frame (g : Globals) {e : VmExit} {m : Mem} {s : Thread}
    (h : SameAt m s (hostReads e s.ctx)) :
    handleVmExit g e (s.withMem m) = (handleVmExit g e s).withMem m := by
  obtain ⟨r, hr, heq⟩ := handleVmExit_eq g e s
  obtain ⟨r', hr', heq'⟩ := handleVmExit_eq g e (s.withMem m)
  rw [enterSwitch_withMem, exitSwitch_withMem g (h.enterSwitch g), hr] at hr'
  rw [heq, heq']
  exact (Option.some_inj.1 hr').symm

/-- Every address of guest memory that `handle_vm_exit` reads is below
`mem_size` exactly if no guard is passed by a sum that wraps; and it reads at no
other address than those of `hostReads`. -/
theorem host_reads_in_bounds_iff (g : Globals) (e : VmExit) {s : Thread}
    (hM : s.ctx.memSize < 2 ^ 64) :
    ((∀ a ∈ hostReads e s.ctx, a.toNat < s.ctx.memSize) ↔ NoWrap e s.ctx) ∧
      ∀ m, SameAt m s (hostReads e s.ctx) →
        handleVmExit g e (s.withMem m) = (handleVmExit g e s).withMem m :=
  ⟨hostReads_below_iff e hM, fun _ h => handleVmExit_frame g h⟩

theorem host_reads_in_bounds_iff_low :
    let e : VmExit := ⟨.debug (some { rip := 0x100 }) (some {}), true⟩
    let s : Thread :=
      { ctx := { memSize := 0x1000, singlestepRemaining := 2000 }, mach := {}, dev := {} }
    ((∀ a ∈ hostReads e s.ctx, a.toNat < s.ctx.memSize) ↔ NoWrap e s.ctx) ∧
      ∀ m, SameAt m s (hostReads e s.ctx) →
        handleVmExit quiet e (s.withMem m) = (handleVmExit quiet e s).withMem m :=
  host_reads_in_bounds_iff quiet _ (by decide)

/-- The guest single-steps at the last address; and it has its IDT in the last
eight bytes. -/
theorem host_read_at_top :
    let e : VmExit := ⟨.debug (some { rip := 0xFFFFFFFFFFFFFFFF }) (some {}), true⟩
    let s : Thread :=
      { ctx := { memSize := 0x1000, singlestepRemaining := 2000 }
        mach := { mem := fun i => if i = 0xFFFFFFFFFFFFFFFF then 0xAB else 0 }, dev := {} }
    let e' : VmExit := ⟨.shutdown none none none, true⟩
    let s' : Thread :=
      { ctx := { memSize := 0x1000, singlestepExits := 1,
                 last := { idtBase := 0xFFFFFFFFFFFFFFF8 } }
        mach := {}, dev := {} }
    0xFFFFFFFFFFFFFFFF ∈ hostReads e s.ctx ∧ 0xFFFFFFFFFFFFFFFF ∈ hostReads e' s'.ctx ∧
      (handleVmExit quiet e s).thread.ctx.last.bytes = [0xAB, 0, 0, 0] ∧
      ¬ ∀ (e : VmExit) (s : Thread), s.ctx.memSize < 2 ^ 64 →
        ∀ a ∈ hostReads e s.ctx, a.toNat < s.ctx.memSize := by
  intro e s e' s'
  have h1 : 0xFFFFFFFFFFFFFFFF ∈ hostReads e s.ctx := by decide
  refine ⟨h1, by decide, by decide, fun hall => ?_⟩
  exact absurd (hall e s (by decide) _ h1) (by decide)

end MiniKvm.Vmm
