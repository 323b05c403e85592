import MiniKvm.Core.Lts
import MiniKvm.Vmm.Exit
import MiniKvm.Vmm.Main
import MiniKvm.Vmm.SerialIrq

/-!
# The threads of the VMM

`main` from the first `pthread_create` of a vCPU to its end, interleaved with
the vCPU threads and the stdin thread. A step is one system call, one handled
exit or one test of a loop condition; the state is the process as `main` sees
it, the devices all threads share, and a place in the source for each thread.

What `cleanup_vcpu` releases, the vCPU thread uses in every turn of its loop.
`released_after_join_iff` says for which answers of `pthread_create` no run
releases it too early. Left out: the progress messages of the threads, and the
timer thread, which is never started.
-/
namespace MiniKvm.Vmm

/-! ## The source -/

/-- Where a vCPU thread is. `done` has returned and is not joined yet.
mirrors kvm-vmm-x86/src/main.c:2597-2657 -/
inductive VcpuPc where
  | absent | entry | test | kvmRun | handle (e : VmExit) | done | joined

/-- Where `main` is; the argument is the loop variable.
mirrors kvm-vmm-x86/src/main.c:3210-3262 -/
inductive MainPc where
  | spawn (i : Nat) | join (i : Nat) | stopStdin | joinStdin | cleanup (i : Nat) | exit
  deriving DecidableEq, Repr

/-- The stdin thread: never started, in its loop, or returned. -/
inductive StdinPc where
  | absent | loop | done
  deriving DecidableEq, Repr

structure System where
  proc : Proc
  dev : Devices := {}
  log : ExitLog := {}
  main : MainPc := .spawn 0
  vcpuThreads : Nat → VcpuPc := fun _ => .absent
  stdinThread : StdinPc := .absent
  stdinThreadRunning : Bool := false
  ret : Nat := 0

/-- What `pthread_create` answers for each vCPU. -/
structure ThreadCalls where
  create : Nat → Bool

inductive VcpuAct where
  | enter | test | kvmRun (r : Option VmExit) | handle

inductive StdinAct where
  | chunk (buf : List UInt8) | test

inductive Act where
  | main
  | vcpu (j : Nat) (a : VcpuAct)
  | stdin (a : StdinAct)

def System.setThread (s : System) (j : Nat) (pc : VcpuPc) : System :=
  { s with vcpuThreads := Function.update s.vcpuThreads j pc }

/-- `handle_vm_exit` in thread `j`. -/
def System.handleExit (g : Globals) (s : System) (j : Nat) (e : VmExit) : System :=
  let r := handleVmExit g e ⟨s.proc.vcpus j, s.proc.machines j, s.dev, s.log⟩
  { s with
    proc := { s.proc with
      vcpus := Function.update s.proc.vcpus j r.thread.ctx
      machines := Function.update s.proc.machines j r.thread.mach }
    dev := r.thread.dev
    log := r.thread.log
    vcpuThreads := Function.update s.vcpuThreads j (if r.ret < 0 then .done else .test) }

/-- mirrors kvm-vmm-x86/src/main.c:2597-2657 -/
def vcpuStep (g : Globals) (s : System) (j : Nat) (a : VcpuAct) : Option System :=
  match s.vcpuThreads j, a with
  | .entry, .enter => some (s.setThread j .test)
  | .test, .test => some (s.setThread j (if (s.proc.vcpus j).running then .kvmRun else .done))
  | .kvmRun, .kvmRun (some e) => some (s.setThread j (.handle e))
  | .kvmRun, .kvmRun none => some (s.setThread j .done)
  | .handle e, .handle => some (s.handleExit g j e)
  | _, _ => none

/-- mirrors kvm-vmm-x86/src/main.c:489-540 -/
def stdinStep (g : Globals) (s : System) (a : StdinAct) : Option System :=
  match s.stdinThread, a with
  | .loop, .chunk buf => some { s with dev := stdinChunk g buf s.dev }
  | .loop, .test => some (if s.stdinThreadRunning then s else { s with stdinThread := .done })
  | _, _ => none

/-- `none` where `pthread_join` blocks.
mirrors kvm-vmm-x86/src/main.c:3210-3262 -/
def mainStep (g : Globals) (c : ThreadCalls) (s : System) : Option System :=
  match s.main with
  | .spawn i =>
    if i < g.numVcpus then
      if c.create i then some { s.setThread i .entry with main := .spawn (i + 1) }
      else some { s with ret := 1, main := .stopStdin }
    else some { s with main := .join 0 }
  | .join i =>
    if i < g.numVcpus then
      match s.vcpuThreads i with
      | .done => some { s.setThread i .joined with main := .join (i + 1) }
      | _ => none
    else some { s with main := .stopStdin }
  | .stopStdin =>
    if s.stdinThreadRunning then some { s with stdinThreadRunning := false, main := .joinStdin }
    else some { s with main := .cleanup 0 }
  | .joinStdin => if s.stdinThread = .done then some { s with main := .cleanup 0 } else none
  | .cleanup i =>
    if i < g.numVcpus then some { s with proc := cleanupVcpu s.proc i, main := .cleanup (i + 1) }
    else some { s with proc := cleanupEarly s.proc, main := .exit }
  | .exit => none

def systemStep (g : Globals) (c : ThreadCalls) (s : System) : Act → Option System
  | .main => mainStep g c s
  | .vcpu j a => vcpuStep g s j a
  | .stdin a => stdinStep g s a

/-- The setup has succeeded, and the stdin thread was started if there is one. -/
structure System.Starting (s : System) : Prop where
  main : s.main = .spawn 0
  vcpuThreads : ∀ j, s.vcpuThreads j = .absent
  stdin : s.stdinThreadRunning = true ↔ s.stdinThread = .loop

def system (g : Globals) (c : ThreadCalls) : LTS System Act :=
  LTS.ofFn System.Starting (systemStep g c)

/-! ## What a step does to the threads -/

/-- Never created, or joined: the thread uses nothing any more. -/
def Settled (pc : VcpuPc) : Prop := pc = .absent ∨ pc = .joined

/-- `main` executes `cleanup_vcpu` for vCPU `j`, or has done so. -/
def Released (g : Globals) (s : System) (j : Nat) : Prop :=
  j < g.numVcpus ∧ (s.main = .exit ∨ ∃ i, s.main = .cleanup i ∧ j ≤ i)

/-- A vCPU thread that takes a step is neither absent nor joined, and moves only itself. -/
theorem vcpuStep_spec {g : Globals} {s s' : System} {j : Nat} {a : VcpuAct}
    (h : vcpuStep g s j a = some s') :
    s'.main = s.main ∧ ¬ Settled (s.vcpuThreads j) ∧ ∀ k, k ≠ j →
      s'.vcpuThreads k = s.vcpuThreads k := by
  unfold vcpuStep at h
  split at h
  all_goals first
    | (rename_i hpc
       obtain rfl := Option.some.inj h
       rw [hpc]
       exact ⟨rfl, by simp [Settled], fun k hk => Function.update_of_ne hk _ _⟩)
    | cases h

theorem stdinStep_spec {g : Globals} {s s' : System} {a : StdinAct}
    (h : stdinStep g s a = some s') :
    s'.main = s.main ∧ s'.vcpuThreads = s.vcpuThreads := by
  unfold stdinStep at h
  split at h
  · obtain rfl := Option.some.inj h
    exact ⟨rfl, rfl⟩
  · obtain rfl := Option.some.inj h
    split <;> exact ⟨rfl, rfl⟩
  · cases h

/-- Only `main` changes a thread that is absent or joined. -/
theorem settled_kept {g : Globals} {c : ThreadCalls} {s s' : System} {a : Act}
    (h : systemStep g c s a = some s') (ha : a ≠ .main) :
    s'.main = s.main ∧ ∀ k, Settled (s.vcpuThreads k) → s'.vcpuThreads k = s.vcpuThreads k := by
  cases a with
  | main => exact absurd rfl ha
  | vcpu j a =>
    obtain ⟨hm, hj, hk⟩ := vcpuStep_spec h
    exact ⟨hm, fun k hs => hk k fun he => hj (he ▸ hs)⟩
  | stdin a =>
    obtain ⟨hm, ht⟩ := stdinStep_spec h
    exact ⟨hm, fun k _ => by rw [ht]⟩

/-! ## The invariant -/

/-- Creating the threads fails for none of them, or already for the first. -/
def CreatesAllOrNone (g : Globals) (c : ThreadCalls) : Prop :=
  c.create 0 = false ∨ ∀ i < g.numVcpus, c.create i = true

/-- Threads exist up to the loop variable of `main`, and are joined up to it;
behind the loops all are settled. -/
def System.Inv (g : Globals) (c : ThreadCalls) (s : System) : Prop :=
  match s.main with
  | .spawn i => i ≤ g.numVcpus ∧ (∀ j < i, c.create j = true) ∧ ∀ j, i ≤ j →
      s.vcpuThreads j = .absent
  | .join i => i ≤ g.numVcpus ∧ (∀ j < i, s.vcpuThreads j = .joined) ∧
      ∀ j, g.numVcpus ≤ j → s.vcpuThreads j = .absent
  | .stopStdin | .joinStdin | .cleanup _ | .exit => ∀ j, Settled (s.vcpuThreads j)

section Invariant

variable {g : Globals} {c : ThreadCalls} {s s' : System}

theorem System.Inv.congr (h : s.Inv g c) (hm : s'.main = s.main)
    (ht : ∀ k, Settled (s.vcpuThreads k) → s'.vcpuThreads k = s.vcpuThreads k) : s'.Inv g c := by
  have habsent : ∀ k, s.vcpuThreads k = .absent → s'.vcpuThreads k = .absent := fun k hk =>
    (ht k (Or.inl hk)).trans hk
  have hjoined : ∀ k, s.vcpuThreads k = .joined → s'.vcpuThreads k = .joined := fun k hk =>
    (ht k (Or.inr hk)).trans hk
  unfold System.Inv at h ⊢
  rw [hm]
  cases hs : s.main with
  | spawn i =>
    rw [hs] at h
    exact ⟨h.1, h.2.1, fun j hj => habsent j (h.2.2 j hj)⟩
  | join i =>
    rw [hs] at h
    exact ⟨h.1, fun j hj => hjoined j (h.2.1 j hj), fun j hj => habsent j (h.2.2 j hj)⟩
  | stopStdin | joinStdin | cleanup _ | exit =>
    rw [hs] at h
    exact fun j => (h j).imp (habsent j) (hjoined j)

theorem mainStep_inv (hc : CreatesAllOrNone g c) (h : s.Inv g c) (hs : mainStep g c s = some s') :
    s'.Inv g c := by
  unfold mainStep at hs
  unfold System.Inv at h
  cases hm : s.main with
  | spawn i =>
    rw [hm] at h hs
    simp only at h hs
    obtain ⟨hi, hcr, habs⟩ := h
    split at hs
    · rename_i hlt
      split at hs
      · rename_i hok
        obtain rfl := Option.some.inj hs
        refine ⟨hlt, fun j hj => ?_, fun j hj => ?_⟩
        · rcases Nat.lt_succ_iff_lt_or_eq.1 hj with hj | rfl
          · exact hcr j hj
          · exact hok
        · exact (Function.update_of_ne (by omega) _ _).trans (habs j (by omega))
      · rename_i hfail
        obtain rfl := Option.some.inj hs
        -- the first one has failed, or none can
        obtain h0 | hall := hc
        · have hi0 : i = 0 := by
            by_contra hne
            rw [hcr 0 (by omega)] at h0
            cases h0
          exact fun j => Or.inl (habs j (by omega))
        · exact absurd (hall i hlt) hfail
    · obtain rfl := Option.some.inj hs
      exact ⟨Nat.zero_le _, fun j hj => absurd hj (Nat.not_lt_zero j),
        fun j hj => habs j (by omega)⟩
  | join i =>
    rw [hm] at h hs
    simp only at h hs
    obtain ⟨hi, hjoin, habs⟩ := h
    split at hs
    · rename_i hlt
      split at hs
      · obtain rfl := Option.some.inj hs
        refine ⟨hlt, fun j hj => ?_, fun j hj => ?_⟩
        · rcases Nat.lt_succ_iff_lt_or_eq.1 hj with hj | rfl
          · exact (Function.update_of_ne (by omega) _ _).trans (hjoin j hj)
          · exact Function.update_self _ _ _
        · exact (Function.update_of_ne (by omega) _ _).trans (habs j hj)
      · cases hs
    · obtain rfl := Option.some.inj hs
      intro j
      rcases Nat.lt_or_ge j i with hj | hj
      · exact Or.inr (hjoin j hj)
      · exact Or.inl (habs j (by omega))
  | stopStdin =>
    rw [hm] at h hs
    simp only at h hs
    split at hs <;> (obtain rfl := Option.some.inj hs; exact h)
  | joinStdin =>
    rw [hm] at h hs
    simp only at h hs
    split at hs
    · obtain rfl := Option.some.inj hs
      exact h
    · cases hs
  | cleanup i =>
    rw [hm] at h hs
    simp only at h hs
    split at hs <;> (obtain rfl := Option.some.inj hs; exact h)
  | exit =>
    rw [hm] at hs
    cases hs

theorem systemStep_inv (hc : CreatesAllOrNone g c) {a : Act} (h : s.Inv g c)
    (hs : systemStep g c s a = some s') :
    s'.Inv g c := by
  by_cases ha : a = .main
  · subst ha
    exact mainStep_inv hc h hs
  · obtain ⟨hm, ht⟩ := settled_kept hs ha
    exact h.congr hm ht

theorem System.Starting.inv (h : s.Starting) : s.Inv g c := by
  unfold System.Inv
  rw [h.main]
  exact ⟨Nat.zero_le _, fun j hj => absurd hj (Nat.not_lt_zero j), fun j _ => h.vcpuThreads j⟩

theorem inv_inductive (hc : CreatesAllOrNone g c) :
    (system g c).Inductive fun s => s.Inv g c where
  init := fun _ h0 => h0.inv
  step := fun _ _ _ => systemStep_inv hc

theorem System.Inv.released (h : s.Inv g c) {j : Nat} (hr : Released g s j) :
    Settled (s.vcpuThreads j) := by
  unfold System.Inv at h
  rcases hr.2 with hm | ⟨i, hm, -⟩
  · rw [hm] at h
    exact h j
  · rw [hm] at h
    exact h j

end Invariant

/-! ## A failure after a success -/

section Failure

variable {g : Globals} {c : ThreadCalls} {s0 : System}

/-- `main` creates the first `i` threads before any of them takes a step. -/
theorem spawn_run (h0 : s0.Starting) {i : Nat} (hi : i ≤ g.numVcpus)
    (hc : ∀ j < i, c.create j = true) :
    ∃ ls s, (system g c).Run s0 ls s ∧ s.main = .spawn i ∧ (∀ j < i, s.vcpuThreads j = .entry) ∧
      s.stdinThread = s0.stdinThread ∧ s.stdinThreadRunning = s0.stdinThreadRunning := by
  induction i with
  | zero => exact ⟨[], s0, .nil _, h0.main, fun j hj => absurd hj (Nat.not_lt_zero j), rfl, rfl⟩
  | succ i ih =>
    obtain ⟨ls, s, hrun, hm, hent, hst, hru⟩ := ih (by omega) fun j hj => hc j (by omega)
    have hstep :
        (system g c).step s .main { s.setThread i .entry with main := .spawn (i + 1) } := by
      show mainStep g c s = some _
      unfold mainStep
      rw [hm]
      simp only
      rw [if_pos (by omega), if_pos (hc i (Nat.lt_succ_self i))]
    refine ⟨ls ++ [.main], { s.setThread i .entry with main := .spawn (i + 1) },
      hrun.append (.cons hstep (.nil _)), rfl, fun j hj => ?_, hst, hru⟩
    rcases Nat.lt_succ_iff_lt_or_eq.1 hj with hj | rfl
    · exact (Function.update_of_ne (by omega) _ _).trans (hent j hj)
    · exact Function.update_self _ _ _

/-- From `cleanup_stdin` the stdin thread lets `main` go on to `cleanup_vcpus`. -/
theorem stopStdin_run {s : System} (hm : s.main = .stopStdin)
    (hst : s.stdinThreadRunning = true → s.stdinThread = .loop) :
    ∃ ls t, (system g c).Run s ls t ∧ t.main = .cleanup 0 ∧ t.vcpuThreads = s.vcpuThreads := by
  by_cases hr : s.stdinThreadRunning = true
  · let s1 : System := { s with stdinThreadRunning := false, main := .joinStdin }
    let s2 : System := { s1 with stdinThread := .done }
    have h1 : systemStep g c s .main = some s1 := by
      show mainStep g c s = _
      unfold mainStep
      rw [hm]
      exact if_pos hr
    have h2 : systemStep g c s1 (.stdin .test) = some s2 := by
      show stdinStep g s1 .test = _
      have hloop : s1.stdinThread = .loop := hst hr
      unfold stdinStep
      rw [hloop]
      rfl
    have h3 : systemStep g c s2 .main = some { s2 with main := .cleanup 0 } := rfl
    exact ⟨_, _, .cons h1 (.cons h2 (.cons h3 (.nil _))), rfl, rfl⟩
  · have h1 : systemStep g c s .main = some { s with main := .cleanup 0 } := by
      show mainStep g c s = _
      unfold mainStep
      rw [hm]
      exact if_neg hr
    exact ⟨_, _, .cons h1 (.nil _), rfl, rfl⟩

/-- Where a creation fails after one that did not, `main` comes to the cleanup
of vCPU 0 while its thread is still at its first line. -/
theorem released_early (h0 : s0.Starting) (hc : ¬ CreatesAllOrNone g c) :
    ∃ ls s, (system g c).Run s0 ls s ∧ s.main = .cleanup 0 ∧ s.vcpuThreads 0 = .entry ∧
      0 < g.numVcpus := by
  obtain ⟨hfirst, hsome⟩ := not_or.1 hc
  have hex : ∃ i, i < g.numVcpus ∧ ¬ c.create i = true := by
    by_contra hno
    exact hsome fun i hi => by_contra fun h => hno ⟨i, hi, h⟩
  classical
  obtain ⟨hlt, hfail⟩ := Nat.find_spec hex
  have hbefore : ∀ j < Nat.find hex, c.create j = true := fun j hj => by
    by_contra hno
    exact Nat.find_min hex hj ⟨by omega, hno⟩
  generalize Nat.find hex = i at hlt hfail hbefore
  have hpos : 0 < i := Nat.pos_of_ne_zero fun h => by
    rw [h] at hfail
    simp only [Bool.not_eq_false] at hfirst
    exact hfail hfirst
  obtain ⟨ls, s, hrun, hm, hent, hst, hru⟩ := spawn_run h0 (Nat.le_of_lt hlt) hbefore
  have hstep : systemStep g c s .main = some { s with ret := 1, main := .stopStdin } := by
    show mainStep g c s = _
    unfold mainStep
    rw [hm]
    simp only
    rw [if_pos hlt, if_neg hfail]
  obtain ⟨ls', t, hrun', hmt, hthreads⟩ := stopStdin_run (g := g) (c := c)
    (s := { s with ret := 1, main := .stopStdin }) rfl fun h =>
      hst.trans (h0.stdin.1 (hru.symm.trans h))
  exact ⟨_, t, hrun.append (.cons hstep hrun'), hmt, by rw [hthreads]; exact hent 0 hpos, by omega⟩

end Failure

/-- A thread whose vCPU is being released takes no step any more. -/
theorem no_step_after_release {g : Globals} {c : ThreadCalls} {s0 s : System} {ls : List Act}
    (hc : CreatesAllOrNone g c) (h0 : s0.Starting) (hrun : (system g c).Run s0 ls s) {j : Nat}
    (hr : Released g s j) (a : VcpuAct) : vcpuStep g s j a = none := by
  have hset := ((inv_inductive hc).reachable s ⟨s0, ls, h0, hrun⟩).released hr
  cases hs : vcpuStep g s j a with
  | none => rfl
  | some s' => exact absurd hset (vcpuStep_spec hs).2.1

/-- In every run, `cleanup_vcpu` is executed only for vCPUs whose thread was
joined or never created, exactly when `pthread_create` fails for none of them
or already for the first. -/
theorem released_after_join_iff (g : Globals) (c : ThreadCalls) {s0 : System} (h0 : s0.Starting) :
    (∀ ls s, (system g c).Run s0 ls s → ∀ j, Released g s j → Settled (s.vcpuThreads j)) ↔
      CreatesAllOrNone g c := by
  constructor
  · intro hsafe
    by_contra hc
    obtain ⟨ls, s, hrun, hm, hent, hpos⟩ := released_early h0 hc
    have := hsafe ls s hrun 0 ⟨hpos, Or.inr ⟨0, hm, Nat.le_refl 0⟩⟩
    rw [hent] at this
    simp [Settled] at this
  · intro hc ls s hrun j hr
    exact ((inv_inductive hc).reachable s ⟨s0, ls, h0, hrun⟩).released hr

def twoGuests : Command := .guests { mode := .real } [.ofFile .hlt, .ofFile .hlt] (by decide)

/-- Both are set up and about to be started. -/
def twoReady : System := { proc := (twoGuests.start .allOk (.init standardStreams)).2 }

def twoVcpus : Globals :=
  { verbose := false, linuxSerialInputEnabled := false, numVcpus := 2, name := fun _ => [],
    vmFd := 4 }

theorem twoReady_starting : twoReady.Starting := ⟨rfl, fun _ => rfl, by simp [twoReady]⟩

theorem released_after_join_iff_two :
    (∀ ls s, (system twoVcpus ⟨fun i => i == 0⟩).Run twoReady ls s → ∀ j, Released twoVcpus s j →
      Settled (s.vcpuThreads j)) ↔ CreatesAllOrNone twoVcpus ⟨fun i => i == 0⟩ :=
  released_after_join_iff twoVcpus ⟨fun i => i == 0⟩ twoReady_starting

/-- The second thread cannot be created: vCPU 0 is released while its thread runs. -/
theorem released_while_running :
    ∃ ls s, (system twoVcpus ⟨fun i => i == 0⟩).Run twoReady ls s ∧ s.main = .cleanup 0 ∧
      s.vcpuThreads 0 = .entry ∧ Released twoVcpus s 0 ∧ ¬ Settled (s.vcpuThreads 0) := by
  have hc : ¬ CreatesAllOrNone twoVcpus ⟨fun i => i == 0⟩ := by
    rintro (h | h)
    · exact absurd h (by decide)
    · exact absurd (h 1 (by decide)) (by decide)
  obtain ⟨ls, s, hrun, hm, hent, hpos⟩ := released_early twoReady_starting hc
  exact ⟨ls, s, hrun, hm, hent, ⟨hpos, Or.inr ⟨0, hm, Nat.le_refl 0⟩⟩, by rw [hent]; simp [Settled]⟩

end MiniKvm.Vmm
