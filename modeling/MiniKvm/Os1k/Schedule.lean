import MiniKvm.Core.RoundRobin
import MiniKvm.Os1k.Switch

/-!
# The scheduler

`kernel_main` creates the idle process and the shell, and starts the shell.
From then on processes are created, yield and exit, in any order. Between two
of these steps the processes run: memory changes, and a switch saves a stack
pointer; the process table is changed by nothing else.

`yield` searches from index `pid` on. A process in slot `i` has pid `i + 1`,
so that is the slot after its own; the idle process has pid 0 and is skipped
by the search. The search is the round robin of `Core/RoundRobin.lean`
(`findNext_eq`).
-/
namespace MiniKvm.Os1k

open RoundRobin

/-! ## The source -/

/-- mirrors kvm-vmm-x86/os-1k/kernel.c:529-546 -/
def kernelMain (l : Layout) (shell : List UInt8) : EStateM Unit Os Unit := do
  let idle ← createProcess l []
  modify fun s => { s with
    idleProc := some idle
    procs := Function.update s.procs idle { s.procs idle with pid := 0 } }
  let shellProc ← createProcess l shell
  modify fun s => { s with currentProc := some shellProc }

/-- Process tables that differ in saved stack pointers only. -/
def SameTable (s t : Os) : Prop :=
  (∀ i, (t.procs i).pid = (s.procs i).pid ∧ (t.procs i).state = (s.procs i).state ∧
    (t.procs i).pageTable = (s.procs i).pageTable) ∧ t.idleProc = s.idleProc

/-- `current_proc->state = PROC_EXITED`.
mirrors kvm-vmm-x86/os-1k/kernel.c:439 -/
def Os.exited (s : Os) (c : Fin PROCS_MAX) : Os :=
  { s with procs := Function.update s.procs c { s.procs c with state := .exited } }

@[simp] theorem exited_pid (s : Os) (c i : Fin PROCS_MAX) :
    ((s.exited c).procs i).pid = (s.procs i).pid := by
  by_cases hi : i = c
  · simp [Os.exited, hi]
  · simp [Os.exited, hi]

@[simp] theorem exited_state (s : Os) (c i : Fin PROCS_MAX) :
    ((s.exited c).procs i).state = if i = c then .exited else (s.procs i).state := by
  by_cases hi : i = c
  · simp [Os.exited, hi]
  · simp [Os.exited, hi]

inductive SchedAct
  | create (image : List UInt8)
  | yield
  | exit

/-- Calls that return, or switch to another process. An exit is followed by a
`yield`; where that returns, the kernel panics.
mirrors kvm-vmm-x86/os-1k/kernel.c:386-414 and 437-441 -/
inductive SchedStep (l : Layout) : Os → SchedAct → Os → Prop
  | create {s image i t} : createProcess l image s = .ok i t → SchedStep l s (.create image) t
  | yield {s c next t} : s.currentProc = some c → findNext s c = some next → SameTable s t →
      t.currentProc = some next → SchedStep l s .yield t
  | exit {s c next t} : s.currentProc = some c → findNext (s.exited c) c = some next → next ≠ c →
      SameTable (s.exited c) t → t.currentProc = some next → SchedStep l s .exit t

/-- Everything that can follow `kernel_main`. -/
def scheduler (l : Layout) (shell : List UInt8) : LTS Os SchedAct where
  init s := ∃ m, kernelMain l shell (Os.boot l m) = .ok () s
  step := SchedStep l

/-- A process `yield` may choose. -/
def Ready (s : Os) (i : Fin PROCS_MAX) : Prop := (s.procs i).state = .runnable ∧ (s.procs i).pid > 0

instance (s : Os) (i : Fin PROCS_MAX) : Decidable (Ready s i) := inferInstanceAs (Decidable (_ ∧ _))

/-! ## What `create_process` does to the table -/

section Table

/-- The table and who is running, untouched. -/
def TableKept (s t : Os) : Prop :=
  t.procs = s.procs ∧ t.currentProc = s.currentProc ∧ t.idleProc = s.idleProc

variable (s0 : Os)

theorem updMem_table (f : Mem → Mem) : Keeps (TableKept s0) (updMem f) := .modify fun _ h => h

theorem panicUnless_table (p : Prop) [Decidable p] : Keeps (TableKept s0) (panicUnless p) := by
  intro s h
  rw [wp_panicUnless]
  exact ⟨fun _ => h, fun _ => trivial⟩

theorem allocPages_table (n : Nat) : Keeps (TableKept s0) (allocPages n) := by
  intro s h
  simp only [allocPages, wp_bind, wp_get, wp_panicUnless, wp_set, wp_pure]
  exact ⟨fun _ => h, fun _ => trivial⟩

theorem mapPage_table (d va pa flags : Nat) : Keeps (TableKept s0) (mapPage d va pa flags) := by
  unfold mapPage
  refine .bind (panicUnless_table s0 _) fun _ => .bind (panicUnless_table s0 _) fun _ => ?_
  refine .bind .get fun s => .ite ?_ (updMem_table s0 _)
  refine .bind (allocPages_table s0 1) fun _ => ?_
  exact .bind (updMem_table s0 _) fun _ => updMem_table s0 _

theorem mapKernelRegion_table (d base : Nat) :
    Keeps (TableKept s0) (mapKernelRegion d base) := .loop fun _ => mapPage_table s0 _ _ _ _

theorem mapImagePage_table (d : Nat) (image : List UInt8) (k : Nat) :
    Keeps (TableKept s0) (mapImagePage d image k) := by
  unfold mapImagePage
  refine .bind (allocPages_table s0 1) fun _ => ?_
  exact .bind (updMem_table s0 _) fun _ => mapPage_table s0 _ _ _ _

theorem mapStackPage_table (d codeEnd k : Nat) :
    Keeps (TableKept s0) (mapStackPage d codeEnd k) := by
  unfold mapStackPage
  exact .bind (allocPages_table s0 1) fun _ => mapPage_table s0 _ _ _ _

/-- A new process is in the first unused slot, with the slot's number plus one as its pid. -/
structure Added (i : Fin PROCS_MAX) (s t : Os) : Prop where
  slot : findUnused s.procs = some i
  pid : (t.procs i).pid = i + 1
  state : (t.procs i).state = .runnable
  other : ∀ j ≠ i, t.procs j = s.procs j
  currentProc : t.currentProc = s.currentProc
  idleProc : t.idleProc = s.idleProc

theorem createProcess_table (l : Layout) (image : List UInt8) (s : Os) :
    wp (createProcess l image) (fun i t => Added i s t) (fun _ _ => True) s := by
  unfold createProcess
  rw [wp_bind, wp_get]
  cases hslot : findUnused s.procs with
  | none => trivial
  | some i =>
    have hkept : TableKept s s := ⟨rfl, rfl, rfl⟩
    simp only
    rw [wp_bind]
    refine wp_mono (updMem_table s _ _ hkept) (fun _ _ h1 => ?_) fun _ _ _ => trivial
    rw [wp_bind]
    refine wp_mono (allocPages_table s 1 _ h1) (fun d _ h2 => ?_) fun _ _ _ => trivial
    rw [wp_bind]
    refine wp_mono (mapKernelRegion_table s d _ _ h2) (fun _ _ h3 => ?_) fun _ _ _ => trivial
    rw [wp_bind]
    refine wp_mono (mapKernelRegion_table s d _ _ h3) (fun _ _ h4 => ?_) fun _ _ _ => trivial
    rw [wp_bind]
    refine wp_mono (Keeps.loop (fun k => mapImagePage_table s d image k) _ h4) (fun _ _ h5 => ?_)
      fun _ _ _ => trivial
    rw [wp_bind]
    refine wp_mono (Keeps.loop (fun k => mapStackPage_table s d _ k) _ h5) (fun _ t h6 => ?_)
      fun _ _ _ => trivial
    obtain ⟨hprocs, hcur, hidle⟩ := h6
    rw [wp_bind, wp_modify, wp_pure]
    refine ⟨hslot, ?_, ?_, fun j hj => ?_, hcur, hidle⟩
    · simp only [Function.update_self]
    · simp only [Function.update_self]
    · simp only [Function.update_of_ne hj, hprocs]

end Table

/-! ## The invariant -/

/-- The idle process is in slot 0 with pid 0, all others have the slot's number plus one. -/
structure Slots (s : Os) : Prop where
  idleProc : s.idleProc = some 0
  idle_used : (s.procs 0).state ≠ .unused
  idle_pid : (s.procs 0).pid = 0
  pid : ∀ i ≠ 0, (s.procs i).state ≠ .unused → (s.procs i).pid = i + 1

/-- A process that may be running: it has not exited, unless it is the idle process. -/
def MayRun (s : Os) (c : Fin PROCS_MAX) : Prop :=
  (s.procs c).state ≠ .unused ∧ (c ≠ 0 → (s.procs c).state ≠ .exited)

structure Table (s : Os) : Prop extends Slots s where
  current : ∃ c, s.currentProc = some c ∧ MayRun s c

section Steps

variable {l : Layout} {s t : Os} {c i : Fin PROCS_MAX}

theorem mayRun_of_runnable (h : (s.procs c).state = .runnable) : MayRun s c := by
  rw [MayRun, h]
  exact ⟨by decide, fun _ => by decide⟩

theorem Slots.ready_iff (h : Slots s) : Ready s i ↔ i ≠ 0 ∧ (s.procs i).state = .runnable := by
  unfold Ready
  by_cases h0 : i = 0
  · subst h0
    simp [h.idle_pid]
  · constructor
    · exact fun hr => ⟨h0, hr.1⟩
    · intro hr
      refine ⟨hr.2, ?_⟩
      rw [h.pid i h0 (by rw [hr.2]; decide)]
      exact Nat.succ_pos _

/-- The loop of `yield`, as a search among slots. -/
theorem findNext_find (s : Os) (c : Fin PROCS_MAX) :
    findNext s c = (((List.range PROCS_MAX).map fun k =>
      Fin.ofNat PROCS_MAX ((s.procs c).pid + k)).find? fun i => Ready s i).or s.idleProc := by
  let slot := fun k => Fin.ofNat PROCS_MAX ((s.procs c).pid + k)
  have hfind : ((List.range PROCS_MAX).find? fun k =>
      (s.procs (slot k)).state = .runnable ∧ (s.procs (slot k)).pid > 0) =
      (List.range PROCS_MAX).find? ((fun i => decide (Ready s i)) ∘ slot) := rfl
  rw [List.find?_map]
  unfold findNext
  simp only
  rw [hfind]
  cases (List.range PROCS_MAX).find? ((fun i => decide (Ready s i)) ∘ slot) <;> rfl

/-- It goes round the ring: the search of the idle process begins at its own
slot, which is not ready. -/
theorem Slots.findNext_eq (h : Slots s) (hc : (s.procs c).state ≠ .unused) :
    findNext s c = ((ring c).find? fun i => Ready s i).or (some 0) := by
  rw [findNext_find, h.idleProc]
  congr 1
  by_cases h0 : c = 0
  · subst h0
    have hidle : ¬ Ready s 0 := fun hr => (h.ready_iff.1 hr).1 rfl
    have hlist : ((List.range PROCS_MAX).map fun k => Fin.ofNat PROCS_MAX (0 + k)) =
        0 :: [1, 2, 3, 4, 5, 6, 7] := by decide
    have hring : ring (0 : Fin PROCS_MAX) = [1, 2, 3, 4, 5, 6, 7] ++ [0] := by decide
    rw [h.idle_pid, hlist, hring, List.find?_append]
    simp [hidle]
  · rw [h.pid c h0 hc, ring_eq]

theorem Added.used (ha : Added i s t) {j : Fin PROCS_MAX} (hj : (s.procs j).state ≠ .unused) :
    t.procs j = s.procs j := ha.other j fun he => hj (he ▸ findUnused_some ha.slot)

theorem Slots.create (h : Slots s) (ha : Added i s t) : Slots t := by
  have h0 := ha.used h.idle_used
  refine ⟨ha.idleProc.trans h.idleProc, h0 ▸ h.idle_used, h0 ▸ h.idle_pid, fun j hj hs => ?_⟩
  by_cases hji : j = i
  · rw [hji]
    exact ha.pid
  · rw [ha.other j hji] at hs ⊢
    exact h.pid j hj hs

theorem Table.create (h : Table s) (ha : Added i s t) : Table t := by
  obtain ⟨c, hcur, hrun⟩ := h.current
  refine ⟨h.toSlots.create ha, c, ha.currentProc.trans hcur, ?_⟩
  rw [MayRun, ha.used hrun.1]
  exact hrun

/-- A switch to a process that may run. -/
theorem Slots.same (h : Slots s) (hs : SameTable s t) {next : Fin PROCS_MAX}
    (hcur : t.currentProc = some next) (hrun : MayRun s next) : Table t := by
  obtain ⟨hsame, hidle⟩ := hs
  refine ⟨⟨hidle.trans h.idleProc, ?_, ?_, fun i hi hu => ?_⟩, next, hcur, ?_⟩
  · rw [(hsame 0).2.1]
    exact h.idle_used
  · rw [(hsame 0).1]
    exact h.idle_pid
  · rw [(hsame i).1]
    exact h.pid i hi ((hsame i).2.1 ▸ hu)
  · rw [MayRun, (hsame next).2.1]
    exact hrun

/-- An exit keeps the slots. -/
theorem Slots.exited (h : Slots s) (hc : (s.procs c).state ≠ .unused) : Slots (s.exited c) := by
  have hused : ∀ i, ((s.exited c).procs i).state ≠ .unused ↔ (s.procs i).state ≠ .unused := by
    intro i
    rw [exited_state]
    by_cases hi : i = c
    · simp [hi, hc]
    · simp [hi]
  refine ⟨h.idleProc, (hused 0).2 h.idle_used, ?_, fun i hi hu => ?_⟩
  · rw [exited_pid]
    exact h.idle_pid
  · rw [exited_pid]
    exact h.pid i hi ((hused i).1 hu)

/-- What the search returns is ready, or it is the idle process. -/
theorem Slots.next_cases (h : Slots s) (hc : (s.procs c).state ≠ .unused) {next : Fin PROCS_MAX}
    (hn : findNext s c = some next) :
    Ready s next ∧ (∃ q, Turn (Ready s) (ring c) next q) ∨ next = 0 ∧ ∀ i, ¬ Ready s i := by
  rw [h.findNext_eq hc] at hn
  cases hf : (ring c).find? fun i => Ready s i with
  | some x =>
    rw [hf] at hn
    obtain rfl : x = next := Option.some.inj hn
    exact Or.inl ⟨by simpa using List.find?_some hf, turn_of_find hf⟩
  | none =>
    rw [hf] at hn
    refine Or.inr ⟨(Option.some.inj hn).symm, fun i => ?_⟩
    simpa using List.find?_eq_none.1 hf i (mem_ring c i)

theorem Slots.next_mayRun (h : Slots s) (hc : (s.procs c).state ≠ .unused) {next : Fin PROCS_MAX}
    (hn : findNext s c = some next) : MayRun s next := by
  rcases h.next_cases hc hn with ⟨hr, -⟩ | ⟨rfl, -⟩
  · exact mayRun_of_runnable hr.1
  · exact ⟨h.idle_used, fun h0 => absurd rfl h0⟩

/-- One step. -/
theorem Table.step (h : Table s) {a : SchedAct} (hs : SchedStep l s a t) : Table t := by
  obtain ⟨c, hcur, hrun⟩ := h.current
  cases hs with
  | create hok => exact h.create (wp_ok (createProcess_table l _ s) hok)
  | yield hcur' hnext hsame ht =>
    obtain rfl := Option.some.inj (hcur.symm.trans hcur')
    exact h.same hsame ht (h.next_mayRun hrun.1 hnext)
  | exit hcur' hnext hne hsame ht =>
    obtain rfl := Option.some.inj (hcur.symm.trans hcur')
    have hslots := h.exited hrun.1
    exact hslots.same hsame ht (hslots.next_mayRun (by simp) hnext)

/-- `kernel_main` leaves the idle process in slot 0 and a process running. -/
theorem kernelMain_table (l : Layout) (shell : List UInt8) (m : Mem) :
    wp (kernelMain l shell) (fun _ t => Table t) (fun _ _ => True) (Os.boot l m) := by
  unfold kernelMain
  rw [wp_bind]
  refine wp_mono (createProcess_table l [] _) (fun i s1 h1 => ?_) fun _ _ _ => trivial
  have hfirst : findUnused (Os.boot l m).procs = some 0 := rfl
  obtain rfl : 0 = i := Option.some.inj (hfirst.symm.trans h1.slot)
  rw [wp_bind, wp_modify, wp_bind]
  refine wp_mono (createProcess_table l shell _) (fun j s2 h2 => ?_) fun _ _ _ => trivial
  rw [wp_modify]
  have hslots := Slots.create ⟨rfl, ?_, ?_, fun i hi hu => ?_⟩ h2
  · refine ⟨⟨hslots.idleProc, hslots.idle_used, hslots.idle_pid, hslots.pid⟩, j, rfl, ?_⟩
    exact mayRun_of_runnable h2.state
  · simp [h1.state]
  · simp
  · simp only [Function.update_of_ne hi, h1.other i hi] at hu
    exact absurd rfl hu

end Steps

/-! ## Rounds -/

section Rounds

variable {l : Layout} {shell : List UInt8} {s t : Os} {c : Fin PROCS_MAX}

/-- What a `yield` does. -/
theorem SchedStep.yield_cases (h : SchedStep l s .yield t) (hc : s.currentProc = some c) :
    ∃ next, findNext s c = some next ∧ SameTable s t ∧ t.currentProc = some next := by
  cases h with
  | yield hc' hnext hsame hcur =>
    obtain rfl := Option.some.inj (hc.symm.trans hc')
    exact ⟨_, hnext, hsame, hcur⟩

theorem SameTable.ready_iff (h : SameTable s t) (i : Fin PROCS_MAX) : Ready t i ↔ Ready s i := by
  unfold Ready
  rw [(h.1 i).1, (h.1 i).2.1]

/-- Where somebody is ready, yields are turns on the ring. -/
theorem Table.turns {p : Fin PROCS_MAX → Prop} {ps : List (SchedAct × Os)} (h : Table s)
    (hp : ∀ i, Ready s i ↔ p i) (hsome : ∃ i, p i) (hc : s.currentProc = some c)
    (hpath : (scheduler l shell).Path s ps) (hy : ∀ a ∈ ps, a.1 = .yield) :
    ∃ xs q, Turns p (ring c) xs q ∧ ps.map (fun a => a.2.currentProc) = xs.map some := by
  induction ps generalizing s c with
  | nil => exact ⟨[], _, .nil _, rfl⟩
  | cons a ps ih =>
    obtain ⟨act, t⟩ := a
    obtain ⟨hstep, hps⟩ := hpath
    obtain rfl : act = .yield := hy _ List.mem_cons_self
    have ht := h.step hstep
    obtain ⟨c', hcur, hrun⟩ := h.current
    obtain rfl : c = c' := Option.some.inj (hc.symm.trans hcur)
    obtain ⟨next, hnext, hsame, hcur'⟩ := hstep.yield_cases hc
    have hready : Ready s = p := funext fun i => propext (hp i)
    rcases h.next_cases hrun.1 hnext with ⟨-, q, hturn⟩ | ⟨-, hnone⟩
    · rw [hready] at hturn
      have hq := ring_turn hturn
      obtain ⟨xs, q', hxs, hmap⟩ := ih ht (fun i => (hsame.ready_iff i).trans (hp i)) hcur' hps
        fun b hb => hy b (List.mem_cons_of_mem _ hb)
      rw [← hq] at hxs
      exact ⟨next :: xs, q', .cons hturn hxs, by rw [List.map_cons, List.map_cons, hmap, hcur']⟩
    · obtain ⟨i, hi⟩ := hsome
      exact absurd ((hp i).2 hi) (hnone i)

/-- A round of yields: each process that is ready runs once. -/
theorem Table.round {ps : List (SchedAct × Os)} (h : Table s)
    (hpath : (scheduler l shell).Path s ps) (hy : ∀ a ∈ ps, a.1 = .yield)
    (hlen : ps.length = (List.finRange PROCS_MAX).countP fun i => Ready s i)
    {i : Fin PROCS_MAX} (hi : Ready s i) :
    (ps.map fun a => a.2.currentProc).count (some i) = 1 := by
  obtain ⟨c, hc, -⟩ := h.current
  obtain ⟨xs, q, hxs, hmap⟩ := h.turns (fun _ => Iff.rfl) ⟨i, hi⟩ hc hpath hy
  have hperm : (ring c).Perm (List.finRange PROCS_MAX) := List.rotate_perm _ _
  have hxlen : xs.length = ps.length := by
    have := congrArg List.length hmap
    simpa using this.symm
  have hall : xs = (ring c).filter fun i => Ready s i := by
    refine hxs.round ?_
    rw [hxlen, hlen, ← List.countP_eq_length_filter, hperm.countP_eq]
  have hmem : i ∈ xs := by
    rw [hall]
    exact List.mem_filter.2 ⟨mem_ring c i, by simpa using hi⟩
  have hnodup : xs.Nodup := hall ▸ (nodup_ring c).filter _
  rw [hmap]
  exact List.count_eq_one_of_mem (hnodup.map (Option.some_injective _)) (List.mem_map_of_mem hmem)

/-- A process that has exited stays in its slot. -/
theorem SchedStep.exited_stays {a : SchedAct} (h : SchedStep l s a t) {i : Fin PROCS_MAX}
    (hi : (s.procs i).state = .exited) : (t.procs i).state = .exited := by
  cases h with
  | create hok =>
    have ha := wp_ok (createProcess_table l _ s) hok
    rw [ha.used (by rw [hi]; decide)]
    exact hi
  | yield _ _ hsame _ =>
    rw [(hsame.1 i).2.1]
    exact hi
  | exit _ _ _ hsame _ =>
    rw [(hsame.1 i).2.1, exited_state]
    split
    · rfl
    · exact hi

end Rounds

/-- Every state of the scheduler. -/
theorem table_reachable {l : Layout} {shell : List UInt8} {s : Os}
    (hr : (scheduler l shell).Reachable s) : Table s := by
  refine LTS.Inductive.reachable (I := Table) ⟨?_, fun s a t h hs => h.step hs⟩ s hr
  rintro s ⟨m, hm⟩
  exact wp_ok (kernelMain_table l shell m) hm

/-- Where the search of `yield` in the process in slot `c` ends. -/
structure Selected (s : Os) (c next : Fin PROCS_MAX) : Prop where
  first : (∃ i, Ready s i) → Ready s next ∧
    ∃ skipped rest, ring c = skipped ++ next :: rest ∧ ∀ i ∈ skipped, ¬ Ready s i
  keeps : (∀ i, Ready s i ↔ i = c) → next = c
  idle : s.idleProc = some next ↔ ∀ i, ¬ Ready s i

theorem Table.selected {s : Os} (h : Table s) {c next : Fin PROCS_MAX}
    (hc : (s.procs c).state ≠ .unused) (hn : findNext s c = some next) : Selected s c next := by
  have hnext := h.next_cases hc hn
  have h0 : ¬ Ready s 0 := fun hr => (h.ready_iff.1 hr).1 rfl
  refine ⟨fun ⟨i, hi⟩ => ?_, fun honly => ?_, ?_⟩
  · rcases hnext with ⟨hr, q, hturn⟩ | ⟨-, hnone⟩
    · generalize hring : ring c = r at hturn
      cases hturn with
      | mk skipped rest hskip _ => exact ⟨hr, skipped, rest, rfl, hskip⟩
    · exact absurd hi (hnone i)
  · rcases hnext with ⟨hr, -⟩ | ⟨-, hnone⟩
    · exact (honly next).1 hr
    · exact absurd ((honly c).2 rfl) (hnone c)
  · rw [h.idleProc]
    constructor
    · intro he
      rcases hnext with ⟨hr, -⟩ | ⟨-, hnone⟩
      · exact absurd (Option.some.inj he ▸ hr) h0
      · exact hnone
    · intro hnone
      rcases hnext with ⟨hr, -⟩ | ⟨rfl, -⟩
      · exact absurd hr (hnone next)
      · rfl

/-- The scheduler after `kernel_main`: `yield` is a round robin in slot order,
an exited process other than the idle one never runs again, and a round of
yields runs every ready process once. -/
theorem yield_round_robin {l : Layout} {shell : List UInt8} {s : Os}
    (hr : (scheduler l shell).Reachable s) :
    Slots s ∧
    (∃ c next, s.currentProc = some c ∧ findNext s c = some next ∧ Selected s c next ∧
      ∀ t, SchedStep l s .yield t → t.currentProc = some next) ∧
    (∀ i, s.idleProc ≠ some i → (s.procs i).state = .exited →
      ∀ as t, (scheduler l shell).Run s as t → t.currentProc ≠ some i) ∧
    ∀ ps, (scheduler l shell).Path s ps → (∀ a ∈ ps, a.1 = .yield) →
      ps.length = (List.finRange PROCS_MAX).countP (fun i => Ready s i) →
      ∀ i, Ready s i → (ps.map fun a => a.2.currentProc).count (some i) = 1 := by
  have h := table_reachable hr
  refine ⟨h.toSlots, ?_, fun i hi hexit as t hrun => ?_, fun ps hps hy hlen i hi =>
    h.round hps hy hlen hi⟩
  · obtain ⟨c, hcur, hrun⟩ := h.current
    obtain ⟨next, hnext⟩ : ∃ next, findNext s c = some next := by
      rw [h.findNext_eq hrun.1]
      cases (ring c).find? fun i => Ready s i <;> exact ⟨_, rfl⟩
    refine ⟨c, next, hcur, hnext, h.selected hrun.1 hnext, fun t hstep => ?_⟩
    obtain ⟨next', hnext', -, ht⟩ := hstep.yield_cases hcur
    rw [ht, ← hnext', hnext]
  · have hkeep : Table t ∧ (t.procs i).state = .exited :=
      hrun.keeps (I := fun u => Table u ∧ (u.procs i).state = .exited)
        (fun u a v hu (hstep : SchedStep l u a v) => ⟨hu.1.step hstep, hstep.exited_stays hu.2⟩)
        ⟨h, hexit⟩
    obtain ⟨c, hcur, hmay⟩ := hkeep.1.current
    rw [hcur]
    rintro ⟨rfl⟩
    exact hmay.2 (fun h0 => hi (h.idleProc.trans (congrArg some h0.symm))) hkeep.2

/-! ## A run in which the idle process exits -/

/-- Free memory starts at `n`, and the processes are in the states `f`. -/
structure Stage (n : Nat) (f : Fin PROCS_MAX → ProcState) (c : Option (Fin PROCS_MAX)) (s : Os) :
    Prop where
  next : s.nextPaddr = n + KERNEL_BASE
  states : ∀ i, (s.procs i).state = f i
  current : s.currentProc = c

section Stages

variable {n : Nat} {f : Fin PROCS_MAX → ProcState} {s : Os}

theorem Stage.findUnused {c : Option (Fin PROCS_MAX)} (h : Stage n f c s) :
    findUnused s.procs = (List.finRange PROCS_MAX).find? fun i => f i = .unused := by
  unfold Os1k.findUnused
  congr 1
  funext i
  rw [h.states i]

/-- A process without an image, or with a small one, takes 8 pages. -/
theorem Stage.create {c : Option (Fin PROCS_MAX)} (h : Stage n f c s) (image : List UInt8)
    (hsize : userPages image.length = 4) (hn : n % 4096 = 0) (hb : n + 0x8000 ≤ RAM_END)
    (i : Fin PROCS_MAX) (hi : ((List.finRange PROCS_MAX).find? fun i => f i = .unused) = some i) :
    wp (createProcess smallKernel image)
      (fun j t => j = i ∧ Added i s t ∧ Stage (n + 0x8000) (Function.update f i .runnable) c t)
      (fun _ _ => False) s := by
  have hend : userPage n (userPages image.length) = n + 0x8000 := by
    have := userPage_end n image.length
    omega
  have hslot : Os1k.findUnused s.procs = some i := h.findUnused.trans hi
  have hwp := createProcess_wp smallKernel image s n h.next hn (by omega)
  rw [hend] at hwp
  refine wp_mono (wp_and hwp (createProcess_table smallKernel image s)) (fun j t ht => ?_)
    fun _ _ he => ?_
  · obtain ⟨hc, ha⟩ := ht
    obtain rfl := Option.some.inj (hslot.symm.trans ha.slot)
    refine ⟨rfl, ha, ?_, fun k => ?_, ha.currentProc.trans h.current⟩
    · have hnext := hc.space.next
      rw [hend] at hnext
      exact hnext
    · by_cases hk : k = i
      · rw [hk, Function.update_self]
        exact ha.state
      · rw [Function.update_of_ne hk, ha.other k hk]
        exact h.states k
  · rcases he.1 with hnone | hlt
    · rw [hslot] at hnone
      cases hnone
    · omega

/-- An exit switches to `next`, the only process left that is ready, or the
idle one where there is none. -/
theorem Stage.exit {c : Fin PROCS_MAX} (h : Stage n f (some c) s) (ht : Table s)
    (next : Fin PROCS_MAX)
    (hall : ∀ i ≠ 0, Function.update f c .exited i = .runnable → i = next)
    (hready : next ≠ 0 → Function.update f c .exited next = .runnable) (hne : next ≠ c) :
    ∃ t, SchedStep smallKernel s .exit t ∧ Stage n (Function.update f c .exited) (some next) t := by
  have hstates : ∀ i, ((s.exited c).procs i).state = Function.update f c .exited i := by
    intro i
    rw [exited_state]
    by_cases hi : i = c
    · rw [if_pos hi, hi, Function.update_self]
    · rw [if_neg hi, Function.update_of_ne hi]
      exact h.states i
  obtain ⟨c', hcur, hrun⟩ := ht.current
  obtain rfl : c = c' := Option.some.inj (h.current.symm.trans hcur)
  have hslots := ht.toSlots.exited hrun.1
  have hc : ((s.exited c).procs c).state ≠ .unused := by simp
  have hnext : findNext (s.exited c) c = some next := by
    obtain ⟨x, hx⟩ : ∃ x, findNext (s.exited c) c = some x := by
      rw [hslots.findNext_eq hc]
      cases (ring c).find? fun i => Ready (s.exited c) i <;> exact ⟨_, rfl⟩
    rw [hx]
    rcases hslots.next_cases hc hx with ⟨hr, -⟩ | ⟨rfl, hnone⟩
    · have hr := hslots.ready_iff.1 hr
      rw [hall x hr.1 (hstates x ▸ hr.2)]
    · by_contra hne0
      have h0 : next ≠ 0 := fun h0 => hne0 (by rw [h0])
      exact hnone next (hslots.ready_iff.2 ⟨h0, (hstates next).trans (hready h0)⟩)
  exact ⟨{ s.exited c with currentProc := some next },
    .exit h.current hnext hne ⟨fun _ => ⟨rfl, rfl, rfl⟩, rfl⟩ rfl, h.next, hstates, rfl⟩

end Stages

/-- After `kernel_main`: the idle process, and the shell running. -/
def bootStates : Fin PROCS_MAX → ProcState :=
  Function.update (Function.update (fun _ => .unused) 0 .runnable) 1 .runnable

theorem kernelMain_small : ∃ s, kernelMain smallKernel [0xEB, 0xFE] (Os.boot smallKernel fun _ => 0)
    = .ok () s ∧ Stage 0x28000 bootStates (some 1) s := by
  have hboot := separate_boot smallKernel_linked fun _ => 0
  have hstart : smallKernel.ramStart = 0x18000 := by decide +kernel
  rw [hstart] at hboot
  have h0 : Stage 0x18000 (fun _ => .unused) none (Os.boot smallKernel fun _ => 0) :=
    ⟨hboot.next, fun _ => rfl, rfl⟩
  have hwp : wp (kernelMain smallKernel [0xEB, 0xFE])
      (fun _ t => Stage 0x28000 bootStates (some 1) t) (fun _ _ => False)
      (Os.boot smallKernel fun _ => 0) := by
    unfold kernelMain
    rw [wp_bind]
    refine wp_mono (h0.create [] (by decide) (by decide) (by decide) 0 (by decide))
      (fun i s1 h1 => ?_) fun _ _ h => h
    obtain ⟨rfl, -, hs1⟩ := h1
    rw [wp_bind, wp_modify, wp_bind]
    have hidle : Stage 0x20000 (Function.update (fun _ => .unused) 0 .runnable) none
        { s1 with
          idleProc := some 0
          procs := Function.update s1.procs 0 { s1.procs 0 with pid := 0 } } := by
      refine ⟨hs1.next, fun i => ?_, hs1.current⟩
      rw [← hs1.states i]
      by_cases hi : i = 0
      · simp [hi]
      · simp [hi]
    refine wp_mono (hidle.create [0xEB, 0xFE] (by decide) (by decide) (by decide) 1 (by decide))
      (fun i s2 h2 => ?_) fun _ _ h => h
    obtain ⟨rfl, -, hs2⟩ := h2
    rw [wp_modify]
    exact ⟨hs2.next, hs2.states, rfl⟩
  obtain ⟨_, s, hs⟩ := wp_succeeds hwp
  exact ⟨s, hs, wp_ok hwp hs⟩

theorem yield_round_robin_boot : ∃ s c next, s.currentProc = some c ∧ findNext s c = some next ∧
    Selected s c next := by
  obtain ⟨s, hs, -⟩ := kernelMain_small
  have hreach : (scheduler smallKernel [0xEB, 0xFE]).Reachable s := ⟨s, [], ⟨_, hs⟩, .nil s⟩
  obtain ⟨-, ⟨c, next, h1, h2, h3, -⟩, -⟩ := yield_round_robin hreach
  exact ⟨s, c, next, h1, h2, h3⟩

/-- The shell exits, the idle process is joined by another one and exits too;
when that one exits, the idle process runs again. -/
theorem exited_idle_runs : ¬ ∀ (l : Layout) (shell : List UInt8) (s : Os),
    (scheduler l shell).Reachable s → ∀ i, (s.procs i).state = .exited →
      ∀ as t, (scheduler l shell).Run s as t → t.currentProc ≠ some i := by
  intro hall
  obtain ⟨s0, hs0, st0⟩ := kernelMain_small
  have r0 : (scheduler smallKernel [0xEB, 0xFE]).Reachable s0 := ⟨s0, [], ⟨_, hs0⟩, .nil s0⟩
  have t0 := table_reachable r0
  obtain ⟨s1, e1, st1⟩ := st0.exit t0 0 (by decide) (by decide) (by decide)
  have t1 := t0.step e1
  have hcreate := st1.create [] (by decide) (by decide) (by decide) 2 (by decide)
  obtain ⟨i, s2, e2⟩ := wp_succeeds hcreate
  obtain ⟨-, -, st2⟩ := wp_ok hcreate e2
  have t2 := t1.step (.create e2)
  obtain ⟨s3, e3, st3⟩ := st2.exit t2 2 (by decide) (by decide) (by decide)
  have t3 := t2.step e3
  obtain ⟨s4, e4, st4⟩ := st3.exit t3 0 (by decide) (by decide) (by decide)
  have r3 : (scheduler smallKernel [0xEB, 0xFE]).Reachable s3 :=
    ⟨s0, [.exit, .create [], .exit], ⟨_, hs0⟩, .cons e1 (.cons (.create e2) (.cons e3 (.nil s3)))⟩
  exact hall smallKernel [0xEB, 0xFE] s3 r3 0 (st3.states 0) [.exit] s4 (.cons e4 (.nil s4))
    st4.current

end MiniKvm.Os1k
