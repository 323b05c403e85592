import MiniKvm.Os1k.AddressSpace
import MiniKvm.Core.Lts

/-!
# Switching between processes

`switch_context` and `yield` (os-1k/kernel.c:274-301 and 386-414). A kernel
stack is memory: the call pushes its arguments and the return address, the
function pushes four registers, saves the stack pointer in one process, takes
that of another, and pops.

A process that has called `switch_context` before finds its own frame again,
whatever ran in between. A process that never ran finds the frame
`create_process` has built, and that frame is upside down: the entry point
lies where `ebp` is popped, and a zero where the return address is
(`switch_resumes_iff`).
-/
namespace MiniKvm.Os1k

/-! ## The source -/

structure Cpu where
  ebx : UInt32
  esi : UInt32
  edi : UInt32
  ebp : UInt32
  esp : Nat
  eip : UInt32
  deriving DecidableEq, Repr

/-- `&procs[i].sp`. -/
def spAddr (l : Layout) (i : Fin PROCS_MAX) : Nat := l.procs + PROC_SIZE * i + 8

/-- The process whose `sp` lies at `a`. -/
def slotOfSp (l : Layout) (a : Nat) : Option (Fin PROCS_MAX) :=
  (List.finRange PROCS_MAX).find? fun i => spAddr l i = a

def word (m : Mem) (v : Nat) : UInt32 := UInt32.ofNat (load32 m v)

/-- The four pops and `ret`, the stack pointer at `sp`. -/
def popFrame (m : Mem) (sp : Nat) : Cpu :=
  { ebp := word m sp, edi := word m (sp + 4), esi := word m (sp + 8), ebx := word m (sp + 12),
    esp := sp + 20,
    eip := word m (sp + 16) }

/-- mirrors kvm-vmm-x86/os-1k/kernel.c:274-301 -/
def switchContext (l : Layout) (s : Os) (c : Cpu) : Option (Os × Cpu) :=
  let p := pushWord c.ebx.toNat (s.mem, c.esp)
  let p := pushWord c.esi.toNat p
  let p := pushWord c.edi.toNat p
  let p := pushWord c.ebp.toNat p
  let m := p.1
  let esp := p.2
  (slotOfSp l (load32 m (esp + 20))).bind fun prev =>
    let procs := Function.update s.procs prev { s.procs prev with sp := esp }
    (slotOfSp l (load32 m (esp + 24))).map fun next =>
      ({ s with mem := m, procs }, popFrame m (procs next).sp)

/-- `switch_context(&prev->sp, &next->sp)`; `ret` is the address behind the call. -/
def callSwitch (l : Layout) (prev next : Fin PROCS_MAX) (ret : UInt32) (s : Os) (c : Cpu) :
    Option (Os × Cpu) :=
  let p := pushWord (spAddr l next) (s.mem, c.esp)
  let p := pushWord (spAddr l prev) p
  let p := pushWord ret.toNat p
  switchContext l { s with mem := p.1 } { c with esp := p.2 }

/-- The loop of `yield`; `none` where it finds no process and `idle_proc` is unset.
mirrors kvm-vmm-x86/os-1k/kernel.c:387-396 -/
def findNext (s : Os) (current : Fin PROCS_MAX) : Option (Fin PROCS_MAX) :=
  let slot := fun k => Fin.ofNat PROCS_MAX ((s.procs current).pid + k)
  match (List.range PROCS_MAX).find? fun k =>
      (s.procs (slot k)).state = .runnable ∧ (s.procs (slot k)).pid > 0 with
  | some k => some (slot k)
  | none => s.idleProc

/-! ## Runs -/

/-- What a process pushes when it calls `switch_context`. -/
structure Frame where
  ebx : UInt32
  esi : UInt32
  edi : UInt32
  ebp : UInt32
  ret : UInt32
  deriving DecidableEq, Repr

/-- The machine, and of each process the frame it pushed last. -/
structure Sys where
  os : Os
  cpu : Cpu
  cr3 : Nat
  /-- Not in the source. -/
  saved : Fin PROCS_MAX → Option Frame

inductive Act where
  | create (image : List UInt8)
  | idle (i : Fin PROCS_MAX)
  | start (i : Fin PROCS_MAX)
  | work
  | exit
  | yield (ret : UInt32)
  | switch (next : Fin PROCS_MAX) (ret : UInt32)

/-- `x` is a byte of the stack of process `i`. -/
def InStack (l : Layout) (i : Fin PROCS_MAX) (x : Nat) : Prop :=
  stackTop l i ≤ x + KERNEL_BASE + STACK_SIZE ∧ x + KERNEL_BASE < stackTop l i

/-- The stack pointer is in the stack of `i`, with room for what a switch pushes. -/
def Room (l : Layout) (i : Fin PROCS_MAX) (esp : Nat) : Prop :=
  stackTop l i + 28 ≤ esp + STACK_SIZE ∧ esp ≤ stackTop l i

/-- The frame a call of `switch_context` pushes. -/
def pushedFrame (c : Cpu) (ret : UInt32) : Frame := ⟨c.ebx, c.esi, c.edi, c.ebp, ret⟩

/-- The process `a` switches to, if it switches. -/
def target (s : Sys) : Act → Option (Fin PROCS_MAX)
  | .yield _ => (s.os.currentProc.bind (findNext s.os)).filter fun next =>
      s.os.currentProc ≠ some next
  | .switch next _ => some next
  | _ => none

/-- The state after a switch from `c` to `next`. -/
def Sys.switched (l : Layout) (s : Sys) (c next : Fin PROCS_MAX) (ret : UInt32) : Option Sys :=
  let os := { s.os with currentProc := some next }
  (callSwitch l c next ret os s.cpu).map fun p =>
    { os := p.1, cpu := p.2, cr3 := (s.os.procs next).pageTable,
      saved := Function.update s.saved c (some (pushedFrame s.cpu ret)) }

/-- What may happen next. The running process computes (`work`) as it likes,
but in the stack of no other process, and switches on its own; the first
process is started by a jump, not by a switch. -/
inductive Step (l : Layout) : Sys → Act → Sys → Prop
  | create {s image i os} : createProcess l image s.os = .ok i os →
      Step l s (.create image) { s with os }
  | idle {s i} : (s.os.procs i).state ≠ .unused → Step l s (.idle i)
      { s with os := { s.os with
          idleProc := some i
          procs := Function.update s.os.procs i { s.os.procs i with pid := 0 } } }
  | start {s i} : s.os.currentProc = none → (s.os.procs i).state ≠ .unused → Step l s (.start i)
      { s with os := { s.os with currentProc := some i }, cr3 := (s.os.procs i).pageTable,
               cpu := { s.cpu with esp := (s.os.procs i).sp, eip := UInt32.ofNat l.userEntry } }
  | work {s c mem cpu} : s.os.currentProc = some c →
      (∀ j ≠ c, ∀ x, InStack l j x → mem x = s.os.mem x) →
      Step l s .work { s with os := { s.os with mem }, cpu }
  | exit {s c} : s.os.currentProc = some c → Step l s .exit
      { s with os :=
        { s.os with procs := Function.update s.os.procs c { s.os.procs c with state := .exited } } }
  | yieldBack {s c ret} : s.os.currentProc = some c → findNext s.os c = some c →
      Step l s (.yield ret) s
  | yield {s c next ret t} : s.os.currentProc = some c → findNext s.os c = some next → next ≠ c →
      Room l c s.cpu.esp → s.switched l c next ret = some t → Step l s (.yield ret) t
  | switch {s c next ret t} : s.os.currentProc = some c →
      (s.os.procs next).state ≠ .unused → Room l c s.cpu.esp →
      s.switched l c next ret = some t → Step l s (.switch next ret) t

/-- The system, from a memory and registers that may hold anything. -/
def sched (l : Layout) : LTS Sys Act where
  init s := ∃ m cpu cr3, s = ⟨Os.boot l m, cpu, cr3, fun _ => none⟩
  step := Step l

/-- The registers and the control flow a switch to `next` leaves: the frame
`next` pushed last, or a first run. -/
def Resumed (l : Layout) (t : Sys) (next : Fin PROCS_MAX) : Prop :=
  match t.saved next with
  | some f => t.cpu.ebx = f.ebx ∧ t.cpu.esi = f.esi ∧ t.cpu.edi = f.edi ∧ t.cpu.ebp = f.ebp ∧
      t.cpu.eip = f.ret
  | none => t.cpu.ebx = 0 ∧ t.cpu.esi = 0 ∧ t.cpu.edi = 0 ∧ t.cpu.ebp = 0 ∧
      t.cpu.eip = UInt32.ofNat l.userEntry

/-- Every switch resumes its process as it should. -/
def Resumes (l : Layout) (s : Sys) (a : Act) (t : Sys) : Prop :=
  ∀ next, target s a = some next → Resumed l t next

/-- Every switch is to a process that is running or has called `switch_context` before. -/
def NotFresh (s : Sys) (a : Act) (_ : Sys) : Prop :=
  ∀ next, target s a = some next → s.os.currentProc = some next ∨ (s.saved next).isSome

/-! ## Frames -/

/-- The registers a frame at `sp` pops to. -/
def Frame.popped (f : Frame) (sp : Nat) : Cpu :=
  { ebx := f.ebx, esi := f.esi, edi := f.edi, ebp := f.ebp, esp := sp + 20, eip := f.ret }

/-- What `create_process` has pushed, read by the pops of `switch_context`. -/
def initialFrame (l : Layout) : Frame := ⟨0, 0, 0, UInt32.ofNat l.userEntry, 0⟩

theorem popFrame_congr {m m' : Mem} {sp : Nat} (hsp : KERNEL_BASE ≤ sp)
    (h : ∀ x, sp ≤ x + KERNEL_BASE → x + KERNEL_BASE < sp + 20 → m' x = m x) :
    popFrame m' sp = popFrame m sp := by
  have hword : ∀ k ≤ 16, word m' (sp + k) = word m (sp + k) := fun k hk => by
    unfold word
    rw [load32_congr (by omega) fun x h1 h2 => h x (by omega) (by omega)]
  unfold popFrame
  rw [hword 4 (by omega), hword 8 (by omega), hword 12 (by omega), hword 16 (by omega)]
  have h0 := hword 0 (by omega)
  rw [Nat.add_zero] at h0
  rw [h0]

/-- The words of a frame as they are pushed. -/
def Frame.words (f : Frame) : List Nat :=
  [f.ret.toNat, f.ebx.toNat, f.esi.toNat, f.edi.toNat, f.ebp.toNat]

/-- Pops undo pushes, last in first out. -/
theorem popFrame_pushWords {m : Mem} {esp : Nat} (f : Frame) (ws : List Nat)
    (hesp : KERNEL_BASE + 4 * (ws.length + 5) ≤ esp) :
    popFrame (pushWords (ws ++ f.words) (m, esp)).1 (esp - 4 * (ws.length + 5)) =
      f.popped (esp - 4 * (ws.length + 5)) := by
  have hlen : (ws ++ f.words).length = ws.length + 5 := by simp [Frame.words]
  have hword : ∀ (k : Nat) (r : UInt32), k < 5 → f.words[k]? = some r.toNat →
      word (pushWords (ws ++ f.words) (m, esp)).1 (esp - 4 * (ws.length + 5) + 4 * (4 - k)) = r :=
        fun k r hk hr => by
    have hi : ws.length + k < (ws ++ f.words).length := by omega
    have h := load32_pushWords (ws ++ f.words) (m, esp) (by rw [hlen]; exact hesp) hi
    have haddr : esp - 4 * (ws.length + 5) + 4 * (4 - k) = esp - 4 * (ws.length + k + 1) := by omega
    have hget : (ws ++ f.words)[ws.length + k] = r.toNat := by
      have hget? : (ws ++ f.words)[ws.length + k]? = some r.toNat := by
        rw [List.getElem?_append_right (Nat.le_add_right _ _), Nat.add_sub_cancel_left, hr]
      rw [List.getElem?_eq_getElem hi] at hget?
      exact Option.some_inj.1 hget?
    rw [word, haddr, h, hget, Nat.mod_eq_of_lt r.toNat_lt, UInt32.ofNat_toNat]
  have hebp := hword 4 f.ebp (by omega) rfl
  rw [show 4 * (4 - 4) = 0 from rfl, Nat.add_zero] at hebp
  unfold popFrame Frame.popped
  rw [hebp, hword 3 f.edi (by omega) rfl, hword 2 f.esi (by omega) rfl,
    hword 1 f.ebx (by omega) rfl, hword 0 f.ret (by omega) rfl]

/-! ## One call of `switch_context` -/

/-- `user_entry` is a function of the kernel. -/
structure Layout.Entered (l : Layout) : Prop extends l.Linked where
  entry_lo : KERNEL_BASE + 0x1000 ≤ l.userEntry
  entry_hi : l.userEntry < l.freeRam

/-- The stack of slot `i` lies in the kernel, above the record. -/
theorem stack_bounds {l : Layout} (hl : l.Linked) (i : Fin PROCS_MAX) :
    0x80003000 ≤ stackTop l i ∧ stackTop l i ≤ l.freeRam ∧ l.freeRam < 2 ^ 32 := by
  have h := hl.stackTop i
  have hb := hl.below
  simp only [FREE_RAM_END] at hb
  simp only [PROC_SIZE, KERNEL_BASE_eq] at h
  omega

theorem spAddr_lt {l : Layout} (hl : l.Linked) (i : Fin PROCS_MAX) : spAddr l i < 2 ^ 32 := by
  have h := stack_bounds hl i
  simp only [stackTop, STACK_OFF, STACK_SIZE] at h
  unfold spAddr
  omega

/-- Different processes, different stacks. -/
theorem stack_apart (l : Layout) {i j : Fin PROCS_MAX} (h : i ≠ j) :
    stackTop l i + STACK_SIZE ≤ stackTop l j ∨ stackTop l j + STACK_SIZE ≤ stackTop l i := by
  have hne : i.val ≠ j.val := fun he => h (Fin.ext he)
  simp only [stackTop, PROC_SIZE, STACK_OFF, STACK_SIZE]
  omega

theorem slotOfSp_spAddr (l : Layout) (i : Fin PROCS_MAX) : slotOfSp l (spAddr l i) = some i := by
  have hself : decide (spAddr l i = spAddr l i) = true := decide_eq_true rfl
  unfold slotOfSp
  cases h : (List.finRange PROCS_MAX).find? fun j => spAddr l j = spAddr l i with
  | none => exact absurd hself (List.find?_eq_none.1 h i (List.mem_finRange i))
  | some j =>
    have hj : spAddr l j = spAddr l i := by simpa using List.find?_some h
    simp only [spAddr, PROC_SIZE] at hj
    exact congrArg some (Fin.ext (by omega))

/-- The words a call of `switch_context` pushes. -/
def callWords (l : Layout) (prev next : Fin PROCS_MAX) (ret : UInt32) (c : Cpu) : List Nat :=
  [spAddr l next, spAddr l prev] ++ (pushedFrame c ret).words

theorem switchContext_eq {l : Layout} {s : Os} {c : Cpu} {m : Mem} {prev next : Fin PROCS_MAX}
    {esp : Nat}
    (hpush : pushWords [c.ebx.toNat, c.esi.toNat, c.edi.toNat, c.ebp.toNat] (s.mem, c.esp) =
      (m, esp))
    (hprev : load32 m (esp + 20) = spAddr l prev) (hnext : load32 m (esp + 24) = spAddr l next) :
    switchContext l s c =
      let procs := Function.update s.procs prev { s.procs prev with sp := esp }
      some ({ s with mem := m, procs }, popFrame m (procs next).sp) := by
  have hp :
      pushWord c.ebp.toNat (pushWord c.edi.toNat (pushWord c.esi.toNat
        (pushWord c.ebx.toNat (s.mem, c.esp)))) =
      (m, esp) := hpush
  unfold switchContext
  simp only [hp, hprev, hnext, slotOfSp_spAddr, Option.bind_some, Option.map_some]

/-- It saves the frame of `prev` on the stack it is called on, and pops that of `next`. -/
theorem callSwitch_eq {l : Layout} (hl : l.Linked) (prev next : Fin PROCS_MAX) (ret : UInt32)
    (s : Os) {c : Cpu} (hroom : Room l prev c.esp) :
    callSwitch l prev next ret s c =
      let mem := (pushWords (callWords l prev next ret c) (s.mem, c.esp)).1
      let procs := Function.update s.procs prev { s.procs prev with sp := c.esp - 28 }
      some ({ s with mem, procs }, popFrame mem (procs next).sp) := by
  obtain ⟨hlo, hhi, h32⟩ := stack_bounds hl prev
  obtain ⟨hr1, hr2⟩ := hroom
  have hlen : (callWords l prev next ret c).length = 7 := rfl
  have hbound : KERNEL_BASE + 4 * 7 ≤ c.esp := by
    simp only [STACK_SIZE] at hr1
    rw [KERNEL_BASE_eq]
    omega
  have hload := fun k hk => load32_pushWords (callWords l prev next ret c) (s.mem, c.esp)
    (by rw [hlen]; exact hbound) (i := k) hk
  have hnext : load32 (pushWords (callWords l prev next ret c) (s.mem, c.esp)).1 (c.esp - 28 + 24) =
      spAddr l next := by
    rw [show c.esp - 28 + 24 = c.esp - 4 * (0 + 1) by omega]
    exact (hload 0 (by rw [hlen]; decide)).trans (Nat.mod_eq_of_lt (spAddr_lt hl next))
  have hprev : load32 (pushWords (callWords l prev next ret c) (s.mem, c.esp)).1 (c.esp - 28 + 20) =
      spAddr l prev := by
    rw [show c.esp - 28 + 20 = c.esp - 4 * (1 + 1) by omega]
    exact (hload 1 (by rw [hlen]; decide)).trans (Nat.mod_eq_of_lt (spAddr_lt hl prev))
  have hsnd := pushWords_snd (callWords l prev next ret c) (s.mem, c.esp)
  rw [hlen] at hsnd
  exact switchContext_eq (Prod.ext rfl hsnd) hprev hnext

/-! ## Suspended processes -/

/-- Where the saved stack pointer of `j` points, in its own stack, there is `f`. -/
structure Suspended (l : Layout) (os : Os) (j : Fin PROCS_MAX) (f : Frame) : Prop where
  lo : stackTop l j ≤ (os.procs j).sp + STACK_SIZE
  hi : (os.procs j).sp + 20 ≤ stackTop l j
  popped : popFrame os.mem (os.procs j).sp = f.popped (os.procs j).sp

/-- What does not write to its stack leaves a process suspended. -/
theorem Suspended.keep {l : Layout} {os os' : Os} {j : Fin PROCS_MAX} {f : Frame}
    (h : Suspended l os j f)
    (hl : l.Linked) (hsp : (os'.procs j).sp = (os.procs j).sp)
    (hm : ∀ x, InStack l j x → os'.mem x = os.mem x) : Suspended l os' j f := by
  have hlo := h.lo
  have hhi := h.hi
  have hb := stack_bounds hl j
  have hkb := KERNEL_BASE_eq
  have hss : STACK_SIZE = 8192 := rfl
  refine ⟨hsp ▸ hlo, hsp ▸ hhi, ?_⟩
  rw [hsp, ← h.popped]
  exact popFrame_congr (by omega) fun x h1 h2 => hm x ⟨by omega, by omega⟩

/-- What `j` resumes with. -/
def resumeFrame (l : Layout) (s : Sys) (j : Fin PROCS_MAX) : Frame :=
  (s.saved j).getD (initialFrame l)

/-- The running process apart, every process is suspended with the frame it
pushed last, or the one `create_process` has built. -/
structure Sched (l : Layout) (s : Sys) : Prop where
  heap : ∃ n, s.os.nextPaddr = n + KERNEL_BASE ∧ l.ramStart ≤ n ∧ n % 4096 = 0 ∧ n ≤ RAM_END
  used : ∀ j, (s.saved j).isSome ∨ s.os.currentProc = some j → (s.os.procs j).state ≠ .unused
  idle : ∀ j, s.os.idleProc = some j → (s.os.procs j).state ≠ .unused
  frame : ∀ j, (s.os.procs j).state ≠ .unused → s.os.currentProc ≠ some j →
    Suspended l s.os j (resumeFrame l s j)

section Steps

variable {l : Layout} {s t : Sys}

theorem sched_init (hl : l.Linked) (h : (sched l).init s) : Sched l s := by
  obtain ⟨m, cpu, cr3, rfl⟩ := h
  have hsep := separate_boot hl m
  refine ⟨⟨_, hsep.next, hsep.start_le, hsep.aligned, hsep.bound⟩, fun j hj => ?_, fun j hj => ?_,
    fun j hj => absurd rfl hj⟩
  · rcases hj with hj | hj <;> exact absurd hj (by simp [Os.boot])
  · exact absurd hj (by simp [Os.boot])

/-- The slot `create_process` takes is unused. -/
theorem findUnused_some {procs : Fin PROCS_MAX → Process} {i : Fin PROCS_MAX}
    (h : findUnused procs = some i) :
    (procs i).state = .unused := by simpa using List.find?_some h

/-- The new process is suspended with the initial frame. -/
theorem Created.suspended {image : List UInt8} {n : Nat} {i : Fin PROCS_MAX} {os os' : Os}
    (c : Created l image n i os os') (hl : l.Entered) (hn : l.ramStart ≤ n) :
    Suspended l os' i (initialFrame l) := by
  have hb := stack_bounds hl.toLinked i
  have hram := hl.freeRam_eq
  have hentry := hl.entry_hi
  have hkb := KERNEL_BASE_eq
  have hss : STACK_SIZE = 8192 := rfl
  have hwords : (initialFrame l).words = [0, 0, 0, 0, l.userEntry] := by
    simp only [Frame.words, initialFrame, UInt32.toNat_zero, UInt32.toNat_ofNat',
      Nat.mod_eq_of_lt (show l.userEntry < 2 ^ 32 by omega)]
  have hpush : pushInitialFrame l i os.mem = pushWords ([] ++ (initialFrame l).words) (os.mem,
      stackTop l i) := by
    rw [List.nil_append, hwords, pushInitialFrame_eq]
  have hsp : (os'.procs i).sp = stackTop l i - 20 := by
    rw [c.procs, Function.update_self]
    show (pushInitialFrame l i os.mem).2 = _
    rw [pushInitialFrame_eq, pushWords_snd]
    rfl
  have hmem : ∀ x < n, os'.mem x = (pushInitialFrame l i os.mem).1 x := c.space.low
  refine ⟨by omega, by omega, ?_⟩
  rw [hsp, popFrame_congr (m := (pushInitialFrame l i os.mem).1) (by omega) fun x h1 h2 =>
    hmem x (by omega), hpush]
  exact popFrame_pushWords (initialFrame l) [] (by simp only [List.length_nil]; omega)

theorem Sched.create (h : Sched l s) (hl : l.Entered) {image : List UInt8} {i : Fin PROCS_MAX}
    {os : Os} (hos : createProcess l image s.os = .ok i os) : Sched l { s with os } := by
  obtain ⟨n, hnext, hn, hal, hb⟩ := h.heap
  have c := wp_ok (createProcess_wp l image s.os n hnext hal hb) hos
  have hun := findUnused_some c.slot
  have hcur : os.currentProc = s.os.currentProc := c.space.currentProc
  have hidle : os.idleProc = s.os.idleProc := c.space.idleProc
  have hfree : ∀ j, (s.os.procs j).state ≠ .unused → (os.procs j).state ≠ .unused ∧ j ≠ i :=
      fun j hj => by
    have hji : j ≠ i := fun he => hj (he ▸ hun)
    rw [c.procs_other hji]
    exact ⟨hj, hji⟩
  refine ⟨⟨_, c.space.next, ?_, c.space.aligned, c.space.bound⟩,
    fun j hj => (hfree j (h.used j ?_)).1,
    fun j hj => (hfree j (h.idle j (hidle ▸ hj))).1, fun j hj hne => ?_⟩
  · have := userPage_mono n (Nat.zero_le (userPages image.length))
    rw [userPage, if_pos rfl] at this
    omega
  · exact hcur ▸ hj
  · by_cases hji : j = i
    · subst hji
      have hnone : s.saved j = none := by
        cases hs : s.saved j with
        | none => rfl
        | some f => exact absurd hun (h.used j (Or.inl (by rw [hs]; rfl)))
      rw [resumeFrame, hnone]
      exact c.suspended hl hn
    · have hj' : (s.os.procs j).state ≠ .unused := by rwa [← c.procs_other hji]
      refine (h.frame j hj' (hcur ▸ hne)).keep hl.toLinked
        (by rw [c.procs_other hji]) fun x hx => ?_
      have hsj := stack_bounds hl.toLinked j
      have hsi := stack_bounds hl.toLinked i
      have hram := hl.freeRam_eq
      have hkb := KERNEL_BASE_eq
      have hss : STACK_SIZE = 8192 := rfl
      have hap := stack_apart l hji
      obtain ⟨hx1, hx2⟩ := hx
      refine (c.space.low x (by omega)).trans ?_
      show (pushInitialFrame l i s.os.mem).1 x = _
      rw [pushInitialFrame_eq]
      exact pushWords_out _ _ (by simp only [List.length_cons, List.length_nil]; omega)
        (by simp only [List.length_cons, List.length_nil]; omega)

/-- The running process is suspended by its call, and the others stay so. -/
theorem Sched.switched (h : Sched l s) (hl : l.Linked) {c next : Fin PROCS_MAX} {ret : UInt32}
    (hcur : s.os.currentProc = some c) (hnext : (s.os.procs next).state ≠ .unused)
      (hroom : Room l c s.cpu.esp)
    (ht : s.switched l c next ret = some t) :
    Sched l t ∧ t.cpu = (resumeFrame l t next).popped (t.os.procs next).sp ∧
      t.saved = Function.update s.saved c (some (pushedFrame s.cpu ret)) := by
  have hused := h.used c (Or.inr hcur)
  have hb := stack_bounds hl c
  have hkb := KERNEL_BASE_eq
  have hss : STACK_SIZE = 8192 := rfl
  have hlen : (callWords l c next ret s.cpu).length = 7 := rfl
  obtain ⟨hr1, hr2⟩ := id hroom
  rw [Sys.switched, callSwitch_eq hl c next ret _ hroom, Option.map_some] at ht
  simp only [Option.some_inj] at ht
  have hstate : ∀ j, (t.os.procs j).state = (s.os.procs j).state := fun j => by
    rw [← ht]
    by_cases hj : j = c
    · subst hj
      simp
    · simp [Function.update_of_ne hj]
  have hsaved : t.saved = Function.update s.saved c (some (pushedFrame s.cpu ret)) := by rw [← ht]
  have hself : Suspended l t.os c (pushedFrame s.cpu ret) := by
    have hsp : (t.os.procs c).sp = s.cpu.esp - 28 := by
      rw [← ht]
      simp
    refine ⟨by omega, by omega, ?_⟩
    rw [hsp, ← ht]
    exact popFrame_pushWords (pushedFrame s.cpu ret) [spAddr l next, spAddr l c]
      (by simp only [List.length_cons, List.length_nil]; omega)
  have hall : ∀ j, (s.os.procs j).state ≠ .unused → Suspended l t.os j (resumeFrame l t j) :=
      fun j hj => by
    by_cases hjc : j = c
    · subst hjc
      rw [resumeFrame, hsaved, Function.update_self]
      exact hself
    · have hcj : s.os.currentProc ≠ some j := fun he => hjc (Option.some_inj.1 (he.symm.trans hcur))
      rw [resumeFrame, hsaved, Function.update_of_ne hjc]
      refine (h.frame j hj hcj).keep hl ?_ fun x hx => ?_
      · rw [← ht]
        simp [Function.update_of_ne hjc]
      · have hap := stack_apart l hjc
        have hsj := stack_bounds hl j
        obtain ⟨hx1, hx2⟩ := hx
        rw [← ht]
        exact pushWords_out (callWords l c next ret s.cpu) (s.os.mem,
          s.cpu.esp) (by rw [hlen]; simp only; omega)
          (by rw [hlen]; simp only; omega)
  refine ⟨⟨?_, fun j hj => ?_, fun j hj => ?_, fun j hj _ => hall j (hstate j ▸ hj)⟩, ?_, hsaved⟩
  · rw [← ht]
    exact h.heap
  · rw [hstate]
    rcases hj with hj | hj
    · by_cases hjc : j = c
      · rwa [hjc]
      · rw [hsaved, Function.update_of_ne hjc] at hj
        exact h.used j (Or.inl hj)
    · rw [← ht] at hj
      rwa [← Option.some_inj.1 hj]
  · rw [hstate]
    rw [← ht] at hj
    exact h.idle j hj
  · rw [← (hall next hnext).popped, ← ht]

/-- A process that `yield` finds is used. -/
theorem Sched.findNext_used (h : Sched l s) {c next : Fin PROCS_MAX}
    (hn : findNext s.os c = some next) :
    (s.os.procs next).state ≠ .unused := by
  unfold findNext at hn
  simp only at hn
  split at hn
  · rename_i k hk
    have hrun := List.find?_some hk
    simp only [Bool.decide_and, Bool.and_eq_true, decide_eq_true_eq] at hrun
    rw [← Option.some_inj.1 hn, hrun.1]
    exact ProcState.noConfusion
  · exact h.idle next hn

/-- Steps that neither create a process nor switch. -/
theorem Sched.of_same (h : Sched l s) (hl : l.Linked) (hnext : t.os.nextPaddr = s.os.nextPaddr)
    (hsaved : t.saved = s.saved) (hsp : ∀ j, (t.os.procs j).sp = (s.os.procs j).sp)
    (hstate : ∀ j, (t.os.procs j).state ≠ .unused ↔ (s.os.procs j).state ≠ .unused)
    (hcur : ∀ j, t.os.currentProc = some j → (s.os.procs j).state ≠ .unused)
    (hidle : ∀ j, t.os.idleProc = some j → (s.os.procs j).state ≠ .unused)
    (hframe : ∀ j, t.os.currentProc ≠ some j → s.os.currentProc ≠ some j ∧
      ∀ x, InStack l j x → t.os.mem x = s.os.mem x) : Sched l t := by
  refine ⟨hnext ▸ h.heap, fun j hj => ?_, fun j hj => (hstate j).2 (hidle j hj), fun j hj hne => ?_⟩
  · rw [hstate]
    rcases hj with hj | hj
    · exact h.used j (Or.inl (hsaved ▸ hj))
    · exact hcur j hj
  · obtain ⟨hne', hm⟩ := hframe j hne
    rw [resumeFrame, hsaved]
    exact (h.frame j ((hstate j).1 hj) hne').keep hl (hsp j) hm

/-- What an update keeps of the process, it keeps of all. -/
theorem update_keeps {α : Sort*} (f : Process → α) {procs : Fin PROCS_MAX → Process}
    {i : Fin PROCS_MAX} {p : Process}
    (h : f p = f (procs i)) (j : Fin PROCS_MAX) :
    f (Function.update procs i p j) = f (procs j) := by
  by_cases hj : j = i
  · subst hj
    rw [Function.update_self, h]
  · rw [Function.update_of_ne hj]

/-- Every step keeps the processes suspended. -/
theorem Sched.step (h : Sched l s) (hl : l.Entered) {a : Act} (hs : Step l s a t) : Sched l t := by
  have hsame : ∀ j, s.os.currentProc = some j → (s.os.procs j).state ≠ .unused :=
    fun j hj => h.used j (Or.inr hj)
  cases hs with
  | create hos => exact h.create hl hos
  | idle hi =>
    refine h.of_same hl.toLinked rfl rfl (update_keeps Process.sp rfl)
      (fun j => Iff.of_eq (update_keeps (fun p => p.state ≠ .unused) (by rfl) j)) hsame
      (fun j hj => Option.some_inj.1 hj ▸ hi) fun j hj => ⟨hj, fun _ _ => rfl⟩
  | start hnone hi =>
    refine h.of_same hl.toLinked rfl rfl
      (fun _ => rfl) (fun _ => Iff.rfl) (fun j hj => Option.some_inj.1 hj ▸ hi)
      h.idle fun j _ => ⟨?_, fun _ _ => rfl⟩
    rw [hnone]
    exact Option.some_ne_none j ∘ Eq.symm
  | work hcur hmem =>
    exact h.of_same hl.toLinked rfl rfl (fun _ => rfl) (fun _ => Iff.rfl) hsame h.idle
      fun j hj => ⟨hj, hmem j fun he => hj (he ▸ hcur)⟩
  | exit hcur =>
    refine h.of_same hl.toLinked rfl rfl (update_keeps Process.sp rfl) (fun j => ?_) hsame h.idle
      fun j hj => ⟨hj, fun _ _ => rfl⟩
    refine Iff.of_eq (update_keeps (fun p => p.state ≠ .unused) (propext
      ⟨fun _ => hsame _ hcur, fun _ => ?_⟩) j)
    exact ProcState.noConfusion
  | yieldBack => exact h
  | yield hcur hn hne hroom ht =>
    exact (h.switched hl.toLinked hcur (h.findNext_used hn) hroom ht).1
  | switch hcur hn hroom ht => exact (h.switched hl.toLinked hcur hn hroom ht).1

/-- After a switch: as it should be, unless the process never ran. -/
theorem Sched.resumed_iff (h : Sched l s) (hl : l.Entered) {c next : Fin PROCS_MAX} {ret : UInt32}
    (hcur : s.os.currentProc = some c) (hnext : (s.os.procs next).state ≠ .unused)
    (hroom : Room l c s.cpu.esp) (ht : s.switched l c next ret = some t) :
    Resumed l t next ↔ s.os.currentProc = some next ∨ (s.saved next).isSome := by
  obtain ⟨-, hcpu, hsaved⟩ := h.switched hl.toLinked hcur hnext hroom ht
  have hkey : (t.saved next).isSome ↔ s.os.currentProc = some next ∨ (s.saved next).isSome := by
    rw [hsaved, hcur, Option.some_inj]
    by_cases hn : next = c
    · subst hn
      simp
    · have hcn : c ≠ next := fun he => hn he.symm
      simp [Function.update_of_ne hn, hcn]
  rw [← hkey]
  unfold Resumed
  cases hs : t.saved next with
  | some f =>
    rw [hcpu, resumeFrame, hs]
    simp [Frame.popped]
  | none =>
    -- the return address popped is the zero pushed first
    have hlo := hl.entry_lo
    have hhi := hl.entry_hi
    have hb := stack_bounds hl.toLinked c
    have hne : UInt32.ofNat l.userEntry ≠ 0 := fun he => by
      have hz := congrArg UInt32.toNat he
      rw [UInt32.toNat_ofNat', UInt32.toNat_zero, Nat.mod_eq_of_lt (by omega)] at hz
      omega
    rw [hcpu, resumeFrame, hs]
    simp [Frame.popped, initialFrame, hne]

end Steps

/-! ## Two processes -/

theorem smallKernel_entered : smallKernel.Entered :=
  ⟨smallKernel_linked, by decide +kernel, by decide +kernel⟩

/-- Two processes were created and one of them, `i`, is running. -/
structure Started (s0 s1 s2 s3 : Sys) (i j : Fin PROCS_MAX) : Prop where
  init : (sched smallKernel).init s0
  path : (sched smallKernel).Path s0 [(.create [], s1), (.create [], s2), (.start i, s3)]
  inv : Sched smallKernel s3
  cur : s3.os.currentProc = some i
  room : Room smallKernel i s3.cpu.esp
  used : (s3.os.procs i).state ≠ .unused ∧ (s3.os.procs j).state ≠ .unused
  fresh : i ≠ j ∧ s3.saved j = none

theorem started : ∃ s0 s1 s2 s3 i j, Started s0 s1 s2 s3 i j := by
  obtain ⟨i, os1, j, os2, h1, h2⟩ := smallKernel_processes [] (by decide)
  let s0 : Sys := ⟨Os.boot smallKernel fun _ => 0, ⟨0, 0, 0, 0, 0, 0⟩, 0, fun _ => none⟩
  have hinit : (sched smallKernel).init s0 := ⟨_, _, _, rfl⟩
  have hs0 := sched_init smallKernel_linked hinit
  have hs1 := hs0.create smallKernel_entered h1
  have hs2 := hs1.create smallKernel_entered h2
  obtain ⟨n, hnext, -, hal, hb⟩ := hs0.heap
  have c1 := wp_ok (createProcess_wp smallKernel [] s0.os n hnext hal hb) h1
  obtain ⟨n', hnext', -, hal', hb'⟩ := hs1.heap
  have c2 := wp_ok (createProcess_wp smallKernel [] os1 n' hnext' hal' hb') h2
  have hi : (os1.procs i).state = .runnable := by rw [c1.procs, Function.update_self]
  have hj : (os2.procs j).state = .runnable := by rw [c2.procs, Function.update_self]
  have hij : i ≠ j := fun he => by
    have hun := findUnused_some c2.slot
    rw [← he, hi] at hun
    exact ProcState.noConfusion hun
  have hi2 : (os2.procs i).state ≠ .unused := by
    rw [c2.procs_other hij, hi]
    exact ProcState.noConfusion
  have hj2 : (os2.procs j).state ≠ .unused := by
    rw [hj]
    exact ProcState.noConfusion
  have hcur1 : os1.currentProc = none := c1.space.currentProc
  have hcur : os2.currentProc = none :=
    (show os2.currentProc = os1.currentProc from c2.space.currentProc).trans hcur1
  have hstart := Step.start (l := smallKernel) (s := { s0 with os := os2 }) hcur hi2
  have hframe :=
    hs2.frame i hi2 (by rw [show _ = none from hcur]; exact Option.some_ne_none i ∘ Eq.symm)
  have hlo := hframe.lo
  have hhi := hframe.hi
  have hsp : (os2.procs i).sp = stackTop smallKernel i - 20 := by
    rw [c2.procs_other hij, c1.procs, Function.update_self]
    show (pushInitialFrame _ _ _).2 = _
    rw [pushInitialFrame_eq, pushWords_snd]
    rfl
  refine ⟨s0, { s0 with os := os1 }, { s0 with os := os2 }, _, i, j, hinit,
    ⟨.create h1, .create h2, hstart, trivial⟩,
    hs2.step smallKernel_entered hstart, rfl, ⟨?_, ?_⟩, ⟨hi2, hj2⟩, hij, rfl⟩
  · show stackTop smallKernel i + 28 ≤ (os2.procs i).sp + STACK_SIZE
    have hss : STACK_SIZE = 8192 := rfl
    omega
  · show (os2.procs i).sp ≤ _
    omega

theorem Started.switch {s0 s1 s2 s3 : Sys} {i j : Fin PROCS_MAX}
    (h : Started s0 s1 s2 s3 i j) (next : Fin PROCS_MAX)
    (hnext : (s3.os.procs next).state ≠ .unused) (ret : UInt32) :
    ∃ t, s3.switched smallKernel i next ret = some t ∧
      (sched smallKernel).Path s0
        [(.create [], s1), (.create [], s2), (.start i, s3), (.switch next ret, t)] := by
  obtain ⟨t, ht⟩ : ∃ t, s3.switched smallKernel i next ret = some t := by
    rw [Sys.switched, callSwitch_eq smallKernel_linked i next ret _ h.room]
    exact ⟨_, rfl⟩
  obtain ⟨p1, p2, p3, -⟩ := h.path
  exact ⟨t, ht, p1, p2, p3, .switch h.cur hnext h.room ht, trivial⟩

/-! ## Every run -/

/-- In a run of processes that are created, work, yield, switch and exit in any
order, every switch resumes its process as it should exactly if none is to a
process that never ran. -/
theorem switch_resumes_iff {l : Layout} (hl : l.Entered) {s : Sys} (hs : (sched l).init s)
    (ps : List (Act × Sys))
    (hp : (sched l).Path s ps) : LTS.OnPath (Resumes l) s ps ↔ LTS.OnPath NotFresh s ps := by
  refine hp.onPath_iff (I := Sched l) (fun s a t h hst => h.step hl hst)
    (fun s a t h hst => ?_) (sched_init hl.toLinked hs)
  unfold Resumes NotFresh
  refine forall_congr' fun next => forall_congr' fun htarget => ?_
  cases hst with
  | create => exact absurd htarget (by simp [target])
  | idle => exact absurd htarget (by simp [target])
  | start => exact absurd htarget (by simp [target])
  | work => exact absurd htarget (by simp [target])
  | exit => exact absurd htarget (by simp [target])
  | yieldBack hcur hn => exact absurd htarget (by simp [target, hcur, hn])
  | @yield c next' _ _ hcur hn hne hroom ht =>
    have hnext : next' = next ∧ ¬ c = next := by simpa [target, hcur, hn] using htarget
    obtain ⟨rfl, -⟩ := hnext
    exact h.resumed_iff hl hcur (h.findNext_used hn) hroom ht
  | switch hcur hn hroom ht =>
    obtain rfl := Option.some_inj.1 htarget
    exact h.resumed_iff hl hcur hn hroom ht

theorem switch_resumes_self : ∃ s s1 s2 s3 t i, LTS.OnPath (Resumes smallKernel) s
    [(.create [], s1), (.create [], s2), (.start i, s3), (.switch i 0x80001100, t)] := by
  obtain ⟨s0, s1, s2, s3, i, j, h⟩ := started
  obtain ⟨t, -, hp⟩ := h.switch i h.used.1 0x80001100
  refine ⟨s0, s1, s2, s3, t, i,
    (switch_resumes_iff smallKernel_entered h.init _ hp).2 ⟨?_, ?_, ?_, ?_, trivial⟩⟩
  · exact fun next hn => absurd hn (by simp [target])
  · exact fun next hn => absurd hn (by simp [target])
  · exact fun next hn => absurd hn (by simp [target])
  · exact fun next hn => Or.inl (h.cur.trans hn)

/-- The second process is switched to before it ever ran: control goes to address 0. -/
theorem switch_resumes_fresh : ∃ s s1 s2 s3 t i j, (sched smallKernel).init s ∧
    (sched smallKernel).Path s [(.create [], s1), (.create [], s2), (.start i, s3),
      (.switch j 0x80001100, t)] ∧
    t.cpu.eip = 0 ∧ t.cpu.ebp = 0x80001000 ∧ ¬ LTS.OnPath (Resumes smallKernel) s
      [(.create [], s1), (.create [], s2), (.start i, s3), (.switch j 0x80001100, t)] := by
  obtain ⟨s0, s1, s2, s3, i, j, h⟩ := started
  obtain ⟨t, ht, hp⟩ := h.switch j h.used.2 0x80001100
  obtain ⟨-, hcpu, hsaved⟩ := h.inv.switched smallKernel_linked h.cur h.used.2 h.room ht
  have hnone :
      t.saved j = none := by rw [hsaved, Function.update_of_ne (Ne.symm h.fresh.1), h.fresh.2]
  have heip : t.cpu.eip = 0 := by
    rw [hcpu, resumeFrame, hnone]
    rfl
  have hebp : t.cpu.ebp = 0x80001000 := by
    rw [hcpu, resumeFrame, hnone]
    rfl
  refine ⟨s0, s1, s2, s3, t, i, j, h.init, hp, heip, hebp, fun hon => ?_⟩
  have hres : Resumed smallKernel t j := hon.2.2.2.1 j rfl
  unfold Resumed at hres
  rw [hnone] at hres
  have hzero : (0 : UInt32) = UInt32.ofNat smallKernel.userEntry := heip.symm.trans hres.2.2.2.2
  exact absurd hzero (by decide +kernel)

end MiniKvm.Os1k
