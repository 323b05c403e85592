import MiniKvm.Core.Prog
import MiniKvm.Machine.Paging

/-!
# The 1K OS kernel: pages and page tables

`os-1k/kernel.c` over the physical memory of its machine. The kernel runs in
the high half: an access to `0x80000000 + x` goes to byte `x`, by the tables
the VMM has loaded, and the first 4 MiB are mapped one to one. A pointer is
its virtual address. `PANIC` never returns; here it is the error of the
program.

`process` scalars are records; the kernel stacks are memory, at the addresses
the linker gives `procs`.
-/
namespace MiniKvm.Os1k

open Paging

def PAGE_SIZE : Nat := 4096
def PROCS_MAX : Nat := 8
instance : NeZero PROCS_MAX := ⟨by decide⟩
def PAGE_P : Nat := 1 <<< 0
def PAGE_RW : Nat := 1 <<< 1
def PAGE_U : Nat := 1 <<< 2
def USER_BASE : Nat := 0x01000000
/-- Where the user pages end, stack included. -/
def USER_STACK_TOP : Nat := 0x01004000
-- irreducible: comparing addresses must not count up to it
@[irreducible] def KERNEL_BASE : Nat := 0x80000000
def FREE_RAM_END : Nat := 0x803FF000

theorem KERNEL_BASE_eq : KERNEL_BASE = 0x80000000 := by rw [KERNEL_BASE]

inductive ProcState where
  | unused
  | runnable
  | exited
  deriving DecidableEq, Repr

structure Process where
  pid : Nat := 0
  state : ProcState := .unused
  sp : Nat := 0
  pageTable : Nat := 0
  deriving DecidableEq, Repr

/-- `sizeof(struct process)`, the offset of its stack, and the stack's size. -/
def PROC_SIZE : Nat := 8208
def STACK_OFF : Nat := 16
def STACK_SIZE : Nat := 8192

/-- Addresses the linker provides. -/
structure Layout where
  procs : Nat
  userEntry : Nat
  freeRam : Nat

structure Os where
  mem : Mem
  nextPaddr : Nat
  procs : Fin PROCS_MAX → Process
  currentProc : Option (Fin PROCS_MAX)
  idleProc : Option (Fin PROCS_MAX)
  /-- Not in the source: what `alloc_pages` was asked for and has returned. -/
  allocated : List (Nat × Nat)

/-- After `memset(__bss, 0, …)`; `m` is the rest of memory. -/
def Os.boot (l : Layout) (m : Mem) : Os :=
  { mem := m, nextPaddr := l.freeRam, procs := fun _ => {}, currentProc := none, idleProc := none,
    allocated := [] }

/-- The byte of physical memory behind a kernel address. -/
def phys (v : Nat) : Nat := if KERNEL_BASE ≤ v then v - KERNEL_BASE else v

def load32 (m : Mem) (v : Nat) : Nat := m.load 4 (phys v)

def store32 (m : Mem) (v x : Nat) : Mem := m.store 4 (phys v) x

@[irreducible] def panicUnless (p : Prop) [Decidable p] : EStateM Unit Os Unit :=
  if p then pure () else throw ()

def updMem (f : Mem → Mem) : EStateM Unit Os Unit := modify fun s => { s with mem := f s.mem }

/-- mirrors kvm-vmm-x86/os-1k/kernel.c:30-40 -/
def allocPages (n : Nat) : EStateM Unit Os Nat := do
  let s ← get
  let vaddr := s.nextPaddr
  let next := (vaddr + n * PAGE_SIZE) % 2 ^ 32
  panicUnless (next ≤ FREE_RAM_END)
  set { s with nextPaddr := next, mem := s.mem.fill (phys vaddr) (n * PAGE_SIZE % 2 ^ 32) 0,
               allocated := s.allocated ++ [(vaddr, n)] }
  pure vaddr

/-- mirrors kvm-vmm-x86/os-1k/kernel.c:51-77 -/
def mapPage (pageTable vaddr paddr flags : Nat) : EStateM Unit Os Unit := do
  panicUnless (vaddr &&& (PAGE_SIZE - 1) = 0)
  panicUnless (paddr &&& (PAGE_SIZE - 1) = 0)
  let pdIndex := (vaddr >>> 22) &&& 0x3FF
  let s ← get
  if load32 s.mem (pageTable + 4 * pdIndex) &&& PAGE_P = 0 then do
    let ptVaddr ← allocPages 1
    let ptPaddr := ptVaddr - KERNEL_BASE
    updMem fun m =>
      store32 m (pageTable + 4 * pdIndex)
      ((ptPaddr &&& 0xFFFFF000) ||| PAGE_P ||| PAGE_RW ||| PAGE_U)
  let ptIndex := (vaddr >>> 12) &&& 0x3FF
  updMem fun m =>
    let pt := (load32 m (pageTable + 4 * pdIndex) &&& 0xFFFFF000) + KERNEL_BASE
    store32 m (pt + 4 * ptIndex) ((paddr &&& 0xFFFFF000) ||| flags ||| PAGE_P)

section Steps

variable {Q : Unit → Os → Prop} {E : Unit → Os → Prop} {s : Os}

@[simp] theorem wp_panicUnless (p : Prop) [Decidable p] :
    wp (panicUnless p) Q E s ↔ (p → Q () s) ∧ (¬ p → E () s) := by
  unfold panicUnless
  rw [wp_ite, wp_pure, wp_throw]

@[simp] theorem wp_updMem (f : Mem → Mem) : wp (updMem f) Q E s ↔ Q () { s with mem := f s.mem } :=
  ⟨id, id⟩

end Steps

/-! ## Arithmetic of addresses and entries -/

theorem phys_add (x : Nat) : phys (x + KERNEL_BASE) = x := by
  unfold phys
  rw [if_pos (Nat.le_add_left _ _), Nat.add_sub_cancel]

theorem phys_add_off (x i : Nat) : phys (x + KERNEL_BASE + i) = x + i := by
  rw [Nat.add_right_comm, phys_add]

theorem mask_frame {e : Nat} (he : e < 2 ^ 32) : e &&& 0xFFFFF000 = frame32 e :=
  and_high_mask (k := 12) (n := 20) he

theorem and_page_mask (v : Nat) : v &&& (PAGE_SIZE - 1) = v % 4096 :=
  Nat.and_two_pow_sub_one_eq_mod v 12

theorem pdIndex_eq {v : Nat} (hv : v < 2 ^ 32) : (v >>> 22) &&& 0x3FF = v / 2 ^ 22 := by
  rw [Nat.shiftRight_eq_div_pow, show (0x3FF : Nat) = 2 ^ 10 - 1 from rfl,
    Nat.and_two_pow_sub_one_eq_mod]
  exact Nat.mod_eq_of_lt (by omega)

theorem ptIndex_eq (v : Nat) : (v >>> 12) &&& 0x3FF = v / 2 ^ 12 % 1024 := by
  rw [Nat.shiftRight_eq_div_pow, show (0x3FF : Nat) = 2 ^ 10 - 1 from rfl,
    Nat.and_two_pow_sub_one_eq_mod]

theorem and_present (e : Nat) : e &&& PAGE_P = 0 ↔ ¬ present e := by
  rw [show PAGE_P = 2 ^ 1 - 1 from rfl, Nat.and_two_pow_sub_one_eq_mod]
  unfold present
  omega

/-- Flags fill the low bits of a frame address. -/
theorem frame_or {p f : Nat} (hp : p % 4096 = 0) (hf : f < 4096) : p ||| f = p + f := by
  have h := or_low_bits (k := 12) (p / 4096) hf
  have hp' : p / 4096 * 2 ^ 12 = p := by omega
  rwa [hp'] at h

theorem tableEntry_eq {p : Nat} (hp : p % 4096 = 0) (hlt : p < 2 ^ 32) :
    (p &&& 0xFFFFF000) ||| PAGE_P ||| PAGE_RW ||| PAGE_U = p + 7 := by
  rw [mask_frame hlt, frame32_of_aligned hp, Nat.or_assoc, Nat.or_assoc]
  exact frame_or hp (by decide)

theorem pageEntry_eq {p f : Nat} (hp : p % 4096 = 0) (hlt : p < 2 ^ 32) (hf : f < 4096) :
    (p &&& 0xFFFFF000) ||| f ||| PAGE_P = p + (f ||| 1) := by
  rw [mask_frame hlt, frame32_of_aligned hp, Nat.or_assoc]
  exact frame_or hp (Nat.or_lt_two_pow (n := 12) hf (by decide))

/-! ## What the two functions do -/

/-- End of free RAM, in physical memory. -/
def RAM_END : Nat := 0x3FF000

/-- The state after one page was taken at `hi`. -/
def Os.afterAlloc (s : Os) (hi : Nat) : Os :=
  { s with mem := s.mem.fill hi PAGE_SIZE 0, nextPaddr := hi + 4096 + KERNEL_BASE,
           allocated := s.allocated ++ [(hi + KERNEL_BASE, 1)] }

theorem allocPage_wp (s : Os) (hi : Nat) (hnext : s.nextPaddr = hi + KERNEL_BASE)
    (hb : hi ≤ RAM_END) :
    wp (allocPages 1) (fun v t => v = hi + KERNEL_BASE ∧ hi + 4096 ≤ RAM_END ∧ t = s.afterAlloc hi)
      (fun _ _ => RAM_END < hi + 4096) s := by
  have hmod : (hi + KERNEL_BASE + 1 * PAGE_SIZE) % 2 ^ 32 = hi + 4096 + KERNEL_BASE := by
    simp only [RAM_END] at hb
    simp only [KERNEL_BASE, PAGE_SIZE]
    omega
  have hsize : 1 * PAGE_SIZE % 2 ^ 32 = PAGE_SIZE := rfl
  have hend : hi + 4096 + KERNEL_BASE ≤ FREE_RAM_END ↔ hi + 4096 ≤ RAM_END := by
    simp only [KERNEL_BASE, FREE_RAM_END, RAM_END]
    omega
  simp only [allocPages, wp_bind, wp_get, wp_panicUnless, wp_set, wp_pure, hnext, hmod, hsize,
    phys_add, hend]
  exact ⟨fun hle => ⟨trivial, hle, rfl⟩, Nat.not_le.1⟩

/-- One call of `map_page` for the directory at `d`, free memory starting at `hi`. -/
structure MapStep (d va w hi : Nat) (s t : Os) : Prop where
  mem : t.mem = mapPte s.mem hi d va w
  next : t.nextPaddr = tableEnd s.mem hi d (va / 2 ^ 22) + KERNEL_BASE
  bound : tableEnd s.mem hi d (va / 2 ^ 22) ≤ RAM_END
  allocated : t.allocated =
    s.allocated ++ if present (entry32 s.mem d (va / 2 ^ 22)) then [] else [(hi + KERNEL_BASE, 1)]
  procs : t.procs = s.procs
  currentProc : t.currentProc = s.currentProc
  idleProc : t.idleProc = s.idleProc

theorem mapPage_wp (d va pa flags hi : Nat) (s : Os) (hnext : s.nextPaddr = hi + KERNEL_BASE)
    (hb : hi ≤ RAM_END)
    (hhi : hi % 4096 = 0) (hva : va < 2 ^ 32) (hva0 : va % 4096 = 0) (hpa : pa < 2 ^ 32)
      (hpa0 : pa % 4096 = 0)
    (hf : flags < 4096) :
    wp (mapPage (d + KERNEL_BASE) va pa flags) (fun _ t => MapStep d va (pa + (flags ||| 1)) hi s t)
      (fun _ _ => RAM_END < tableEnd s.mem hi d (va / 2 ^ 22)) s := by
  have hlt : hi < 2 ^ 32 := by
    simp only [RAM_END] at hb
    omega
  have hload : ∀ (m : Mem) i, load32 m (d + KERNEL_BASE + 4 * i) = entry32 m d i := fun m i => by
    rw [load32, phys_add_off]
    rfl
  have hentry : ∀ (m : Mem) i, entry32 m d i < 2 ^ 32 := fun m i => Mem.load_lt m 4 _
  unfold mapPage
  simp only [wp_bind, wp_get, wp_panicUnless, and_page_mask, hva0, hpa0, pdIndex_eq hva, ptIndex_eq,
    hload, true_implies, not_true, false_implies, and_true]
  rw [wp_ite]
  constructor
  · intro hnp
    have hnp' := (and_present _).1 hnp
    rw [wp_bind]
    refine wp_mono (allocPage_wp s hi hnext hb)
      (fun v t h => ?_) fun _ _ h => by rwa [tableEnd, if_neg hnp']
    have hend := h.2.1
    rw [h.1, h.2.2]
    simp only [Nat.add_sub_cancel, tableEntry_eq hhi hlt, mask_frame (hentry _ _)]
    refine ⟨?_, ?_, ?_, ?_, rfl, rfl, rfl⟩
    · simp only [mapPte, withTable, if_neg hnp', addTable, store32, phys_add_off, Os.afterAlloc,
        pageEntry_eq hpa0 hpa hf]
      rfl
    · rw [tableEnd, if_neg hnp']
      rfl
    · rw [tableEnd, if_neg hnp']
      exact hend
    · rw [if_neg hnp']
      rfl
  · intro hp
    have hp' : present (entry32 s.mem d (va / 2 ^ 22)) :=
      not_not.1 fun hn => hp ((and_present _).2 hn)
    simp only [wp_updMem, mask_frame (hentry _ _)]
    refine ⟨?_, ?_, ?_, ?_, rfl, rfl, rfl⟩
    · simp only [mapPte, withTable, if_pos hp', store32, phys_add_off, pageEntry_eq hpa0 hpa hf]
    · rw [tableEnd, if_pos hp']
      exact hnext
    · rw [tableEnd, if_pos hp']
      exact hb
    · rw [if_pos hp', List.append_nil]

end MiniKvm.Os1k
