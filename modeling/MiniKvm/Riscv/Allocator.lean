import MiniKvm.Core.Bytes

/-!
# The bump allocator

`allocator.rs` of the RISC-V hypervisor (experimental/hypervisor/src). A panic
is `none`: a failed assertion, and in a debug build a `usize` that overflows.
`alloc_zeroed` is the one `GlobalAlloc` has by default, which zeroes what
`alloc` returns unless it is the null pointer.
-/
namespace MiniKvm.Riscv

/-! ## The source -/

/-- The memory of the hypervisor, and the fields of `Mutable`. -/
structure Machine where
  mem : Mem
  next : Nat
  heapEnd : Nat

/-- `a + b` of two `usize`. -/
def checkedAdd (a b : Nat) : Option Nat := if a + b < 2 ^ 64 then some (a + b) else none

def nextMultipleOf (a align : Nat) : Option Nat :=
  if a % align = 0 then some a else checkedAdd a (align - a % align)

def saturatingAdd (a b : Nat) : Nat := min (a + b) (2 ^ 64 - 1)

/-- mirrors experimental/hypervisor/src/allocator.rs:28-36 -/
def alloc (s : Machine) (size align : Nat) : Option (Nat × Machine) := do
  let addr ← nextMultipleOf s.next align
  if saturatingAdd addr size ≤ s.heapEnd then
    let next ← checkedAdd addr size
    some (addr, { s with next })
  else none

/-- `GlobalAlloc::alloc_zeroed`. -/
def allocZeroed (s : Machine) (size align : Nat) : Option (Nat × Machine) :=
  (alloc s size align).map fun r =>
    if r.1 = 0 then r else (r.1, { r.2 with mem := r.2.mem.fill r.1 size 0 })

/-- A length that `Layout` refuses is a panic as well.
mirrors experimental/hypervisor/src/allocator.rs:44-48 -/
def allocPages (s : Machine) (len : Nat) : Option (Nat × Machine) :=
  if len % 4096 = 0 ∧ len ≤ 2 ^ 63 - 4096 then allocZeroed s len 4096 else none

/-! ## What it returns -/

/-- `len` bytes of zeroed pages at `ptr`, cut off the front of the heap. -/
structure AllocatesPages (s : Machine) (len ptr : Nat) (s' : Machine) : Prop where
  aligned : ptr % 4096 = 0
  above : s.next ≤ ptr
  next : s'.next = ptr + len
  within : ptr + len ≤ s.heapEnd
  heapEnd : s'.heapEnd = s.heapEnd
  zeroed : ∀ x, ptr ≤ x → x < ptr + len → s'.mem x = 0
  frame : ∀ x, x < ptr ∨ ptr + len ≤ x → s'.mem x = s.mem x

theorem checkedAdd_eq_some {a b c : Nat} (h : checkedAdd a b = some c) :
    c = a + b ∧ a + b < 2 ^ 64 := by
  unfold checkedAdd at h
  split at h
  · rename_i hlt
    exact ⟨(Option.some.inj h).symm, hlt⟩
  · cases h

theorem nextMultipleOf_eq_some {a c : Nat} (h : nextMultipleOf a 4096 = some c) :
    c % 4096 = 0 ∧ a ≤ c := by
  unfold nextMultipleOf at h
  split at h
  · rename_i hmod
    rw [← Option.some.inj h]
    exact ⟨hmod, Nat.le_refl a⟩
  · obtain ⟨rfl, -⟩ := checkedAdd_eq_some h
    omega

theorem alloc_eq_some {s s' : Machine} {size ptr : Nat} (h : alloc s size 4096 = some (ptr, s')) :
    ptr % 4096 = 0 ∧ s.next ≤ ptr ∧ ptr + size ≤ s.heapEnd ∧
      s' = { s with next := ptr + size } := by
  unfold alloc at h
  obtain ⟨addr, haddr, h⟩ := Option.bind_eq_some_iff.1 h
  obtain ⟨haligned, habove⟩ := nextMultipleOf_eq_some haddr
  split at h
  · rename_i hroom
    obtain ⟨next, hnext, h⟩ := Option.bind_eq_some_iff.1 h
    obtain ⟨rfl, hlt⟩ := checkedAdd_eq_some hnext
    obtain ⟨rfl, rfl⟩ := Prod.mk.inj (Option.some.inj h)
    unfold saturatingAdd at hroom
    exact ⟨haligned, habove, by omega, rfl⟩
  · cases h

/-- Pages that are not at address zero are what they should be. -/
theorem allocPages_eq_some {s s' : Machine} {len ptr : Nat} (hnext : 0 < s.next)
    (h : allocPages s len = some (ptr, s')) : AllocatesPages s len ptr s' := by
  unfold allocPages allocZeroed at h
  split at h
  · obtain ⟨⟨ptr', t⟩, ht, h⟩ := Option.map_eq_some_iff.1 h
    obtain ⟨haligned, habove, hwithin, rfl⟩ := alloc_eq_some ht
    have hnull : ptr' ≠ 0 := by omega
    rw [if_neg hnull] at h
    obtain ⟨rfl, rfl⟩ := Prod.mk.inj h
    exact ⟨haligned, habove, rfl, hwithin, rfl, fun x h1 h2 => Mem.fill_in _ _ h1 h2,
      fun x hx => Mem.fill_out _ _ hx⟩
  · cases h

end MiniKvm.Riscv
