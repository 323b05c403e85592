import MiniKvm.Os1k.AddressSpace

/-!
# The user stack

The addresses of a user program come from user.ld: the flat image, `.bss`
behind it (which is not in the image), then two pages of stack from the next
page boundary. `start` loads `__stack_top` into the stack pointer.

`create_process` knows the size of the image only, and maps up to 0x01004000
in any case. The two agree for small programs (`user_stack_mapped_iff`).
-/
namespace MiniKvm.Os1k

open Paging

/-- `ALIGN(a)` at `x`. -/
def alignTo (a x : Nat) : Nat := (x + a - 1) / a * a

/-- What the linker is given: the sections that form the image, and the size
and the alignment of those that go to `.bss`. -/
structure UserProgram where
  image : List UInt8
  bss : Nat
  bssAlign : Nat
  aligned : 4 ≤ bssAlign

namespace UserProgram

variable (p : UserProgram)

/-- mirrors kvm-vmm-x86/os-1k/user.ld:12-13 -/
def bssStart : Nat := alignTo p.bssAlign (USER_BASE + p.image.length)

/-- `__bss_end`.
mirrors kvm-vmm-x86/os-1k/user.ld:14-17 -/
def bssEnd : Nat := p.bssStart + p.bss

/-- `__stack_bottom`.
mirrors kvm-vmm-x86/os-1k/user.ld:19-20 -/
def stackBottom : Nat := alignTo 4096 p.bssEnd

/-- `__stack_top`, the first value of `esp`.
mirrors kvm-vmm-x86/os-1k/user.ld:21-22, user.c:127-138 -/
def stackTop : Nat := p.stackBottom + 8192

end UserProgram

theorem le_alignTo {a : Nat} (ha : 0 < a) (x : Nat) : x ≤ alignTo a x := by
  have h := Nat.div_add_mod (x + a - 1) a
  have hlt := Nat.mod_lt (x + a - 1) ha
  rw [Nat.mul_comm] at h
  unfold alignTo
  omega

/-- User pages from the base on that a process can use: an address is one of
them exactly when it lies below `userBytes`. -/
theorem Created.user_iff {l : Layout} {image : List UInt8} {n : Nat} {i : Fin PROCS_MAX} {s t : Os}
    (c : Created l image n i s t) {top : Nat} :
    (∀ va, USER_BASE ≤ va → va < top →
      ∃ w, walk32 t.mem n va = some w ∧ w.User ∧ w.Writable) ↔
      top ≤ USER_BASE + userBytes image.length := by
  constructor
  · intro h
    by_contra hgt
    obtain ⟨w, hw, -⟩ := h (USER_BASE + userBytes image.length) (by omega) (by omega)
    have hlt := c.userPages_lt
    have hbytes := userPages_eq image.length
    have hnothing := c.addressSpace.nothing (USER_BASE + userBytes image.length)
    rw [KERNEL_BASE_eq] at hnothing
    simp only [USER_BASE] at hnothing hw
    rw [hnothing (by omega) (by omega) (by omega) (by omega)] at hw
    cases hw
  · intro hle va h1 h2
    have hoff : va - USER_BASE < userBytes image.length := by omega
    obtain ⟨w, hw, hu, hwr, -⟩ := c.walk_user hoff
    rw [Nat.add_sub_cancel' h1] at hw
    exact ⟨w, hw, hu, hwr⟩

/-- What the script promises fits into what is mapped exactly when image and
`.bss` end within the first two pages. -/
theorem UserProgram.stackTop_le_iff (p : UserProgram) :
    p.stackTop ≤ USER_BASE + userBytes p.image.length ↔ p.bssEnd ≤ USER_BASE + 0x2000 := by
  have hstart : USER_BASE + p.image.length ≤ p.bssStart :=
    le_alignTo (by have := p.aligned; omega) _
  have hend : p.bssEnd = p.bssStart + p.bss := rfl
  simp only [UserProgram.stackTop, UserProgram.stackBottom, alignTo, userBytes, pagesOf, PAGE_SIZE,
    USER_BASE] at *
  omega

/-- A created process has its whole stack exactly when image and `.bss`
together take at most two pages. -/
theorem user_stack_mapped_iff {l : Layout} (hl : l.Linked) (m : Mem) (images : List (List UInt8))
    {u : Unit} {s : Os} (hs : createAll l images (Os.boot l m) = .ok u s) (p : UserProgram)
    {i : Fin PROCS_MAX} {t : Os} (ht : createProcess l p.image s = .ok i t) :
    (∀ va, USER_BASE ≤ va → va < p.stackTop →
      ∃ w, walk32 t.mem (t.procs i).pageTable va = some w ∧ w.User ∧ w.Writable) ↔
      p.bssEnd ≤ USER_BASE + 0x2000 := by
  obtain ⟨n, hsep⟩ :=
    wp_ok (createAll_separate hl images _ ⟨_, separate_boot hl m⟩) hs
  have hc := wp_ok (createProcess_wp l p.image s _ hsep.next hsep.aligned hsep.bound) ht
  rw [hc.procs_self, hc.user_iff, p.stackTop_le_iff]

/-- A program that only loops. -/
def loopProgram (bss : Nat) : UserProgram := ⟨[0xEB, 0xFE], bss, 4, Nat.le_refl 4⟩

theorem user_stack_mapped_loop : ∃ t i, ∀ va, USER_BASE ≤ va → va < (loopProgram 64).stackTop →
    ∃ w, walk32 t.mem ((t : Os).procs i).pageTable va = some w ∧ w.User ∧ w.Writable := by
  obtain ⟨u, s, i, t, hs, ht, -⟩ := smallKernel_creates [0xEB, 0xFE] (by decide)
  exact ⟨t, i, (user_stack_mapped_iff smallKernel_linked _ _ hs (loopProgram 64) ht).2
    (by decide)⟩

/-- With two pages of `.bss` the first push goes to a page that is not there. -/
theorem user_stack_unmapped : ¬ ∀ (l : Layout) (m : Mem) (images : List (List UInt8)) (u : Unit)
    (s : Os) (p : UserProgram) (i : Fin PROCS_MAX) (t : Os), l.Linked →
    createAll l images (Os.boot l m) = .ok u s → createProcess l p.image s = .ok i t →
    ∀ va, USER_BASE ≤ va → va < p.stackTop →
      ∃ w, walk32 t.mem (t.procs i).pageTable va = some w ∧ w.User ∧ w.Writable := by
  intro hall
  obtain ⟨u, s, i, t, hs, ht, -⟩ := smallKernel_creates [0xEB, 0xFE] (by decide)
  obtain ⟨n, hsep⟩ := wp_ok (createAll_separate smallKernel_linked _ _
    ⟨_, separate_boot smallKernel_linked fun _ => 0⟩) hs
  have hc := wp_ok (createProcess_wp smallKernel [0xEB, 0xFE] s _ hsep.next hsep.aligned
    hsep.bound) ht
  have h := hall smallKernel _ _ u s (loopProgram 0x2000) i t smallKernel_linked hs ht
  rw [hc.procs_self] at h
  exact absurd (hc.user_iff.1 h) (by decide)

end MiniKvm.Os1k
