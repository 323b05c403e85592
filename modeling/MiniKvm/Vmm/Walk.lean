import Mathlib.Data.Nat.Bitwise
import MiniKvm.Vmm.Tables

/-!
# What the VMM's page tables translate

`Tables.lean` says which words the tables hold. Here is what the processor
makes of them, for every virtual address, and what the two walkers of the
debugging code say about them:

* `walk_page_tables_32bit` is the processor's walk wherever no directory entry
  has its PS bit set (it knows 4 MiB pages, CR4.PSE is clear);
* `verify_page_tables_64bit` is the processor's walk on tables with 2 MiB
  leaves only.

`setup_page_tables_64bit_kernel` writes four entries into the same PML4 and
PDPT: two for the identity map, then two for the kernel half. The second pair
is not in another slot for every base, see `setupPageTables64bitKernel_split_iff`.
-/
namespace MiniKvm.Vmm

open Paging

/-! ## 32-bit walker -/

/-- Where `walk_page_tables_32bit` stops, with the entries and the physical
address it prints. -/
inductive WalkReport
  | pdeNotPresent (pde : Nat)
  | page4mb (pde physAddr : Nat)
  | pteNotPresent (pde pte : Nat)
  | page4kb (pde pte physAddr : Nat)
  deriving DecidableEq, Repr

/-- Operands are 32-bit words, `~0xFFF` is `0xFFFFF000`.
mirrors kvm-vmm-x86/src/debug.c:228-279 -/
def walkPageTables32bit (mem : Mem) (cr3 virtAddr : Nat) : WalkReport :=
  let pdBase := cr3 &&& 0xFFFFF000
  let pdIndex := virtAddr >>> 22 &&& 0x3FF
  let ptIndex := virtAddr >>> 12 &&& 0x3FF
  let offset := virtAddr &&& 0xFFF
  let pde := mem.load 4 (pdBase + 4 * pdIndex)
  if pde &&& 1 = 0 then .pdeNotPresent pde
  else if pde &&& 0x80 ≠ 0 then .page4mb pde ((pde &&& 0xFFC00000) ||| (virtAddr &&& 0x3FFFFF))
  else
    let ptBase := pde &&& 0xFFFFF000
    let pte := mem.load 4 (ptBase + 4 * ptIndex)
    if pte &&& 1 = 0 then .pteNotPresent pde pte
    else .page4kb pde pte ((pte &&& 0xFFFFF000) ||| offset)

/-- The translation a report stands for. -/
def WalkReport.xlat : WalkReport → Option Xlat
  | .page4mb pde pa => some ⟨pa, [], pde⟩
  | .page4kb pde pte pa => some ⟨pa, [pde], pte⟩
  | .pdeNotPresent _ | .pteNotPresent _ _ => none

theorem and_page_mask {e : Nat} (h : e < 2 ^ 32) : e &&& 0xFFFFF000 = frame32 e :=
  and_high_mask (k := 12) (n := 20) h

theorem and_one_eq_zero (e : Nat) : e &&& 1 = 0 ↔ ¬ present e := by
  rw [show (1 : Nat) = 2 ^ 1 - 1 from rfl, Nat.and_two_pow_sub_one_eq_mod]
  unfold present
  omega

theorem and_ps_eq_zero (e : Nat) : e &&& 0x80 = 0 ↔ ¬ large e := by
  rw [show (0x80 : Nat) = 2 ^ 7 from rfl, Nat.and_two_pow, Nat.testBit_eq_decide_div_mod_eq]
  simp [large]

/-- Without PS bits, the walker's outcome is the processor's. -/
theorem walkPageTables32bit_xlat {mem : Mem} {cr3 va : Nat} (hcr3 : cr3 < 2 ^ 32)
    (hps : present (pde32 mem cr3 va) → ¬ large (pde32 mem cr3 va)) :
    (walkPageTables32bit mem cr3 va).xlat = walk32 mem cr3 va := by
  have hlt : ∀ a, mem.load 4 a < 2 ^ 32 := fun a => Mem.load_lt mem 4 a
  have hpd : mem.load 4 ((cr3 &&& 0xFFFFF000) + 4 * (va >>> 22 &&& 0x3FF)) = pde32 mem cr3 va := by
    rw [and_page_mask hcr3, Nat.shiftRight_eq_div_pow,
      Nat.and_two_pow_sub_one_eq_mod _ 10]
    rfl
  have hpt : ∀ pde, pde < 2 ^ 32 →
      mem.load 4 ((pde &&& 0xFFFFF000) + 4 * (va >>> 12 &&& 0x3FF)) = pte32 mem pde va := by
    intro pde h
    rw [and_page_mask h, Nat.shiftRight_eq_div_pow, Nat.and_two_pow_sub_one_eq_mod _ 10]
    rfl
  have hpdlt : pde32 mem cr3 va < 2 ^ 32 := hlt _
  have hpa : ∀ pte, pte < 2 ^ 32 →
      (pte &&& 0xFFFFF000) ||| (va &&& 0xFFF) = frame32 pte + va % 4096 := by
    intro pte h
    rw [and_page_mask h, Nat.and_two_pow_sub_one_eq_mod _ 12]
    exact or_low_bits (k := 12) _ (Nat.mod_lt _ (by decide))
  unfold walkPageTables32bit walk32
  simp only [hpd, hpt _ hpdlt, and_one_eq_zero, ne_eq, and_ps_eq_zero, not_not]
  by_cases p1 : present (pde32 mem cr3 va)
  · have l1 := hps p1
    by_cases p2 : present (pte32 mem (pde32 mem cr3 va) va)
    · have hptlt : pte32 mem (pde32 mem cr3 va) va < 2 ^ 32 := hlt _
      simp only [p1, p2, l1, not_true, if_false, if_true, WalkReport.xlat, hpa _ hptlt]
    · simp only [p1, p2, l1, not_true, not_false_iff, if_false, if_true, WalkReport.xlat]
  · simp only [p1, not_false_iff, if_true, if_false, WalkReport.xlat]

theorem pdWord_not_large (i : Nat) : ¬ large (pdWord i) := by
  unfold pdWord
  split
  · decide
  split <;> decide

theorem ptWord_writable (i : Nat) : writable (ptWord i) := by
  simp only [writable, ptWord]
  omega

/-- The debugging walker on the VMM's two-level tables. -/
theorem walkPageTables32bit_tables {m : Mem} (h : Tables32 m) (va : Nat) :
    (walkPageTables32bit m 0x100000 va).xlat = walk32 m 0x100000 va := by
  have hpd : pde32 m 0x100000 va = pdWord (va / 2 ^ 22 % 1024) :=
    h.pd _ (Nat.mod_lt _ (by decide))
  refine walkPageTables32bit_xlat (by decide) fun _ => ?_
  rw [hpd]
  exact pdWord_not_large _

/-- `--paging` on 4 MiB: the low 4 MiB at 0 and at 0x80000000, writable, and
nothing else; the walker agrees, and only the three pages are written. -/
theorem setupPageTables_translates (m : Mem) :
    ∃ m', setupPageTables 0x400000 m = some (m', 0x100000) ∧
      (∀ va < 2 ^ 32,
        (va < 0x400000 → ∃ x, walk32 m' 0x100000 va = some x ∧ x.pa = va ∧ x.Writable) ∧
        (0x80000000 ≤ va ∧ va < 0x80400000 →
          ∃ x, walk32 m' 0x100000 va = some x ∧ x.pa = va - 0x80000000 ∧ x.Writable) ∧
        (¬ va < 0x400000 → ¬ (0x80000000 ≤ va ∧ va < 0x80400000) →
          walk32 m' 0x100000 va = none) ∧
        (walkPageTables32bit m' 0x100000 va).xlat = walk32 m' 0x100000 va) ∧
      ∀ x, x < 0x100000 ∨ 0x103000 ≤ x → m' x = m x := by
  obtain ⟨⟨m', cr3⟩, hs⟩ : ∃ r, setupPageTables 0x400000 m = some r := ⟨_, rfl⟩
  obtain ⟨rfl, ht, hf⟩ := setupPageTables_some hs
  refine ⟨m', hs, fun va hva => ?_, hf⟩
  have hw := walk32_tables ht va hva
  refine ⟨fun hlo => ?_, fun hhi => ?_, fun hlo hhi => ?_, walkPageTables32bit_tables ht va⟩
  · rw [if_pos hlo] at hw
    exact ⟨_, hw, rfl, by simp [writable], ptWord_writable _⟩
  · rw [if_neg (by omega), if_pos hhi] at hw
    exact ⟨_, hw, rfl, by simp [writable], ptWord_writable _⟩
  · rw [if_neg hlo, if_neg hhi] at hw
    exact hw

/-! ## 64-bit verifier -/

def PTE_ADDR_MASK : Nat := 0x000FFFFFFFFFF000

def VA_PML4_INDEX (va : Nat) : Nat := va >>> 39 &&& 0x1FF
def VA_PDPT_INDEX (va : Nat) : Nat := va >>> 30 &&& 0x1FF
def VA_PD_INDEX (va : Nat) : Nat := va >>> 21 &&& 0x1FF

/-- What `verify_page_tables_64bit` says: the entry that is not present, or the
translation. -/
inductive VerifyReport
  | pml4NotPresent (pml4Idx : Nat)
  | pdptNotPresent (pdptIdx : Nat)
  | pdNotPresent (pdIdx : Nat)
  | page2mb (testVa physAddr : Nat)
  | page4kbNotImplemented
  deriving DecidableEq, Repr

/-- `~0x1FFFFF` is an `int`, sign-extended by the `&`.
mirrors kvm-vmm-x86/src/paging_64.c:116-159 -/
def verifyPageTables64bit (guestMem : Mem) (testVa : Nat) : VerifyReport :=
  let pml4Idx := VA_PML4_INDEX testVa
  let pdptIdx := VA_PDPT_INDEX testVa
  let pdIdx := VA_PD_INDEX testVa
  let offset := testVa &&& 0x1FFFFF
  let pml4e := guestMem.load 8 (GUEST_64_PML4_ADDR + 8 * pml4Idx)
  if pml4e &&& PTE_PRESENT = 0 then .pml4NotPresent pml4Idx
  else
    let pdpte := guestMem.load 8 ((pml4e &&& PTE_ADDR_MASK) + 8 * pdptIdx)
    if pdpte &&& PTE_PRESENT = 0 then .pdptNotPresent pdptIdx
    else
      let pde := guestMem.load 8 ((pdpte &&& PTE_ADDR_MASK) + 8 * pdIdx)
      if pde &&& PTE_PRESENT = 0 then .pdNotPresent pdIdx
      else if pde &&& PTE_PSE ≠ 0 then
        .page2mb testVa ((pde &&& 0xFFFFFFFFFFE00000) ||| offset)
      else .page4kbNotImplemented

/-- The physical address a report gives. -/
def VerifyReport.pa : VerifyReport → Option Nat
  | .page2mb _ pa => some pa
  | .pml4NotPresent _ | .pdptNotPresent _ | .pdNotPresent _ | .page4kbNotImplemented => none

theorem and_addr_mask {e : Nat} (h : e < 2 ^ 52) : e &&& PTE_ADDR_MASK = frame64 e := by
  rw [frame64, Nat.mod_eq_of_lt (show e / 2 ^ 12 < 2 ^ 40 by omega)]
  exact and_high_mask (k := 12) (n := 40) h

/-- On tables without 1 GiB and 4 KiB leaves, the verifier's address is the
processor's. Entries are below 2^52: the verifier would leave the bits above
(the no-execute bit is one of them) in the address. -/
theorem verifyPageTables64bit_pa {mem : Mem} {va pml4e pdpte pde : Nat}
    (h4 : entry64 mem GUEST_64_PML4_ADDR va 39 = pml4e) (h3 : entry64 mem pml4e va 30 = pdpte)
    (h2 : entry64 mem pdpte va 21 = pde) (b4 : pml4e < 2 ^ 52)
    (b3 : present pml4e → pdpte < 2 ^ 52 ∧ ¬ large pdpte)
    (b2 : present pml4e → present pdpte → pde < 2 ^ 52 ∧ (present pde → large pde)) :
    (verifyPageTables64bit mem va).pa = (walk64 mem GUEST_64_PML4_ADDR va).map Xlat.pa := by
  have hidx : ∀ sh, va >>> sh &&& 0x1FF = va / 2 ^ sh % 512 := by
    intro sh
    rw [Nat.shiftRight_eq_div_pow, Nat.and_two_pow_sub_one_eq_mod _ 9]
  have e4 : mem.load 8 (GUEST_64_PML4_ADDR + 8 * (va / 2 ^ 39 % 512)) = pml4e := h4
  have e3 : mem.load 8 (frame64 pml4e + 8 * (va / 2 ^ 30 % 512)) = pdpte := h3
  have e2 : mem.load 8 (frame64 pdpte + 8 * (va / 2 ^ 21 % 512)) = pde := h2
  unfold verifyPageTables64bit walk64
  simp only [VA_PML4_INDEX, VA_PDPT_INDEX, VA_PD_INDEX, hidx, e4, h4, and_addr_mask b4, e3, h3,
    show PTE_PRESENT = 1 from rfl, show PTE_PSE = 0x80 from rfl, and_one_eq_zero, ne_eq,
    and_ps_eq_zero, not_not]
  by_cases p4 : present pml4e
  · obtain ⟨b3, l3⟩ := b3 p4
    by_cases p3 : present pdpte
    · obtain ⟨b2, l2⟩ := b2 p4 p3
      by_cases p2 : present pde
      · have hpa : (pde &&& 0xFFFFFFFFFFE00000) ||| (va &&& 0x1FFFFF) =
            pde / 2 ^ 21 % 2 ^ 31 * 2 ^ 21 + va % 2 ^ 21 := by
          rw [Nat.and_two_pow_sub_one_eq_mod _ 21,
            Nat.mod_eq_of_lt (show pde / 2 ^ 21 < 2 ^ 31 by omega),
            show pde &&& 0xFFFFFFFFFFE00000 = pde / 2 ^ 21 * 2 ^ 21 from
              and_high_mask (k := 21) (n := 43) (by omega)]
          exact or_low_bits (k := 21) _ (Nat.mod_lt _ (by decide))
        simp only [p4, p3, and_addr_mask b3, e2, h2, p2, l3, l2 p2, hpa, not_true, if_true,
          if_false, VerifyReport.pa, Option.map_some]
      · simp only [p4, p3, and_addr_mask b3, e2, h2, p2, l3, not_true, not_false_iff, if_true,
          if_false, VerifyReport.pa, Option.map_none]
    · simp only [p4, p3, not_true, not_false_iff, if_true, if_false, VerifyReport.pa,
        Option.map_none]
  · simp only [p4, not_false_iff, if_true, if_false, VerifyReport.pa, Option.map_none]

theorem headWord_of_present {e i : Nat} (h : present (headWord e i)) : headWord e i = e := by
  unfold headWord at h ⊢
  split at h
  · rename_i h0
    exact if_pos h0
  · exact absurd h (by decide)

/-- The verifier on the VMM's identity map. -/
theorem verifyPageTables64bit_tables {n : Nat} {m : Mem} (h : Tables64 n m) (va : Nat) :
    (verifyPageTables64bit m va).pa = (walk64 m GUEST_64_PML4_ADDR va).map Xlat.pa := by
  have hmod : ∀ sh, va / 2 ^ sh % 512 < 512 := fun sh => Nat.mod_lt _ (by decide)
  have hlt : ∀ {e i}, e < 2 ^ 52 → headWord e i < 2 ^ 52 := by
    intro e i he
    unfold headWord
    split
    · exact he
    · decide
  have h4 : entry64 m GUEST_64_PML4_ADDR va 39 = headWord 0x3007 (va / 2 ^ 39 % 512) :=
    h.pml4 _ (hmod 39)
  have h3 : present (headWord 0x3007 (va / 2 ^ 39 % 512)) →
      entry64 m (headWord 0x3007 (va / 2 ^ 39 % 512)) va 30 =
        headWord 0x4007 (va / 2 ^ 30 % 512) := by
    intro p4
    rw [headWord_of_present p4]
    exact h.pdpt _ (hmod 30)
  refine verifyPageTables64bit_pa h4 rfl rfl (hlt (by decide)) (fun p4 => ?_) (fun p4 p3 => ?_)
  · rw [h3 p4]
    refine ⟨hlt (by decide), ?_⟩
    unfold headWord
    split <;> decide
  · rw [h3 p4] at p3 ⊢
    rw [headWord_of_present p3]
    have h2 : entry64 m 0x4007 va 21 = pdWord64 n (va / 2 ^ 21 % 512) := h.pd _ (hmod 21)
    have := hmod 21
    rw [h2, pdWord64]
    split
    · exact ⟨by omega, fun _ => by simp only [large]; omega⟩
    · exact ⟨by decide, fun hp => absurd hp (by decide)⟩

-- not by `rfl`: the kernel would unfold the subtraction
theorem numPages2mb_eq (memSize : Nat) :
    numPages2mb memSize = (memSize + (2 ^ 21 - 1)) / 2 ^ 21 := by
  have hpage : 2 <<< 20 = 2 ^ 21 := rfl
  rw [numPages2mb, hpage, Nat.add_sub_assoc (by decide)]

/-- `--long-mode`: exactly the 2 MiB pages that cover the memory, at most 1 GiB
of them, map to themselves, writable and open to user code. -/
theorem setupPageTables64bit_identity (memSize : Nat) (m : Mem) :
    (∀ va, Canonical va →
      ((walk64 (setupPageTables64bit memSize m) GUEST_64_PML4_ADDR va ≠ none ↔
        va < 2 ^ 47 ∧ va < min ((memSize + (2 ^ 21 - 1)) / 2 ^ 21) 512 * 2 ^ 21) ∧
      (∀ x, walk64 (setupPageTables64bit memSize m) GUEST_64_PML4_ADDR va = some x →
        x.pa = va ∧ x.Writable ∧ x.User) ∧
      (verifyPageTables64bit (setupPageTables64bit memSize m) va).pa =
        (walk64 (setupPageTables64bit memSize m) GUEST_64_PML4_ADDR va).map Xlat.pa)) ∧
    ∀ x, x < 0x2000 ∨ 0x6000 ≤ x → setupPageTables64bit memSize m x = m x := by
  obtain ⟨ht, hf, -⟩ := setupPageTables64bit_spec memSize m
  rw [numPages2mb_eq] at ht
  refine ⟨fun va hc => ?_, hf⟩
  generalize setupPageTables64bit memSize m = m' at *
  have hle : min ((memSize + (2 ^ 21 - 1)) / 2 ^ 21) 512 ≤ 512 := Nat.min_le_right _ _
  generalize min ((memSize + (2 ^ 21 - 1)) / 2 ^ 21) 512 = n at *
  have hw := walk64_tables hle ht (va % 2 ^ 48) (Nat.mod_lt _ (by decide))
  rw [walk64_mod] at hw
  have hva : va % 2 ^ 48 < n * 2 ^ 21 ↔ va < 2 ^ 47 ∧ va < n * 2 ^ 21 := by
    unfold Canonical at hc
    omega
  refine ⟨?_, fun x hx => ?_, verifyPageTables64bit_tables ht va⟩
  · rw [show GUEST_64_PML4_ADDR = 0x2000 from rfl, hw, ← hva]
    simp
  · rw [show GUEST_64_PML4_ADDR = 0x2000 from rfl, hw] at hx
    split at hx
    · rename_i hin
      have hlow := (hva.1 hin).1
      obtain rfl := Option.some.inj hx
      refine ⟨by show va % 2 ^ 48 = va; omega, ⟨by simp [writable], ?_⟩, ⟨by simp [user], ?_⟩⟩
      · simp only [writable]
        omega
      · simp only [user]
        omega
    · cases hx

/-! ## Kernel half -/

/-- mirrors kvm-vmm-x86/src/paging_64.c:66-113 -/
def setupPageTables64bitKernel (memSize kernelVirtBase : Nat) (m : Mem) : Mem :=
  let m := m.fill GUEST_64_PML4_ADDR 0x4000 0
  let m := m.store 8 (GUEST_64_PML4_ADDR + 8 * 0)
    (GUEST_64_PDPT_ADDR ||| PTE_PRESENT ||| PTE_WRITE ||| PTE_USER)
  let m := m.store 8 (GUEST_64_PDPT_ADDR + 8 * 0)
    (GUEST_64_PD_ADDR ||| PTE_PRESENT ||| PTE_WRITE ||| PTE_USER)
  let m := m.storeArr 8 GUEST_64_PD_ADDR
    (fun i => i * (2 <<< 20) ||| PTE_PRESENT ||| PTE_WRITE ||| PTE_USER ||| PTE_PSE)
    (min (numPages2mb memSize) PT_ENTRIES)
  let pml4Index := VA_PML4_INDEX kernelVirtBase
  let pdptIndex := VA_PDPT_INDEX kernelVirtBase
  let m := m.store 8 (GUEST_64_PML4_ADDR + 8 * pml4Index)
    (GUEST_64_PDPT_ADDR ||| PTE_PRESENT ||| PTE_WRITE)
  m.store 8 (GUEST_64_PDPT_ADDR + 8 * pdptIndex) (GUEST_64_PD_ADDR ||| PTE_PRESENT ||| PTE_WRITE)

/-- The identity map comes first, the kernel's two entries after it. -/
theorem setupPageTables64bitKernel_eq (memSize base : Nat) (m : Mem) :
    setupPageTables64bitKernel memSize base m =
      ((setupPageTables64bit memSize m).store 8 (0x2000 + 8 * VA_PML4_INDEX base) 0x3003).store 8
        (0x3000 + 8 * VA_PDPT_INDEX base) 0x4003 := rfl

/-- A table with a user entry in slot 0 and a kernel entry in slot `k`; where
the slots are the same the kernel entry, written last, stays. -/
def splitWord (userE kernelE k i : Nat) : Nat := if i = k then kernelE else headWord userE i

/-- The tables of the kernel/user split: `p` and `q` are the kernel's slots. -/
structure SplitTables (n p q : Nat) (m : Mem) : Prop where
  pml4 : ∀ i < 512, m.load 8 (0x2000 + 8 * i) = splitWord 0x3007 0x3003 p i
  pdpt : ∀ i < 512, m.load 8 (0x3000 + 8 * i) = splitWord 0x4007 0x4003 q i
  pd : ∀ i < 512, m.load 8 (0x4000 + 8 * i) = pdWord64 n i

theorem VA_PML4_INDEX_eq (va : Nat) : VA_PML4_INDEX va = va / 2 ^ 39 % 512 := by
  rw [VA_PML4_INDEX, Nat.shiftRight_eq_div_pow, Nat.and_two_pow_sub_one_eq_mod _ 9]

theorem VA_PDPT_INDEX_eq (va : Nat) : VA_PDPT_INDEX va = va / 2 ^ 30 % 512 := by
  rw [VA_PDPT_INDEX, Nat.shiftRight_eq_div_pow, Nat.and_two_pow_sub_one_eq_mod _ 9]

theorem setupPageTables64bitKernel_tables (memSize base : Nat) (m : Mem) :
    SplitTables (min (numPages2mb memSize) 512) (base / 2 ^ 39 % 512) (base / 2 ^ 30 % 512)
      (setupPageTables64bitKernel memSize base m) := by
  obtain ⟨ht, -, -⟩ := setupPageTables64bit_spec memSize m
  rw [setupPageTables64bitKernel_eq, VA_PML4_INDEX_eq, VA_PDPT_INDEX_eq]
  have hp : base / 2 ^ 39 % 512 < 512 := Nat.mod_lt _ (by decide)
  have hq : base / 2 ^ 30 % 512 < 512 := Nat.mod_lt _ (by decide)
  generalize base / 2 ^ 39 % 512 = p at *
  generalize base / 2 ^ 30 % 512 = q at *
  refine ⟨fun i hi => ?_, fun i hi => ?_, fun i hi => ?_⟩
  · rw [Mem.load_store_out _ _ (by omega), splitWord]
    split
    · rename_i he
      subst he
      exact Mem.load_store _ _ _ _
    · rw [Mem.load_store_out _ _ (by omega)]
      exact ht.pml4 i hi
  · rw [splitWord]
    split
    · rename_i he
      subst he
      exact Mem.load_store _ _ _ _
    · rw [Mem.load_store_out _ _ (by omega), Mem.load_store_out _ _ (by omega)]
      exact ht.pdpt i hi
  · rw [Mem.load_store_out _ _ (by omega), Mem.load_store_out _ _ (by omega)]
    exact ht.pd i hi

section Split

variable {n p q : Nat} {m : Mem}

/-- A walk through present PML4 and PDPT entries into the shared PD. -/
theorem SplitTables.walk (h : SplitTables n p q m) {va x e4 e3 : Nat} (hx : x < n * 2 ^ 21)
    (hlow : va % 2 ^ 30 = x)
    (h4 : splitWord 0x3007 0x3003 p (va / 2 ^ 39 % 512) = e4) (p4 : present e4)
    (f4 : frame64 e4 = 0x3000)
    (h3 : splitWord 0x4007 0x4003 q (va / 2 ^ 30 % 512) = e3) (p3 : present e3) (l3 : ¬ large e3)
    (f3 : frame64 e3 = 0x4000) :
    walk64 m GUEST_64_PML4_ADDR va = some ⟨x, [e4, e3], x / 2 ^ 21 * 2 ^ 21 + 0x87⟩ := by
  have hpd : va / 2 ^ 21 % 512 = x / 2 ^ 21 := by omega
  have w4 : entry64 m GUEST_64_PML4_ADDR va 39 = e4 :=
    (h.pml4 _ (Nat.mod_lt _ (by decide))).trans h4
  have w3 : entry64 m e4 va 30 = e3 := by
    rw [entry64, f4]
    exact (h.pdpt _ (Nat.mod_lt _ (by decide))).trans h3
  have w2 : entry64 m e3 va 21 = x / 2 ^ 21 * 2 ^ 21 + 0x87 := by
    rw [entry64, f3, hpd, h.pd _ (by omega), pdWord64, if_pos (by omega)]
  have hpa : (x / 2 ^ 21 * 2 ^ 21 + 0x87) / 2 ^ 21 % 2 ^ 31 * 2 ^ 21 + va % 2 ^ 21 = x := by omega
  rw [walk64_2m w4 p4 w3 p3 l3 w2 (by simp only [present]; omega) (by simp only [large]; omega),
    hpa]

/-- The identity half: its PDPT entry is the kernel's if the kernel's slot is 0. -/
theorem SplitTables.walk_low (h : SplitTables n p q m) (hn : n ≤ 512) (hp : p ≠ 0) {x : Nat}
    (hx : x < n * 2 ^ 21) :
    walk64 m GUEST_64_PML4_ADDR x =
      some ⟨x, [0x3007, if q = 0 then 0x4003 else 0x4007], x / 2 ^ 21 * 2 ^ 21 + 0x87⟩ := by
  have i4 : x / 2 ^ 39 % 512 = 0 := by omega
  have i3 : x / 2 ^ 30 % 512 = 0 := by omega
  have h4 : splitWord 0x3007 0x3003 p (x / 2 ^ 39 % 512) = 0x3007 := by
    rw [i4, splitWord, if_neg hp.symm]
    rfl
  have h3 : splitWord 0x4007 0x4003 q (x / 2 ^ 30 % 512) = if q = 0 then 0x4003 else 0x4007 := by
    rw [i3, splitWord]
    by_cases hq : q = 0
    · rw [if_pos hq.symm, if_pos hq]
    · rw [if_neg (Ne.symm hq), if_neg hq]
      rfl
  refine h.walk hx (by omega) h4 (by decide) (by decide) h3 ?_ ?_ ?_
  all_goals split <;> decide

/-- The kernel half, for a base with PML4 index `p` and PDPT index `q`. -/
theorem SplitTables.walk_high (h : SplitTables n p q m) (hn : n ≤ 512) {base x : Nat}
    (hp : base / 2 ^ 39 % 512 = p) (hq : base / 2 ^ 30 % 512 = q) (hal : base % 2 ^ 30 = 0)
    (hx : x < n * 2 ^ 21) :
    walk64 m GUEST_64_PML4_ADDR (base + x) =
      some ⟨x, [0x3003, 0x4003], x / 2 ^ 21 * 2 ^ 21 + 0x87⟩ := by
  have i4 : (base + x) / 2 ^ 39 % 512 = p := by omega
  have i3 : (base + x) / 2 ^ 30 % 512 = q := by omega
  have h4 : splitWord 0x3007 0x3003 p ((base + x) / 2 ^ 39 % 512) = 0x3003 := by
    rw [i4, splitWord, if_pos rfl]
  have h3 : splitWord 0x4007 0x4003 q ((base + x) / 2 ^ 30 % 512) = 0x4003 := by
    rw [i3, splitWord, if_pos rfl]
  exact h.walk hx (by omega) h4 (by decide) (by decide) h3 (by decide) (by decide) (by decide)

end Split

/-- Physical memory below `memSize` is seen twice: at its own address, open to
user code, and above `base` for the kernel only. -/
def KernelSplit (memSize base : Nat) (m : Mem) : Prop :=
  ∀ x < memSize,
    (∃ t, walk64 m GUEST_64_PML4_ADDR x = some t ∧ t.pa = x ∧ t.Writable ∧ t.User) ∧
    ∃ t, walk64 m GUEST_64_PML4_ADDR (base + x) = some t ∧ t.pa = x ∧ t.Writable ∧ ¬ t.User

/-- The split holds unless the base is a multiple of 512 GiB: its PDPT index is
0 then, and the kernel's entry replaces the user entry of the identity map. -/
theorem setupPageTables64bitKernel_split_iff {memSize base : Nat} (hlo : 0x6000 ≤ memSize)
    (hhi : memSize ≤ 2 ^ 30) (hc : Canonical base) (hup : 2 ^ 47 ≤ base)
    (hal : base % 2 ^ 30 = 0) (m : Mem) :
    KernelSplit memSize base (setupPageTables64bitKernel memSize base m) ↔ base % 2 ^ 39 ≠ 0 := by
  have h := setupPageTables64bitKernel_tables memSize base m
  have hn : min (numPages2mb memSize) 512 ≤ 512 := Nat.min_le_right _ _
  have hcover : memSize ≤ min (numPages2mb memSize) 512 * 2 ^ 21 := by
    rw [numPages2mb_eq]
    omega
  have hp : base / 2 ^ 39 % 512 ≠ 0 := by
    unfold Canonical at hc
    omega
  have hq : base / 2 ^ 30 % 512 = 0 ↔ base % 2 ^ 39 = 0 := by omega
  have hleaf : ∀ x, writable (x / 2 ^ 21 * 2 ^ 21 + 0x87) ∧ user (x / 2 ^ 21 * 2 ^ 21 + 0x87) := by
    intro x
    unfold writable user
    omega
  constructor
  · intro hs hbase
    obtain ⟨⟨t, hw, -, -, hu⟩, -⟩ := hs 0 (by omega)
    rw [h.walk_low hn hp (by omega), if_pos (hq.2 hbase)] at hw
    obtain rfl := Option.some.inj hw
    exact absurd (hu.1 0x4003 (by simp)) (by decide)
  · intro hbase x hx
    refine ⟨⟨_, h.walk_low hn hp (by omega), rfl, ?_, ?_⟩,
      ⟨_, h.walk_high hn rfl rfl hal (by omega), rfl, ?_, ?_⟩⟩
    · rw [if_neg (mt hq.1 hbase)]
      exact ⟨by simp [writable], (hleaf x).1⟩
    · rw [if_neg (mt hq.1 hbase)]
      exact ⟨by simp [user], (hleaf x).2⟩
    · exact ⟨by simp [writable], (hleaf x).1⟩
    · exact fun hu => absurd (hu.1 0x3003 (by simp)) (by decide)

theorem setupPageTables64bitKernel_split_usual :
    KernelSplit 0x400000 0xFFFFFFFF80000000
      (setupPageTables64bitKernel 0x400000 0xFFFFFFFF80000000 fun _ => 0) :=
  (setupPageTables64bitKernel_split_iff (by decide) (by decide) (by decide) (by decide) (by decide)
    _).2 (by decide)

/-- At the lowest upper-half address user code loses its identity map. -/
theorem setupPageTables64bitKernel_collision :
    Canonical 0xFFFF800000000000 ∧ 0xFFFF800000000000 % 2 ^ 30 = 0 ∧
      ¬ KernelSplit 0x400000 0xFFFF800000000000
        (setupPageTables64bitKernel 0x400000 0xFFFF800000000000 fun _ => 0) := by
  refine ⟨by decide, by decide, fun hs => ?_⟩
  obtain ⟨⟨t, hw, -, -, hu⟩, -⟩ := hs 0 (by decide)
  have h := setupPageTables64bitKernel_tables 0x400000 0xFFFF800000000000 fun _ => 0
  rw [h.walk_low (by decide) (by decide) (by decide)] at hw
  obtain rfl := Option.some.inj hw
  exact absurd (hu.1 0x4003 (by decide)) (by decide)

end MiniKvm.Vmm
