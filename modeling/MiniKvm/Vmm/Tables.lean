import Mathlib.Tactic.IntervalCases
import MiniKvm.Machine.Paging

/-!
# Descriptor tables and page tables the VMM writes into guest memory

All of them are written at fixed offsets of `guest_mem`:

* `setup_gdt` (0x500, five entries), `setup_idt` (0x528, 256 zeroed entries);
* `setup_page_tables`: directory at 0x100000, tables at 0x101000 and 0x102000;
* `setup_page_tables_64bit`: PML4, PDPT, PD at 0x2000, 0x3000, 0x4000, inside
  a 16 KiB area that is cleared first, and `setup_gdt_64bit` at 0x5000.

`Tables32` / `Tables64` say which words these tables hold; they only speak
about the tables' own bytes, so they hold in every memory that contains a copy
of them, and the walks from CR3 follow from them alone (`walk32_tables`,
`walk64_tables`).
-/
namespace MiniKvm.Vmm

open Paging

/-! ## GDT and IDT of protected mode -/

def GDT_SIZE : Nat := 5
def GDT_ENTRY_SIZE : Nat := 8
def GDT_TOTAL_SIZE : Nat := GDT_SIZE * GDT_ENTRY_SIZE
def GDT_ADDR : Nat := 0x500
def IDT_ENTRY_SIZE : Nat := 8
def ACCESS_CODE_R : Nat := 0x9A
def ACCESS_DATA_W : Nat := 0x92
def LIMIT_GRAN : Nat := 0xC0

/-- The eight bytes of a `gdt_entry_t`.
mirrors kvm-vmm-x86/src/main.c:753-762, protected_mode.h:20-27 -/
def createGdtEntry (base limit access flags : Nat) : List UInt8 :=
  leBytes 2 (limit &&& 0xFFFF) ++ leBytes 2 (base &&& 0xFFFF) ++
    [UInt8.ofNat (base >>> 16 &&& 0xFF), UInt8.ofNat access,
     UInt8.ofNat ((limit >>> 16 &&& 0x0F) ||| (flags &&& 0xF0)),
     UInt8.ofNat (base >>> 24 &&& 0xFF)]

/-- `gdt[i] = e`, the table at `gdt`. -/
def setGdtEntry (m : Mem) (gdt i : Nat) (e : List UInt8) : Mem :=
  m.write (gdt + GDT_ENTRY_SIZE * i) e

/-- mirrors kvm-vmm-x86/src/main.c:768-789 -/
def setupGdt (m : Mem) : Mem :=
  let m := setGdtEntry m GDT_ADDR 0 (createGdtEntry 0 0 0 0)
  let m := setGdtEntry m GDT_ADDR 1 (createGdtEntry 0 0xFFFFF ACCESS_CODE_R LIMIT_GRAN)
  let m := setGdtEntry m GDT_ADDR 2 (createGdtEntry 0 0xFFFFF ACCESS_DATA_W LIMIT_GRAN)
  let m := setGdtEntry m GDT_ADDR 3 (createGdtEntry 0 0xFFFFF 0xFA LIMIT_GRAN)
  setGdtEntry m GDT_ADDR 4 (createGdtEntry 0 0xFFFFF 0xF2 LIMIT_GRAN)

/-- The IDT starts right behind the GDT. -/
def idtAddr : Nat := GDT_ADDR + GDT_TOTAL_SIZE

/-- mirrors kvm-vmm-x86/src/main.c:826-838 -/
def setupIdt (m : Mem) : Mem := m.fill idtAddr (256 * IDT_ENTRY_SIZE) 0

/-- The GDT `setup_gdt` installs, byte for byte. -/
def gdtImage : List UInt8 :=
  [0, 0, 0, 0, 0, 0, 0, 0,
   0xFF, 0xFF, 0, 0, 0, 0x9A, 0xCF, 0,
   0xFF, 0xFF, 0, 0, 0, 0x92, 0xCF, 0,
   0xFF, 0xFF, 0, 0, 0, 0xFA, 0xCF, 0,
   0xFF, 0xFF, 0, 0, 0, 0xF2, 0xCF, 0]

theorem setupGdt_eq (m : Mem) : setupGdt m = m.write 0x500 gdtImage := by
  have e0 := Mem.write_append m 0x500 (createGdtEntry 0 0 0 0)
    (createGdtEntry 0 0xFFFFF ACCESS_CODE_R LIMIT_GRAN)
  have e1 := Mem.write_append m 0x500
    (createGdtEntry 0 0 0 0 ++ createGdtEntry 0 0xFFFFF ACCESS_CODE_R LIMIT_GRAN)
    (createGdtEntry 0 0xFFFFF ACCESS_DATA_W LIMIT_GRAN)
  have e2 := Mem.write_append m 0x500
    (createGdtEntry 0 0 0 0 ++ createGdtEntry 0 0xFFFFF ACCESS_CODE_R LIMIT_GRAN ++
      createGdtEntry 0 0xFFFFF ACCESS_DATA_W LIMIT_GRAN)
    (createGdtEntry 0 0xFFFFF 0xFA LIMIT_GRAN)
  have e3 := Mem.write_append m 0x500
    (createGdtEntry 0 0 0 0 ++ createGdtEntry 0 0xFFFFF ACCESS_CODE_R LIMIT_GRAN ++
      createGdtEntry 0 0xFFFFF ACCESS_DATA_W LIMIT_GRAN ++
      createGdtEntry 0 0xFFFFF 0xFA LIMIT_GRAN)
    (createGdtEntry 0 0xFFFFF 0xF2 LIMIT_GRAN)
  rw [← e0] at e1
  rw [← e1] at e2
  rw [← e2] at e3
  exact e3

/-! ## Two-level tables of `--paging` -/

def pageDirOffset : Nat := 0x00100000
def pageTable0Offset : Nat := 0x00101000
def pageTable512Offset : Nat := 0x00102000

/-- `none` is the `-1` of a memory too small for the tables; the returned
offset is the value for CR3.
mirrors kvm-vmm-x86/src/main.c:693-748 -/
def setupPageTables (memSize : Nat) (m : Mem) : Option (Mem × Nat) :=
  if pageTable512Offset + 4096 ≥ memSize then none
  else
    let m := m.fill pageDirOffset 4096 0
    let m := m.fill pageTable0Offset 4096 0
    let m := m.fill pageTable512Offset 4096 0
    let m := m.store 4 (pageDirOffset + 4 * 0) (pageTable0Offset ||| 0x03)
    let m := m.store 4 (pageDirOffset + 4 * 512) (pageTable512Offset ||| 0x03)
    let m := m.storeArr 4 pageTable0Offset (fun i => i <<< 12 ||| 0x03) 1024
    let m := m.storeArr 4 pageTable512Offset (fun i => i <<< 12 ||| 0x03) 1024
    some (m, pageDirOffset)

/-- The directory: entry 0 for the low 4 MiB, entry 512 for 0x80000000. -/
def pdWord (i : Nat) : Nat := if i = 0 then 0x101003 else if i = 512 then 0x102003 else 0

/-- Both tables map page `i` to frame `i`, present and writable. -/
def ptWord (i : Nat) : Nat := i * 4096 + 3

theorem ptWord_eq (i : Nat) : i <<< 12 ||| 0x03 = ptWord i :=
  (Nat.shiftLeft_add_eq_or_of_lt (show 3 < 2 ^ 12 by decide) i).symm.trans
    (by rw [Nat.shiftLeft_eq]; rfl)

/-- The two-level tables lie in `m` at their fixed places. -/
structure Tables32 (m : Mem) : Prop where
  pd : ∀ i < 1024, m.load 4 (0x100000 + 4 * i) = pdWord i
  pt0 : ∀ i < 1024, m.load 4 (0x101000 + 4 * i) = ptWord i
  pt512 : ∀ i < 1024, m.load 4 (0x102000 + 4 * i) = ptWord i

theorem Tables32.congr {m m' : Mem} (h : Tables32 m)
    (he : ∀ x, 0x100000 ≤ x → x < 0x103000 → m' x = m x) : Tables32 m' := by
  refine ⟨fun i hi => ?_, fun i hi => ?_, fun i hi => ?_⟩
  · rw [Mem.load_congr fun x h1 h2 => he x (by omega) (by omega)]; exact h.pd i hi
  · rw [Mem.load_congr fun x h1 h2 => he x (by omega) (by omega)]; exact h.pt0 i hi
  · rw [Mem.load_congr fun x h1 h2 => he x (by omega) (by omega)]; exact h.pt512 i hi

theorem setupPageTables_some {memSize : Nat} {m m' : Mem} {cr3 : Nat}
    (h : setupPageTables memSize m = some (m', cr3)) :
    cr3 = 0x100000 ∧ Tables32 m' ∧ ∀ x, x < 0x100000 ∨ 0x103000 ≤ x → m' x = m x := by
  unfold setupPageTables at h
  split at h
  · cases h
  simp only [Option.some.injEq, Prod.mk.injEq, pageDirOffset, pageTable0Offset, pageTable512Offset,
    ptWord_eq] at h
  obtain ⟨rfl, rfl⟩ := h
  refine ⟨rfl, ⟨fun i hi => ?_, fun i hi => ?_, fun i hi => ?_⟩, fun x hx => ?_⟩
  · rw [Mem.load_storeArr_out _ _ _ _ _ (by omega), Mem.load_storeArr_out _ _ _ _ _ (by omega)]
    by_cases h512 : i = 512
    · subst h512; rw [Mem.load_store]; rfl
    rw [Mem.load_store_out _ _ (by omega)]
    by_cases h0 : i = 0
    · subst h0; rw [Mem.load_store]; rfl
    rw [Mem.load_store_out _ _ (by omega)]
    have hz : pdWord i = 0 := by simp [pdWord, h0, h512]
    have hc : ∀ y, 0x100000 + 4 * i ≤ y → y < 0x100000 + 4 * i + 4 →
        (((m.fill 0x100000 4096 0).fill 0x101000 4096 0).fill 0x102000 4096 0) y =
          (m.fill 0x100000 4096 0) y := fun y h1 h2 => by
      rw [Mem.fill_out _ _ (by omega), Mem.fill_out _ _ (by omega)]
    rw [Mem.load_congr hc, Mem.load_fill_zero _ (by omega) (by omega), hz]
  · rw [Mem.load_storeArr_out _ _ _ _ _ (by omega), Mem.load_storeArr _ _ _ _ hi]
    exact Nat.mod_eq_of_lt (by simp only [ptWord]; omega)
  · rw [Mem.load_storeArr _ _ _ _ hi]
    exact Nat.mod_eq_of_lt (by simp only [ptWord]; omega)
  · rw [Mem.storeArr_out _ _ _ _ _ (by omega), Mem.storeArr_out _ _ _ _ _ (by omega),
      Mem.store_out _ _ (by omega), Mem.store_out _ _ (by omega), Mem.fill_out _ _ (by omega),
      Mem.fill_out _ _ (by omega), Mem.fill_out _ _ (by omega)]

/-- The walk through the VMM's two-level tables, for every 32-bit address. -/
theorem walk32_tables {m : Mem} (h : Tables32 m) (va : Nat) (hva : va < 2 ^ 32) :
    walk32 m 0x100000 va =
      if va < 0x400000 then some ⟨va, [0x101003], ptWord (va / 4096)⟩
      else if 0x80000000 ≤ va ∧ va < 0x80400000 then
        some ⟨va - 0x80000000, [0x102003], ptWord ((va - 0x80000000) / 4096)⟩
      else none := by
  have hpd : pde32 m 0x100000 va = pdWord (va / 2 ^ 22) := by
    rw [pde32, show frame32 0x100000 = 0x100000 from rfl, h.pd _ (by omega)]
    congr 1
    omega
  have hframe : ∀ i, i < 1024 → frame32 (ptWord i) = i * 4096 := fun i _ => by
    simp only [frame32, ptWord]; omega
  have hpres : ∀ i, present (ptWord i) := fun i => by simp only [present, ptWord]; omega
  split
  · rename_i hlo
    have h0 : va / 2 ^ 22 = 0 := by omega
    rw [h0, show pdWord 0 = 0x101003 from rfl] at hpd
    have hpt : pte32 m 0x101003 va = ptWord (va / 4096) := by
      rw [pte32, show frame32 0x101003 = 0x101000 from rfl, h.pt0 _ (by omega)]
      congr 1
      omega
    have hpa : va / 4096 * 4096 + va % 4096 = va := by omega
    rw [walk32_some hpd (by decide) hpt (hpres _), hframe _ (by omega), hpa]
  · rename_i hlo
    split
    · rename_i hhi
      have h512 : va / 2 ^ 22 = 512 := by omega
      rw [h512, show pdWord 512 = 0x102003 from rfl] at hpd
      have hpt : pte32 m 0x102003 va = ptWord ((va - 0x80000000) / 4096) := by
        rw [pte32, show frame32 0x102003 = 0x102000 from rfl, h.pt512 _ (by omega)]
        congr 1
        omega
      have hpa : (va - 0x80000000) / 4096 * 4096 + va % 4096 = va - 0x80000000 := by omega
      rw [walk32_some hpd (by decide) hpt (hpres _), hframe _ (by omega), hpa]
    · rename_i hhi
      apply walk32_pde_none
      rw [hpd, pdWord, if_neg (by omega), if_neg (by omega)]
      decide

/-! ## Four-level tables of `--long-mode` -/

def PTE_PRESENT : Nat := 1 <<< 0
def PTE_WRITE : Nat := 1 <<< 1
def PTE_USER : Nat := 1 <<< 2
def PTE_PSE : Nat := 1 <<< 7
def PT_ENTRIES : Nat := 512
def GUEST_64_PML4_ADDR : Nat := 0x2000
def GUEST_64_PDPT_ADDR : Nat := 0x3000
def GUEST_64_PD_ADDR : Nat := 0x4000

/-- Number of 2 MiB pages that cover the memory, rounded up. -/
def numPages2mb (memSize : Nat) : Nat := (memSize + (2 <<< 20) - 1) / (2 <<< 20)

/-- The C function also returns the value for CR3, always `GUEST_64_PML4_ADDR`.
mirrors kvm-vmm-x86/src/paging_64.c:17-64 -/
def setupPageTables64bit (memSize : Nat) (m : Mem) : Mem :=
  let m := m.fill GUEST_64_PML4_ADDR 0x4000 0
  let m := m.store 8 (GUEST_64_PML4_ADDR + 8 * 0)
    (GUEST_64_PDPT_ADDR ||| PTE_PRESENT ||| PTE_WRITE ||| PTE_USER)
  let m := m.store 8 (GUEST_64_PDPT_ADDR + 8 * 0)
    (GUEST_64_PD_ADDR ||| PTE_PRESENT ||| PTE_WRITE ||| PTE_USER)
  m.storeArr 8 GUEST_64_PD_ADDR
    (fun i => i * (2 <<< 20) ||| PTE_PRESENT ||| PTE_WRITE ||| PTE_USER ||| PTE_PSE)
    (min (numPages2mb memSize) PT_ENTRIES)

/-- The PD maps 2 MiB page `i` to itself: present, writable, user, large. -/
def pdWord64 (n i : Nat) : Nat := if i < n then i * 2 ^ 21 + 0x87 else 0

theorem pdWord64_eq (i : Nat) :
    i * (2 <<< 20) ||| PTE_PRESENT ||| PTE_WRITE ||| PTE_USER ||| PTE_PSE = i * 2 ^ 21 + 0x87 := by
  have h := Nat.two_pow_add_eq_or_of_lt (show 0x87 < 2 ^ 21 by decide) i
  have hb : PTE_PRESENT ||| PTE_WRITE ||| PTE_USER ||| PTE_PSE = 0x87 := by decide
  rw [Nat.mul_comm i (2 ^ 21), h, ← hb, Nat.mul_comm, show 2 <<< 20 = 2 ^ 21 from rfl]
  simp only [Nat.or_assoc]

/-- A table of which only entry 0 is used. -/
def headWord (e i : Nat) : Nat := if i = 0 then e else 0

/-- The four-level tables lie in `m`, the PD with `n` entries. -/
structure Tables64 (n : Nat) (m : Mem) : Prop where
  pml4 : ∀ i < 512, m.load 8 (0x2000 + 8 * i) = headWord 0x3007 i
  pdpt : ∀ i < 512, m.load 8 (0x3000 + 8 * i) = headWord 0x4007 i
  pd : ∀ i < 512, m.load 8 (0x4000 + 8 * i) = pdWord64 n i

theorem Tables64.congr {n : Nat} {m m' : Mem} (h : Tables64 n m)
    (he : ∀ x, 0x2000 ≤ x → x < 0x5000 → m' x = m x) : Tables64 n m' := by
  refine ⟨fun i hi => ?_, fun i hi => ?_, fun i hi => ?_⟩
  · rw [Mem.load_congr fun x h1 h2 => he x (by omega) (by omega)]; exact h.pml4 i hi
  · rw [Mem.load_congr fun x h1 h2 => he x (by omega) (by omega)]; exact h.pdpt i hi
  · rw [Mem.load_congr fun x h1 h2 => he x (by omega) (by omega)]; exact h.pd i hi

theorem setupPageTables64bit_spec (memSize : Nat) (m : Mem) :
    Tables64 (min (numPages2mb memSize) 512) (setupPageTables64bit memSize m) ∧
      (∀ x, x < 0x2000 ∨ 0x6000 ≤ x → setupPageTables64bit memSize m x = m x) ∧
      ∀ x, 0x5000 ≤ x → x < 0x6000 → setupPageTables64bit memSize m x = 0 := by
  have hn : min (numPages2mb memSize) PT_ENTRIES ≤ 512 := Nat.min_le_right _ _
  have hn' : min (numPages2mb memSize) 512 = min (numPages2mb memSize) PT_ENTRIES := rfl
  simp only [setupPageTables64bit, GUEST_64_PML4_ADDR, GUEST_64_PDPT_ADDR, GUEST_64_PD_ADDR,
    pdWord64_eq, hn']
  generalize min (numPages2mb memSize) PT_ENTRIES = n at hn
  refine ⟨⟨fun i hi => ?_, fun i hi => ?_, fun i hi => ?_⟩, fun x hx => ?_, fun x h1 h2 => ?_⟩
  · rw [Mem.load_storeArr_out _ _ _ _ _ (by omega), Mem.load_store_out _ _ (by omega)]
    by_cases h0 : i = 0
    · subst h0; rw [Mem.load_store]; rfl
    rw [Mem.load_store_out _ _ (by omega), Mem.load_fill_zero _ (by omega) (by omega), headWord,
      if_neg h0]
  · rw [Mem.load_storeArr_out _ _ _ _ _ (by omega)]
    by_cases h0 : i = 0
    · subst h0; rw [Mem.load_store]; rfl
    rw [Mem.load_store_out _ _ (by omega), Mem.load_store_out _ _ (by omega),
      Mem.load_fill_zero _ (by omega) (by omega), headWord, if_neg h0]
  · unfold pdWord64
    by_cases hlt : i < n
    · rw [Mem.load_storeArr _ _ _ _ hlt, if_pos hlt]
      exact Nat.mod_eq_of_lt (by omega)
    · rw [Mem.load_storeArr_out _ _ _ _ _ (by omega), Mem.load_store_out _ _ (by omega),
        Mem.load_store_out _ _ (by omega), Mem.load_fill_zero _ (by omega) (by omega), if_neg hlt]
  · rw [Mem.storeArr_out _ _ _ _ _ (by omega), Mem.store_out _ _ (by omega),
      Mem.store_out _ _ (by omega), Mem.fill_out _ _ (by omega)]
  · rw [Mem.storeArr_out _ _ _ _ _ (by omega), Mem.store_out _ _ (by omega),
      Mem.store_out _ _ (by omega), Mem.fill_in _ _ (by omega) (by omega)]

/-- The walk through the four-level tables, for every 48-bit address: the PD
maps the `n` first 2 MiB pages to themselves, and nothing else is present. -/
theorem walk64_tables {n : Nat} {m : Mem} (hn : n ≤ 512) (h : Tables64 n m) (va : Nat)
    (hva : va < 2 ^ 48) :
    walk64 m 0x2000 va =
      if va < n * 2 ^ 21 then some ⟨va, [0x3007, 0x4007], va / 2 ^ 21 * 2 ^ 21 + 0x87⟩
      else none := by
  have h4 : entry64 m 0x2000 va 39 = headWord 0x3007 (va / 2 ^ 39 % 512) := by
    rw [entry64, show frame64 0x2000 = 0x2000 from rfl]
    exact h.pml4 _ (Nat.mod_lt _ (by decide))
  by_cases z4 : va / 2 ^ 39 % 512 = 0
  · rw [headWord, if_pos z4] at h4
    have h3 : entry64 m 0x3007 va 30 = headWord 0x4007 (va / 2 ^ 30 % 512) := by
      rw [entry64, show frame64 0x3007 = 0x3000 from rfl]
      exact h.pdpt _ (Nat.mod_lt _ (by decide))
    by_cases z3 : va / 2 ^ 30 % 512 = 0
    · rw [headWord, if_pos z3] at h3
      have hpd : va / 2 ^ 21 % 512 = va / 2 ^ 21 := by omega
      have h2 : entry64 m 0x4007 va 21 = pdWord64 n (va / 2 ^ 21) := by
        rw [entry64, show frame64 0x4007 = 0x4000 from rfl, hpd]
        exact h.pd _ (by omega)
      by_cases z2 : va / 2 ^ 21 < n
      · rw [pdWord64, if_pos z2] at h2
        have hpa : (va / 2 ^ 21 * 2 ^ 21 + 0x87) / 2 ^ 21 % 2 ^ 31 * 2 ^ 21 + va % 2 ^ 21 = va := by
          omega
        rw [walk64_2m h4 (by decide) h3 (by decide) (by decide) h2 (by simp only [present]; omega)
          (by simp only [large]; omega), if_pos (by omega), hpa]
      · rw [pdWord64, if_neg z2] at h2
        rw [if_neg (by omega)]
        simp [walk64, h4, h3, h2, present, large]
    · rw [headWord, if_neg z3] at h3
      rw [if_neg (by omega)]
      simp [walk64, h4, h3, present]
  · rw [headWord, if_neg z4] at h4
    rw [if_neg (by omega)]
    simp [walk64, h4, present]

/-! ## 64-bit GDT -/

def GDT_PRESENT : Nat := 1 <<< 7
def GDT_CODE_DATA : Nat := 1 <<< 4
def GDT_EXECUTABLE : Nat := 1 <<< 3
def GDT_RW : Nat := 1 <<< 1
def GDT_LONG_MODE : Nat := 1 <<< 5

/-- A `gdt_entry_64_t` with limit and base 0.
mirrors kvm-vmm-x86/src/long_mode.h:78-85 -/
def gdtEntry64 (access granularity : Nat) : List UInt8 :=
  [0, 0, 0, 0, 0, UInt8.ofNat access, UInt8.ofNat granularity, 0]

/-- mirrors kvm-vmm-x86/src/main.c:843-870 -/
def setupGdt64bit (m : Mem) (gdtBase : Nat) : Mem :=
  let m := m.fill gdtBase (5 * GDT_ENTRY_SIZE) 0
  let m := m.fill gdtBase GDT_ENTRY_SIZE 0
  let m := setGdtEntry m gdtBase 1
    (gdtEntry64 (GDT_PRESENT ||| GDT_CODE_DATA ||| GDT_EXECUTABLE ||| GDT_RW) GDT_LONG_MODE)
  setGdtEntry m gdtBase 2 (gdtEntry64 (GDT_PRESENT ||| GDT_CODE_DATA ||| GDT_RW) 0)

theorem setupGdt64bit_out (m : Mem) (g : Nat) {x : Nat} (h : x < g ∨ g + 40 ≤ x) :
    setupGdt64bit m g x = m x := by
  simp only [setupGdt64bit, setGdtEntry, GDT_ENTRY_SIZE, gdtEntry64]
  rw [Mem.write_out _ (by simp only [List.length_cons, List.length_nil]; omega),
    Mem.write_out _ (by simp only [List.length_cons, List.length_nil]; omega),
    Mem.fill_out _ _ (by omega), Mem.fill_out _ _ (by omega)]

/-- The 64-bit GDT: access byte and flags of the code segment, access byte of
the data segment, and zeros. -/
def gdt64Byte (i : Nat) : UInt8 :=
  if i = 13 then 0x9A else if i = 14 then 0x20 else if i = 21 then 0x92 else 0

theorem setupGdt64bit_in (m : Mem) (g : Nat) {i : Nat} (h : i < 40) :
    setupGdt64bit m g (g + i) = gdt64Byte i := by
  have e1 : gdtEntry64 (GDT_PRESENT ||| GDT_CODE_DATA ||| GDT_EXECUTABLE ||| GDT_RW) GDT_LONG_MODE =
      [0, 0, 0, 0, 0, 0x9A, 0x20, 0] := by decide
  have e2 : gdtEntry64 (GDT_PRESENT ||| GDT_CODE_DATA ||| GDT_RW) 0 = [0, 0, 0, 0, 0, 0x92, 0,
      0] := by
    decide
  simp only [setupGdt64bit, setGdtEntry, GDT_ENTRY_SIZE, e1, e2, Mem.write, Mem.fill,
    List.length_cons, List.length_nil, gdt64Byte]
  have hsub : ∀ k, g + i - (g + k) = i - k := fun k => Nat.add_sub_add_left g i k
  simp only [hsub]
  interval_cases i <;> simp

/-! ## All tables of a mode -/

/-- What GDT, IDT and page tables of `--paging` put into guest memory. -/
structure PagingTables (m m' : Mem) : Prop where
  gdt : ∀ i < 40, m' (0x500 + i) = gdtImage.getD i 0
  idt : ∀ x, 0x528 ≤ x → x < 0xD28 → m' x = 0
  tables : Tables32 m'
  frame : ∀ x, x < 0x500 ∨ 0xD28 ≤ x → x < 0x100000 ∨ 0x103000 ≤ x → m' x = m x

theorem pagingTables_of_setup {memSize : Nat} {m m' : Mem} {cr3 : Nat}
    (h : setupPageTables memSize (setupIdt (setupGdt m)) = some (m', cr3)) :
    cr3 = 0x100000 ∧ PagingTables m m' := by
  obtain ⟨hcr3, ht, hf⟩ := setupPageTables_some h
  have hlen : gdtImage.length = 40 := rfl
  rw [setupGdt_eq] at hf
  refine ⟨hcr3, ⟨fun i hi => ?_, fun x h1 h2 => ?_, ht, fun x h1 h2 => ?_⟩⟩
  · rw [hf _ (by omega), setupIdt, Mem.fill_out _ _ (by left; show _ < 0x528; omega),
      Mem.write_add _ (by omega)]
    simp [List.getD_eq_getElem?_getD, hlen, hi]
  · rw [hf _ (by omega)]
    exact Mem.fill_in _ _ h1 h2
  · rw [hf _ h2, setupIdt, Mem.fill_out _ _ (by show x < 0x528 ∨ 0xD28 ≤ x; omega),
      Mem.write_out _ (by omega)]

/-- What page tables and GDT of `--long-mode` put into guest memory. -/
structure LongTables (n : Nat) (m m' : Mem) : Prop where
  tables : Tables64 n m'
  gdt : ∀ i < 40, m' (0x5000 + i) = gdt64Byte i
  rest : ∀ x, 0x5028 ≤ x → x < 0x6000 → m' x = 0
  frame : ∀ x, x < 0x2000 ∨ 0x6000 ≤ x → m' x = m x

theorem longTables_of_setup (memSize : Nat) (m : Mem) :
    LongTables (min (numPages2mb memSize) 512) m
      (setupGdt64bit (setupPageTables64bit memSize m) 0x5000) := by
  obtain ⟨ht, hf, hz⟩ := setupPageTables64bit_spec memSize m
  refine ⟨ht.congr fun x h1 h2 => setupGdt64bit_out _ _ (by omega),
    fun i hi => setupGdt64bit_in _ _ hi, fun x h1 h2 => ?_, fun x hx => ?_⟩
  · rw [setupGdt64bit_out _ _ (by omega)]
    exact hz x (by omega) h2
  · rw [setupGdt64bit_out _ _ (by omega)]
    exact hf x hx

/-! ## Tables of the Linux entries -/

def LINUX_BOOT_CS : Nat := 0x10
def LINUX_BOOT_DS : Nat := 0x18

/-- mirrors kvm-vmm-x86/src/main.c:796-820 -/
def setupLinuxBootGdt (m : Mem) : Mem :=
  let m := m.fill GDT_ADDR GDT_TOTAL_SIZE 0
  let m := setGdtEntry m GDT_ADDR 0 (createGdtEntry 0 0 0 0)
  let m := setGdtEntry m GDT_ADDR 1 (createGdtEntry 0 0 0 0)
  let m := setGdtEntry m GDT_ADDR 2 (createGdtEntry 0 0xFFFFF ACCESS_CODE_R LIMIT_GRAN)
  let m := setGdtEntry m GDT_ADDR 3 (createGdtEntry 0 0xFFFFF ACCESS_DATA_W LIMIT_GRAN)
  setGdtEntry m GDT_ADDR 4 (createGdtEntry 0 0 0 0)

/-- mirrors kvm-vmm-x86/src/main.c:1598-1611 -/
def setupLinuxBootGdt64bit (m : Mem) (gdtBase : Nat) : Mem :=
  let m := m.fill gdtBase (5 * GDT_ENTRY_SIZE) 0
  let m := setGdtEntry m gdtBase 2
    (gdtEntry64 (GDT_PRESENT ||| GDT_CODE_DATA ||| GDT_EXECUTABLE ||| GDT_RW) GDT_LONG_MODE)
  setGdtEntry m gdtBase 3 (gdtEntry64 (GDT_PRESENT ||| GDT_CODE_DATA ||| GDT_RW) 0)

/-- `idt_entry_t`.
mirrors kvm-vmm-x86/src/protected_mode.h:36-42 -/
structure IdtEntry where
  offsetLow : Nat
  selector : Nat
  reserved : UInt8
  flags : UInt8
  offsetHigh : Nat
  deriving DecidableEq, Repr

def IdtEntry.bytes (e : IdtEntry) : List UInt8 :=
  leBytes 2 e.offsetLow ++ leBytes 2 e.selector ++ [e.reserved, e.flags] ++ leBytes 2 e.offsetHigh

/-- The entry at `a`, read through the packed struct. -/
def idtEntryAt (m : Mem) (a : Nat) : IdtEntry :=
  ⟨m.load 2 a, m.load 2 (a + 2), m (a + 4), m (a + 5), m.load 2 (a + 6)⟩

/-- The handler's address as the IDT dump of `handle_vm_exit` assembles it.
mirrors kvm-vmm-x86/src/main.c:2544 -/
def IdtEntry.offset (e : IdtEntry) : Nat := e.offsetLow ||| e.offsetHigh <<< 16

/-- Prints 'E' on COM1 and halts. -/
def handlerCode : List UInt8 :=
  [0x50, 0x52, 0xBA, 0xF8, 0x03, 0x00, 0x00, 0xB0, 0x45, 0xEE, 0x5A, 0x58, 0xF4, 0xEB, 0xFE]

/-- mirrors kvm-vmm-x86/src/main.c:2173-2204 -/
def setupLinuxProtIdt (m : Mem) : Mem :=
  let handlerAddr := 0x7000
  let m := m.write handlerAddr handlerCode
  m.writeArr IDT_ENTRY_SIZE idtAddr (fun _ =>
    (IdtEntry.mk (handlerAddr &&& 0xFFFF) LINUX_BOOT_CS 0 0x8E
      (handlerAddr >>> 16 &&& 0xFFFF)).bytes)
    256

def intSuccessStub : List UInt8 :=
  [0x55, 0x89, 0xE5, 0x81, 0x66, 0x06, 0xFE, 0xFF, 0x31, 0xC0, 0x5D, 0xCF]

def intFailStub : List UInt8 :=
  [0x55, 0x89, 0xE5, 0x81, 0x4E, 0x06, 0x01, 0x00, 0x31, 0xC0, 0x5D, 0xCF]

/-- The stub a real-mode vector points to. -/
def ivtOffset (vec : Nat) : Nat :=
  if vec = 0x15 ∨ vec = 0x10 ∨ vec = 0x16 ∨ vec = 0x1a then 0x1100
  else if vec = 0x13 then 0x1200
  else 0x1000

/-- mirrors kvm-vmm-x86/src/main.c:2118-2171 -/
def setupLinuxIvt (m : Mem) : Mem :=
  let m := m.write 0x1000 [0xCF]
  let m := m.write 0x1100 intSuccessStub
  let m := m.write 0x1200 intFailStub
  m.writeArr 4 0 (fun vec =>
    [UInt8.ofNat (ivtOffset vec &&& 0xFF), UInt8.ofNat (ivtOffset vec >>> 8 &&& 0xFF), 0, 0]) 256

end MiniKvm.Vmm
