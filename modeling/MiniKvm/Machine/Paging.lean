import MiniKvm.Core.Bytes

/-!
# x86 address translation

The page walks the processor does over guest-physical memory: two levels of
32-bit entries (CR4.PAE = 0, CR4.PSE = 0, so a directory entry always points
to a table), and four levels of 64-bit entries with 1 GiB and 2 MiB leaves
(IA-32e). A walk returns the physical address together with the entries it
went through; `none` is a page fault.

Entry bits used: 0 present, 1 writable, 2 user, 7 page size.
-/
namespace MiniKvm.Paging

def present (e : Nat) : Prop := e % 2 = 1
def writable (e : Nat) : Prop := e / 2 % 2 = 1
def user (e : Nat) : Prop := e / 4 % 2 = 1
def large (e : Nat) : Prop := e / 128 % 2 = 1

instance (e : Nat) : Decidable (present e) := inferInstanceAs (Decidable (_ = _))
instance (e : Nat) : Decidable (writable e) := inferInstanceAs (Decidable (_ = _))
instance (e : Nat) : Decidable (user e) := inferInstanceAs (Decidable (_ = _))
instance (e : Nat) : Decidable (large e) := inferInstanceAs (Decidable (_ = _))

/-- A successful walk: the physical address, the entries above the leaf (root
first) and the leaf entry. -/
structure Xlat where
  pa : Nat
  upper : List Nat
  leaf : Nat
  deriving DecidableEq, Repr

/-- Writable at every level. -/
def Xlat.Writable (x : Xlat) : Prop := (∀ e ∈ x.upper, writable e) ∧ writable x.leaf

/-- User-accessible at every level. -/
def Xlat.User (x : Xlat) : Prop := (∀ e ∈ x.upper, user e) ∧ user x.leaf

/-! ## Two levels, 32-bit entries -/

/-- The frame a 32-bit entry (or CR3) points to: bits 31:12. -/
def frame32 (e : Nat) : Nat := e / 4096 * 4096

def pde32 (m : Mem) (cr3 va : Nat) : Nat := m.load 4 (frame32 cr3 + 4 * (va / 2 ^ 22 % 1024))

def pte32 (m : Mem) (pde va : Nat) : Nat := m.load 4 (frame32 pde + 4 * (va / 2 ^ 12 % 1024))

def walk32 (m : Mem) (cr3 va : Nat) : Option Xlat :=
  let pde := pde32 m cr3 va
  if present pde then
    let pte := pte32 m pde va
    if present pte then some ⟨frame32 pte + va % 4096, [pde], pte⟩ else none
  else none

theorem walk32_pde_none {m : Mem} {cr3 va : Nat} (h : ¬ present (pde32 m cr3 va)) :
    walk32 m cr3 va = none := by simp [walk32, h]

theorem walk32_some {m : Mem} {cr3 va pde pte : Nat} (h1 : pde32 m cr3 va = pde)
    (p1 : present pde) (h2 : pte32 m pde va = pte) (p2 : present pte) :
    walk32 m cr3 va = some ⟨frame32 pte + va % 4096, [pde], pte⟩ := by
  simp [walk32, h1, p1, h2, p2]

/-- The word a walk ends at; 0 where it ends before a table. -/
def leaf32 (m : Mem) (cr3 va : Nat) : Nat :=
  if present (pde32 m cr3 va) then pte32 m (pde32 m cr3 va) va else 0

/-- A walk is determined by its leaf. -/
theorem walk32_eq_leaf (m : Mem) (cr3 va : Nat) :
    walk32 m cr3 va =
      if present (leaf32 m cr3 va) then
        some ⟨frame32 (leaf32 m cr3 va) + va % 4096, [pde32 m cr3 va], leaf32 m cr3 va⟩
      else none := by
  unfold walk32 leaf32
  by_cases h : present (pde32 m cr3 va)
  · simp [h]
  · have h0 : ¬ present 0 := by decide
    simp only [h, if_false, h0]

/-! ### A directory and its tables -/

/-- Entry `i` of the table at `t`. -/
def entry32 (m : Mem) (t i : Nat) : Nat := m.load 4 (t + 4 * i)

/-- A directory at `d` whose tables are different pages, all of them in `[lo, hi)`. -/
structure Dir (m : Mem) (lo hi d : Nat) : Prop where
  aligned : d % 4096 = 0
  lo_le : lo ≤ d
  le_hi : d + 4096 ≤ hi
  table : ∀ i < 1024, present (entry32 m d i) →
    lo ≤ frame32 (entry32 m d i) ∧ frame32 (entry32 m d i) + 4096 ≤ hi ∧ frame32 (entry32 m d i) ≠ d
  apart : ∀ i < 1024, ∀ j < 1024, present (entry32 m d i) → present (entry32 m d j) →
    frame32 (entry32 m d i) = frame32 (entry32 m d j) → i = j

/-- `x` is a byte of the directory or of one of its tables. -/
def Owns (m : Mem) (d x : Nat) : Prop :=
  (d ≤ x ∧ x < d + 4096) ∨
    ∃ i < 1024, present (entry32 m d i) ∧ frame32 (entry32 m d i) ≤ x ∧
      x < frame32 (entry32 m d i) + 4096

theorem frame32_mod (e : Nat) : frame32 e % 4096 = 0 := Nat.mul_mod_left _ _

theorem frame32_of_aligned {d : Nat} (h : d % 4096 = 0) : frame32 d = d :=
  Nat.div_mul_cancel (Nat.dvd_of_mod_eq_zero h)

theorem entry32_store_out {m : Mem} {a v t i : Nat} (h : t + 4 * i + 4 ≤ a ∨ a + 4 ≤ t + 4 * i) :
    entry32 (m.store 4 a v) t i = entry32 m t i := Mem.load_store_out _ _ h

theorem entry32_store (m : Mem) {t i v : Nat} (hv : v < 2 ^ 32) :
    entry32 (m.store 4 (t + 4 * i) v) t i = v := by
  rw [entry32, Mem.load_store]
  exact Nat.mod_eq_of_lt hv

theorem entry32_congr {m m' : Mem} {t i : Nat} (h : ∀ x, t ≤ x → x < t + 4096 → m' x = m x)
    (hi : i < 1024) :
    entry32 m' t i = entry32 m t i := Mem.load_congr fun _ _ _ => h _ (by omega) (by omega)

/-- The leaf, through the entries. -/
theorem leaf32_eq {d va : Nat} (m : Mem) (hd : d % 4096 = 0) (hva : va < 2 ^ 32) :
    leaf32 m d va =
      if present (entry32 m d (va / 2 ^ 22)) then
        entry32 m (frame32 (entry32 m d (va / 2 ^ 22))) (va / 2 ^ 12 % 1024)
      else 0 := by
  have hi : va / 2 ^ 22 % 1024 = va / 2 ^ 22 := Nat.mod_eq_of_lt (by omega)
  rw [leaf32, pde32, pte32, frame32_of_aligned hd, hi]
  rfl

/-- The walk, through the entries. -/
theorem walk32_eq_entry {d va : Nat} (m : Mem) (hd : d % 4096 = 0) (hva : va < 2 ^ 32) :
    walk32 m d va =
      if present (leaf32 m d va) then
        some ⟨frame32 (leaf32 m d va) + va % 4096, [entry32 m d (va / 2 ^ 22)], leaf32 m d va⟩
      else none := by
  have hidx : va / 2 ^ 22 % 1024 = va / 2 ^ 22 := Nat.mod_eq_of_lt (by omega)
  rw [walk32_eq_leaf, pde32, frame32_of_aligned hd, hidx]
  rfl

/-- A present leaf is behind a present directory entry. -/
theorem present_entry {m : Mem} {d va : Nat} (hd : d % 4096 = 0) (hva : va < 2 ^ 32)
    (h : present (leaf32 m d va)) : present (entry32 m d (va / 2 ^ 22)) := by
  by_contra hnp
  rw [leaf32_eq _ hd hva, if_neg hnp] at h
  exact absurd h (by decide)

section Congr

variable {m m' : Mem} {lo hi hi' d : Nat}

theorem Dir.entry_congr (h : Dir m lo hi d) (hm : ∀ x, lo ≤ x → x < hi → m' x = m x) {i : Nat}
    (hi' : i < 1024) :
    entry32 m' d i = entry32 m d i := by
  have := h.le_hi
  have := h.lo_le
  exact entry32_congr (fun x _ h2 => hm x (by omega) (by omega)) hi'

/-- All that matters of a directory lies in `[lo, hi)`. -/
theorem Dir.congr (h : Dir m lo hi d) (hm : ∀ x, lo ≤ x → x < hi → m' x = m x) (hle : hi ≤ hi') :
    Dir m' lo hi' d := by
  refine ⟨h.aligned, h.lo_le, Nat.le_trans h.le_hi hle, fun i hi' hp => ?_, fun i hi' j hj' => ?_⟩
  · rw [h.entry_congr hm hi'] at hp ⊢
    have := h.table i hi' hp
    omega
  · rw [h.entry_congr hm hi', h.entry_congr hm hj']
    exact h.apart i hi' j hj'

theorem Dir.leaf_congr (h : Dir m lo hi d) (hm : ∀ x, lo ≤ x → x < hi → m' x = m x) {va : Nat}
    (hva : va < 2 ^ 32) : leaf32 m' d va = leaf32 m d va := by
  have hidx : va / 2 ^ 22 < 1024 := by omega
  rw [leaf32_eq _ h.aligned hva, leaf32_eq _ h.aligned hva, h.entry_congr hm hidx]
  split
  · rename_i hp
    have := h.table _ hidx hp
    exact entry32_congr (fun x _ h2 => hm x (by omega) (by omega)) (by omega)
  · rfl

end Congr

section Update

variable {m : Mem} {lo hi d idx k w : Nat}

/-- The memory of a new, empty table at `hi` behind entry `idx`. -/
def addTable (m : Mem) (hi d idx : Nat) : Mem := (m.fill hi 4096 0).store 4 (d + 4 * idx) (hi + 7)

theorem addTable_out (hidx : idx < 1024) {x : Nat} (hx : x < hi) (hd : x < d ∨ d + 4096 ≤ x) :
    addTable m hi d idx x = m x := by
  rw [addTable, Mem.store_out _ _ (by omega), Mem.fill_out _ _ (by omega)]

theorem entry32_addTable_dir (h : d + 4096 ≤ hi) (hb : hi + 7 < 2 ^ 32) {i : Nat} (hi' : i < 1024) :
    entry32 (addTable m hi d idx) d i = if i = idx then hi + 7 else entry32 m d i := by
  unfold addTable
  split
  · rename_i heq
    rw [heq]
    exact entry32_store _ hb
  · rw [entry32_store_out (by omega)]
    exact Mem.load_congr fun _ _ _ => Mem.fill_out _ _ (by omega)

theorem frame32_new (hhi : hi % 4096 = 0) : frame32 (hi + 7) = hi := by
  unfold frame32
  omega

theorem present_new (hhi : hi % 4096 = 0) : present (hi + 7) := by
  unfold present
  omega

theorem Dir.addTable (h : Dir m lo hi d) (hhi : hi % 4096 = 0) (hb : hi + 7 < 2 ^ 32) :
    Dir (addTable m hi d idx) lo (hi + 4096) d := by
  have hle := h.le_hi
  have hlo := h.lo_le
  refine ⟨h.aligned, hlo, by omega, fun i hi' hp => ?_, fun i hi' j hj' hpi hpj he => ?_⟩
  · rw [entry32_addTable_dir hle hb hi'] at hp ⊢
    split
    · rw [frame32_new hhi]
      omega
    · rename_i hne
      rw [if_neg hne] at hp
      have := h.table i hi' hp
      omega
  · rw [entry32_addTable_dir hle hb hi'] at hpi he
    rw [entry32_addTable_dir hle hb hj'] at hpj he
    -- the new table lies behind all the others
    split at he
    · split at he
      · omega
      · rename_i hne
        rw [if_neg hne] at hpj
        have := h.table j hj' hpj
        rw [frame32_new hhi] at he
        omega
    · rename_i hni
      rw [if_neg hni] at hpi
      split at he
      · have := h.table i hi' hpi
        rw [frame32_new hhi] at he
        omega
      · rename_i hnj
        rw [if_neg hnj] at hpj
        exact h.apart i hi' j hj' hpi hpj he

/-- An empty table maps nothing that was not mapped before. -/
theorem leaf32_addTable (h : Dir m lo hi d) (hhi : hi % 4096 = 0) (hb : hi + 7 < 2 ^ 32)
    (hidx : idx < 1024) (hnew : ¬ present (entry32 m d idx)) {va : Nat} (hva : va < 2 ^ 32) :
    leaf32 (addTable m hi d idx) d va = leaf32 m d va := by
  have hle := h.le_hi
  have hi' : va / 2 ^ 22 < 1024 := by omega
  rw [leaf32_eq _ h.aligned hva, leaf32_eq _ h.aligned hva, entry32_addTable_dir hle hb hi']
  by_cases heq : va / 2 ^ 22 = idx
  · rw [if_pos heq, if_pos (present_new hhi), heq, if_neg hnew, frame32_new hhi]
    unfold Paging.addTable
    have hk : va / 2 ^ 12 % 1024 < 1024 := Nat.mod_lt _ (by decide)
    rw [entry32_store_out (by omega), entry32]
    exact Mem.load_fill_zero _ (Nat.le_add_right _ _) (by omega)
  · rw [if_neg heq]
    split
    · rename_i hp
      have := h.table _ hi' hp
      have hmod := frame32_mod (entry32 m d (va / 2 ^ 22))
      have hal := h.aligned
      exact entry32_congr (fun x h1 h2 => addTable_out hidx (by omega) (by omega)) (by omega)
    · rfl

/-- A word written into a table leaves the directory alone. -/
theorem entry32_setPte_dir (h : Dir m lo hi d) (hidx : idx < 1024) (hp : present (entry32 m d idx))
    (hk : k < 1024) {i : Nat} (hi' : i < 1024) :
    entry32 (m.store 4 (frame32 (entry32 m d idx) + 4 * k) w) d i = entry32 m d i := by
  have := h.table idx hidx hp
  have hmod := frame32_mod (entry32 m d idx)
  have hal := h.aligned
  exact entry32_store_out (by omega)

theorem Dir.setPte (h : Dir m lo hi d) (hidx : idx < 1024) (hp : present (entry32 m d idx))
    (hk : k < 1024) :
    Dir (m.store 4 (frame32 (entry32 m d idx) + 4 * k) w) lo hi d := by
  refine ⟨h.aligned, h.lo_le, h.le_hi, fun i hi' => ?_, fun i hi' j hj' => ?_⟩
  · rw [entry32_setPte_dir h hidx hp hk hi']
    exact h.table i hi'
  · rw [entry32_setPte_dir h hidx hp hk hi', entry32_setPte_dir h hidx hp hk hj']
    exact h.apart i hi' j hj'

theorem leaf32_setPte (h : Dir m lo hi d) (hidx : idx < 1024) (hp : present (entry32 m d idx))
    (hk : k < 1024) (hw : w < 2 ^ 32) {va : Nat} (hva : va < 2 ^ 32) :
    leaf32 (m.store 4 (frame32 (entry32 m d idx) + 4 * k) w) d va =
      if va / 4096 = idx * 1024 + k then w else leaf32 m d va := by
  have hi' : va / 2 ^ 22 < 1024 := by omega
  rw [leaf32_eq _ h.aligned hva, leaf32_eq _ h.aligned hva, entry32_setPte_dir h hidx hp hk hi']
  by_cases heq : va / 2 ^ 22 = idx
  · rw [heq, if_pos hp, if_pos hp]
    by_cases hkeq : va / 2 ^ 12 % 1024 = k
    · rw [hkeq, if_pos (by omega), entry32_store _ hw]
    · rw [if_neg (by omega), entry32_store_out (by omega)]
  · rw [if_neg (show ¬ va / 4096 = idx * 1024 + k by omega)]
    split
    · rename_i hpv
      -- two tables of one directory are different pages
      have hne : frame32 (entry32 m d (va / 2 ^ 22)) ≠ frame32 (entry32 m d idx) := fun he =>
        heq (h.apart _ hi' _ hidx hpv hp he)
      have h1 := frame32_mod (entry32 m d (va / 2 ^ 22))
      have h2 := frame32_mod (entry32 m d idx)
      exact entry32_store_out (by omega)
    · rfl

/-- Memory once entry `idx` has a table, a new one at `hi` if it had none. -/
def withTable (m : Mem) (hi d idx : Nat) : Mem :=
  if present (entry32 m d idx) then m else addTable m hi d idx

/-- Where free memory begins then. -/
def tableEnd (m : Mem) (hi d idx : Nat) : Nat := if present (entry32 m d idx) then hi else hi + 4096

/-- Memory after the leaf of `va` was set to `w`, in a new table at `hi` if there was none. -/
def mapPte (m : Mem) (hi d va w : Nat) : Mem :=
  let m1 := withTable m hi d (va / 2 ^ 22)
  m1.store 4 (frame32 (entry32 m1 d (va / 2 ^ 22)) + 4 * (va / 2 ^ 12 % 1024)) w

/-- What `withTable` leaves: the entry is present, and no translation has changed. -/
theorem withTable_spec (h : Dir m lo hi d) (hhi : hi % 4096 = 0) (hb : hi + 7 < 2 ^ 32)
    (hidx : idx < 1024) :
    Dir (withTable m hi d idx) lo (tableEnd m hi d idx) d ∧
      present (entry32 (withTable m hi d idx) d idx) ∧
      (∀ i < 1024, entry32 (withTable m hi d idx) d i =
        if i = idx ∧ ¬ present (entry32 m d idx) then hi + 7 else entry32 m d i) ∧
      (∀ va < 2 ^ 32, leaf32 (withTable m hi d idx) d va = leaf32 m d va) ∧
      ∀ x < hi, (x < d ∨ d + 4096 ≤ x) → withTable m hi d idx x = m x := by
  unfold withTable tableEnd
  by_cases hp : present (entry32 m d idx)
  · simp only [if_pos hp]
    exact ⟨h, hp, fun i _ => (if_neg fun hn => hn.2 hp).symm, fun _ _ => trivial,
      fun _ _ _ => trivial⟩
  · simp only [if_neg hp]
    refine ⟨h.addTable hhi hb, ?_, fun i hi' => ?_,
      fun va hva => leaf32_addTable h hhi hb hidx hp hva,
      fun x hx hd => addTable_out hidx hx hd⟩
    · rw [entry32_addTable_dir h.le_hi hb hidx, if_pos rfl]
      exact present_new hhi
    · rw [entry32_addTable_dir h.le_hi hb hi']
      simp only [hp, not_false_iff, and_true]

theorem Dir.mapPte (h : Dir m lo hi d) (hhi : hi % 4096 = 0) (hb : hi + 7 < 2 ^ 32) {va : Nat}
    (hva : va < 2 ^ 32) :
    Dir (mapPte m hi d va w) lo (tableEnd m hi d (va / 2 ^ 22)) d := by
  have hidx : va / 2 ^ 22 < 1024 := by omega
  obtain ⟨h1, hp, -⟩ := withTable_spec h hhi hb hidx
  exact h1.setPte hidx hp (Nat.mod_lt _ (by decide))

theorem entry32_mapPte (h : Dir m lo hi d) (hhi : hi % 4096 = 0) (hb : hi + 7 < 2 ^ 32) {va : Nat}
    (hva : va < 2 ^ 32) {i : Nat} (hi' : i < 1024) :
    entry32 (mapPte m hi d va w) d i =
      if i = va / 2 ^ 22 ∧ ¬ present (entry32 m d (va / 2 ^ 22)) then hi + 7
      else entry32 m d i := by
  have hidx : va / 2 ^ 22 < 1024 := by omega
  obtain ⟨h1, hp, he, -⟩ := withTable_spec h hhi hb hidx
  exact (entry32_setPte_dir h1 hidx hp (Nat.mod_lt _ (by decide)) hi').trans (he i hi')

/-- The update changes the translation of one page. -/
theorem leaf32_mapPte (h : Dir m lo hi d) (hhi : hi % 4096 = 0) (hb : hi + 7 < 2 ^ 32) {va : Nat}
    (hva : va < 2 ^ 32) (hw : w < 2 ^ 32) {va' : Nat} (hva' : va' < 2 ^ 32) :
    leaf32 (mapPte m hi d va w) d va' = if va' / 4096 = va / 4096 then w else leaf32 m d va' := by
  have hidx : va / 2 ^ 22 < 1024 := by omega
  obtain ⟨h1, hp, -, hl, -⟩ := withTable_spec h hhi hb hidx
  have hpage : va / 2 ^ 22 * 1024 + va / 2 ^ 12 % 1024 = va / 4096 := by omega
  have hset := leaf32_setPte h1 hidx hp (Nat.mod_lt (va / 2 ^ 12) (show 1024 > 0 by decide)) hw hva'
  rw [hpage, hl va' hva'] at hset
  exact hset

theorem mapPte_out (h : Dir m lo hi d) (hhi : hi % 4096 = 0) (hb : hi + 7 < 2 ^ 32) {va : Nat}
    (hva : va < 2 ^ 32)
    {x : Nat} (hx : x < hi) (hown : ¬ Owns m d x) : mapPte m hi d va w x = m x := by
  have hidx : va / 2 ^ 22 < 1024 := by omega
  obtain ⟨h1, hp, he, -, hout⟩ := withTable_spec h hhi hb hidx
  have hd : x < d ∨ d + 4096 ≤ x := by
    by_contra hc
    exact hown (Or.inl (by omega))
  rw [← hout x hx hd]
  refine Mem.store_out _ _ ?_
  have hk : va / 2 ^ 12 % 1024 < 1024 := Nat.mod_lt _ (by decide)
  rw [he _ hidx]
  by_cases hpm : present (entry32 m d (va / 2 ^ 22))
  · rw [if_neg fun hn => hn.2 hpm]
    by_contra hc
    exact hown (Or.inr ⟨_, hidx, hpm, by omega⟩)
  · rw [if_pos ⟨rfl, hpm⟩, frame32_new hhi]
    omega

end Update

/-! ## Four levels, 64-bit entries -/

/-- The frame a 64-bit entry (or CR3) points to: bits 51:12. -/
def frame64 (e : Nat) : Nat := e / 2 ^ 12 % 2 ^ 40 * 2 ^ 12

/-- Entry of the table at `base` that `va` selects at bit `sh`. -/
def entry64 (m : Mem) (base va sh : Nat) : Nat := m.load 8 (frame64 base + 8 * (va / 2 ^ sh % 512))

def walk64 (m : Mem) (cr3 va : Nat) : Option Xlat :=
  let pml4e := entry64 m cr3 va 39
  if present pml4e then
    let pdpte := entry64 m pml4e va 30
    if present pdpte then
      if large pdpte then
        some ⟨pdpte / 2 ^ 30 % 2 ^ 22 * 2 ^ 30 + va % 2 ^ 30, [pml4e], pdpte⟩
      else
        let pde := entry64 m pdpte va 21
        if present pde then
          if large pde then
            some ⟨pde / 2 ^ 21 % 2 ^ 31 * 2 ^ 21 + va % 2 ^ 21, [pml4e, pdpte], pde⟩
          else
            let pte := entry64 m pde va 12
            if present pte then some ⟨frame64 pte + va % 2 ^ 12, [pml4e, pdpte, pde], pte⟩
            else none
        else none
    else none
  else none

/-- A walk that ends in a 2 MiB leaf. -/
theorem walk64_2m {m : Mem} {cr3 va pml4e pdpte pde : Nat} (h4 : entry64 m cr3 va 39 = pml4e)
    (p4 : present pml4e) (h3 : entry64 m pml4e va 30 = pdpte) (p3 : present pdpte)
    (l3 : ¬ large pdpte) (h2 : entry64 m pdpte va 21 = pde) (p2 : present pde) (l2 : large pde) :
    walk64 m cr3 va =
      some ⟨pde / 2 ^ 21 % 2 ^ 31 * 2 ^ 21 + va % 2 ^ 21, [pml4e, pdpte], pde⟩ := by
  simp only [walk64, h4, p4, h3, p3, l3, h2, p2, l2, if_true, if_false]

/-- Bits 63:47 of a 48-bit virtual address are all the same. -/
def Canonical (va : Nat) : Prop := va < 2 ^ 47 ∨ (2 ^ 64 - 2 ^ 47 ≤ va ∧ va < 2 ^ 64)

instance (va : Nat) : Decidable (Canonical va) := inferInstanceAs (Decidable (_ ∨ _))

/-- The walk uses the low 48 bits. -/
theorem walk64_mod (m : Mem) (cr3 va : Nat) : walk64 m cr3 (va % 2 ^ 48) = walk64 m cr3 va := by
  have h39 : va % 2 ^ 48 / 2 ^ 39 % 512 = va / 2 ^ 39 % 512 := by omega
  have h30 : va % 2 ^ 48 / 2 ^ 30 % 512 = va / 2 ^ 30 % 512 := by omega
  have h21 : va % 2 ^ 48 / 2 ^ 21 % 512 = va / 2 ^ 21 % 512 := by omega
  have h12 : va % 2 ^ 48 / 2 ^ 12 % 512 = va / 2 ^ 12 % 512 := by omega
  have o30 : va % 2 ^ 48 % 2 ^ 30 = va % 2 ^ 30 := by omega
  have o21 : va % 2 ^ 48 % 2 ^ 21 = va % 2 ^ 21 := by omega
  have o12 : va % 2 ^ 48 % 2 ^ 12 = va % 2 ^ 12 := by omega
  unfold walk64 entry64
  rw [h39, h30, h21, h12, o30, o21, o12]

end MiniKvm.Paging
