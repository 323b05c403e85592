import MiniKvm.Machine.Paging

/-!
# Several page directories in one heap

A heap `[lo, hi)` grows upwards page by page. The directories in it own pages
of their own (`Dirs`): their entries lead to tables that no other directory
uses. So a leaf that is set through one directory is seen through no other
(`Dirs.leaf32_mapPte`), and memory that belongs to none of them may be written
at will (`Dirs.congr`).
-/
namespace MiniKvm.Paging

section Owned

variable {m m' : Mem} {lo hi hi' d : Nat}

/-- What a directory owns lies in the heap. -/
theorem Dir.owns_bounds (h : Dir m lo hi d) {x : Nat} (hx : Owns m d x) : lo ≤ x ∧ x < hi := by
  have hlo := h.lo_le
  have hhi := h.le_hi
  rcases hx with hin | ⟨i, hi', hp, h1, h2⟩
  · omega
  · have := h.table i hi' hp
    omega

theorem entry32_of_owns (hm : ∀ x, Owns m d x → m' x = m x) {i : Nat} (hi : i < 1024) :
    entry32 m' d i = entry32 m d i :=
  entry32_congr (fun x h1 h2 => hm x (Or.inl ⟨h1, h2⟩)) hi

/-- Memory that agrees on what a directory owns gives it the same pages. -/
theorem owns_congr (hm : ∀ x, Owns m d x → m' x = m x) (x : Nat) : Owns m' d x ↔ Owns m d x := by
  unfold Owns
  refine or_congr_right (exists_congr fun i => and_congr_right fun hi => ?_)
  rw [entry32_of_owns hm hi]

theorem Dir.congr_owns (h : Dir m lo hi d) (hm : ∀ x, Owns m d x → m' x = m x) (hle : hi ≤ hi') :
    Dir m' lo hi' d := by
  refine ⟨h.aligned, h.lo_le, Nat.le_trans h.le_hi hle, fun i hi' hp => ?_, fun i hi' j hj' => ?_⟩
  · rw [entry32_of_owns hm hi'] at hp ⊢
    have := h.table i hi' hp
    omega
  · rw [entry32_of_owns hm hi', entry32_of_owns hm hj']
    exact h.apart i hi' j hj'

/-- And the same translations. -/
theorem Dir.leaf_congr_owns (h : Dir m lo hi d) (hm : ∀ x, Owns m d x → m' x = m x) {va : Nat}
    (hva : va < 2 ^ 32) : leaf32 m' d va = leaf32 m d va := by
  have hidx : va / 2 ^ 22 < 1024 := by omega
  rw [leaf32_eq _ h.aligned hva, leaf32_eq _ h.aligned hva, entry32_of_owns hm hidx]
  split
  · rename_i hp
    exact entry32_congr (fun x h1 h2 => hm x (Or.inr ⟨_, hidx, hp, h1, h2⟩)) (by omega)
  · rfl

/-- A leaf that is set takes at most one new page, at the end of the heap. -/
theorem Dir.owns_mapPte (h : Dir m lo hi d) (hhi : hi % 4096 = 0) (hb : hi + 7 < 2 ^ 32)
    {va w : Nat} (hva : va < 2 ^ 32) {x : Nat} (hx : Owns (Paging.mapPte m hi d va w) d x) :
    Owns m d x ∨ hi ≤ x := by
  rcases hx with hin | ⟨i, hi', hp, h1, h2⟩
  · exact Or.inl (Or.inl hin)
  · rw [entry32_mapPte h hhi hb hva hi'] at hp h1 h2
    split at h1
    · rw [frame32_new hhi] at h1
      exact Or.inr h1
    · rename_i hc
      rw [if_neg hc] at hp h2
      exact Or.inl (Or.inr ⟨i, hi', hp, h1, h2⟩)

/-- A zeroed page at the end of the heap is a directory without tables. -/
theorem Dir.fresh (hlo : lo ≤ hi) (hal : hi % 4096 = 0) :
    Dir (m.fill hi 4096 0) lo (hi + 4096) hi ∧
      (∀ i < 1024, entry32 (m.fill hi 4096 0) hi i = 0) := by
  have hzero : ∀ i < 1024, entry32 (m.fill hi 4096 0) hi i = 0 := fun i hi' =>
    Mem.load_fill_zero _ (Nat.le_add_right _ _) (by omega)
  have hnot : ∀ i < 1024, ¬ present (entry32 (m.fill hi 4096 0) hi i) := fun i hi' => by
    rw [hzero i hi']
    decide
  exact ⟨⟨hal, hlo, Nat.le_refl _, fun i hi' hp => absurd hp (hnot i hi'),
    fun i hi' _ _ hp => absurd hp (hnot i hi')⟩, hzero⟩

end Owned

/-- The directories `D` lie in `[lo, hi)` and own no byte together. -/
structure Dirs (m : Mem) (lo hi : Nat) (D : List Nat) : Prop where
  dir : ∀ d ∈ D, Dir m lo hi d
  apart : ∀ d ∈ D, ∀ e ∈ D, d ≠ e → ∀ x, Owns m d x → ¬ Owns m e x

section Family

variable {m m' : Mem} {lo hi hi' : Nat} {D : List Nat}

theorem Dirs.nil (m : Mem) (lo hi : Nat) : Dirs m lo hi [] :=
  ⟨fun _ h => absurd h List.not_mem_nil, fun _ h => absurd h List.not_mem_nil⟩

/-- Writes to memory that none of them owns. -/
theorem Dirs.congr (h : Dirs m lo hi D) (hm : ∀ d ∈ D, ∀ x, Owns m d x → m' x = m x)
    (hle : hi ≤ hi') : Dirs m' lo hi' D := by
  refine ⟨fun d hd => (h.dir d hd).congr_owns (hm d hd) hle, fun d hd e he hne x => ?_⟩
  rw [owns_congr (hm d hd), owns_congr (hm e he)]
  exact h.apart d hd e he hne x

/-- Memory from the end of the heap on is nobody's. -/
theorem Dirs.below (h : Dirs m lo hi D) (hm : ∀ x < hi, m' x = m x) :
    ∀ d ∈ D, ∀ x, Owns m d x → m' x = m x :=
  fun d hd x hx => hm x ((h.dir d hd).owns_bounds hx).2

/-- A new directory. -/
theorem Dirs.fresh (h : Dirs m lo hi D) (hlo : lo ≤ hi) (hal : hi % 4096 = 0) :
    Dirs (m.fill hi 4096 0) lo (hi + 4096) (hi :: D) := by
  obtain ⟨hnew, hzero⟩ := Dir.fresh (m := m) hlo hal
  have hm : ∀ d ∈ D, ∀ x, Owns m d x → m.fill hi 4096 0 x = m x :=
    h.below fun x hx => Mem.fill_out _ 0 (Or.inl hx)
  have hold : Dirs (m.fill hi 4096 0) lo (hi + 4096) D := h.congr hm (by omega)
  -- the new one owns its own page only, which lies behind everything the others own
  have hfar : ∀ d ∈ D, ∀ x, Owns (m.fill hi 4096 0) hi x → ¬ Owns (m.fill hi 4096 0) d x := by
    intro d hd x hx hx'
    have hlt := ((h.dir d hd).owns_bounds ((owns_congr (hm d hd) x).1 hx')).2
    rcases hx with hin | ⟨i, hi', hp, -⟩
    · omega
    · rw [hzero i hi'] at hp
      exact absurd hp (by decide)
  refine ⟨List.forall_mem_cons.2 ⟨hnew, hold.dir⟩, fun d hd e he hne x hx hx' => ?_⟩
  rcases List.mem_cons.1 hd with rfl | hdD
  · rcases List.mem_cons.1 he with rfl | heD
    · exact hne rfl
    · exact hfar e heD x hx hx'
  · rcases List.mem_cons.1 he with rfl | heD
    · exact hfar d hdD x hx' hx
    · exact hold.apart d hdD e heD hne x hx hx'

section Map

variable {d va w : Nat} (h : Dirs m lo hi D) (hd : d ∈ D) (hhi : hi % 4096 = 0)
  (hb : hi + 7 < 2 ^ 32) (hva : va < 2 ^ 32)

include h hd hhi hb hva

/-- What another directory owns is left alone. -/
theorem Dirs.mapPte_other {e : Nat} (he : e ∈ D) (hne : e ≠ d) :
    ∀ x, Owns m e x → Paging.mapPte m hi d va w x = m x := fun x hx =>
  mapPte_out (h.dir d hd) hhi hb hva ((h.dir e he).owns_bounds hx).2
    (h.apart e he d hd hne x hx)

theorem Dirs.mapPte : Dirs (Paging.mapPte m hi d va w) lo (tableEnd m hi d (va / 2 ^ 22)) D := by
  have hend : hi ≤ tableEnd m hi d (va / 2 ^ 22) := by
    unfold tableEnd
    split <;> omega
  -- the bytes of the updated directory are its old ones and new memory
  have hself : ∀ e ∈ D, e ≠ d → ∀ x, Owns (Paging.mapPte m hi d va w) d x →
      ¬ Owns (Paging.mapPte m hi d va w) e x := by
    intro e he hne x hx hx'
    have hold := (owns_congr (h.mapPte_other hd hhi hb hva he hne) x).1 hx'
    rcases (h.dir d hd).owns_mapPte hhi hb hva hx with hx | hx
    · exact h.apart e he d hd hne x hold hx
    · have := ((h.dir e he).owns_bounds hold).2
      omega
  refine ⟨fun e he => ?_, fun a ha b hb' hne x hxa hxb => ?_⟩
  · by_cases hed : e = d
    · rw [hed]
      exact (h.dir d hd).mapPte hhi hb hva
    · exact (h.dir e he).congr_owns (h.mapPte_other hd hhi hb hva he hed) hend
  · by_cases had : a = d
    · rw [had] at hxa hne
      exact hself b hb' (Ne.symm hne) x hxa hxb
    · by_cases hbd : b = d
      · rw [hbd] at hxb
        exact hself a ha had x hxb hxa
      · rw [owns_congr (h.mapPte_other hd hhi hb hva ha had)] at hxa
        rw [owns_congr (h.mapPte_other hd hhi hb hva hb' hbd)] at hxb
        exact h.apart a ha b hb' hne x hxa hxb

/-- One page of one directory gets a new translation, nothing else does. -/
theorem Dirs.leaf32_mapPte (hw : w < 2 ^ 32) {e : Nat} (he : e ∈ D) {va' : Nat}
    (hva' : va' < 2 ^ 32) :
    leaf32 (Paging.mapPte m hi d va w) e va' =
      if e = d ∧ va' / 4096 = va / 4096 then w else leaf32 m e va' := by
  by_cases hed : e = d
  · rw [hed, Paging.leaf32_mapPte (h.dir d hd) hhi hb hva hw hva']
    simp only [true_and]
  · rw [(h.dir e he).leaf_congr_owns (h.mapPte_other hd hhi hb hva he hed) hva',
      if_neg fun hc => hed hc.1]

/-- Directory entries: those there were, and the one of a new table. -/
theorem Dirs.entry32_mapPte {e : Nat} (he : e ∈ D) {i : Nat} (hi' : i < 1024) :
    entry32 (Paging.mapPte m hi d va w) e i = entry32 m e i ∨
      ¬ present (entry32 m e i) ∧ entry32 (Paging.mapPte m hi d va w) e i = hi + 7 := by
  by_cases hed : e = d
  · rw [hed, Paging.entry32_mapPte (h.dir d hd) hhi hb hva hi']
    split
    · rename_i hc
      exact Or.inr ⟨hc.1 ▸ hc.2, rfl⟩
    · exact Or.inl rfl
  · exact Or.inl (entry32_of_owns (h.mapPte_other hd hhi hb hva he hed) hi')

end Map

end Family

end MiniKvm.Paging
