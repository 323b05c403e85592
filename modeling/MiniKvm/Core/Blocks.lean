import Mathlib.Data.List.Basic
import Mathlib.Data.List.Pairwise

/-!
# Blocks of cells

An allocator gives away blocks of cells, numbered from zero to `n`. `Gap` is a
place for a block among the cells in use, `LowestGap` the one that a first-fit
search finds. A search that counts the free cells in a row finds it: `FreeRun`
is what it knows on the way.

`Pool` says that the blocks given away lie apart. A block at a gap can be
added, any block can be taken out, and the cells in use change accordingly.
-/
namespace MiniKvm

/-- Room for `k` of the `n` cells, from `s` on. -/
def Gap (used : Nat → Prop) (n k s : Nat) : Prop :=
  s + k ≤ n ∧ ∀ i, s ≤ i → i < s + k → ¬ used i

structure LowestGap (used : Nat → Prop) (n k s : Nat) : Prop where
  gap : Gap used n k s
  least : ∀ t < s, ¬ Gap used n k t

/-- The search is at cell `i`: the cells from `s` to it are free, the one before them is not, and
no gap ends here or before. -/
structure FreeRun (used : Nat → Prop) (k s i : Nat) : Prop where
  le : s ≤ i
  short : i < s + k
  free : ∀ j, s ≤ j → j < i → ¬ used j
  stop : s = 0 ∨ used (s - 1)

section Search

variable {used : Nat → Prop} {n k s i t : Nat}

theorem Gap.congr {used' : Nat → Prop} (h : ∀ i < n, used i ↔ used' i) :
    Gap used n k s ↔ Gap used' n k s := by
  constructor
  · rintro ⟨hn, hfree⟩
    exact ⟨hn, fun i h1 h2 hu => hfree i h1 h2 ((h i (by omega)).2 hu)⟩
  · rintro ⟨hn, hfree⟩
    exact ⟨hn, fun i h1 h2 hu => hfree i h1 h2 ((h i (by omega)).1 hu)⟩

/-- Cells that are put into a gap and taken out again. -/
theorem Gap.undo (h : Gap used n k s) (i : Nat) :
    ¬ (s ≤ i ∧ i < s + k) ∧ ((s ≤ i ∧ i < s + k) ∨ used i) ↔ used i := by
  constructor
  · rintro ⟨hout, hin | hu⟩
    · exact absurd hin hout
    · exact hu
  · intro hu
    exact ⟨fun hin => h.2 i hin.1 hin.2 hu, Or.inr hu⟩

theorem LowestGap.congr {used' : Nat → Prop} (h : ∀ i < n, used i ↔ used' i) :
    LowestGap used n k s ↔ LowestGap used' n k s := by
  constructor
  · rintro ⟨hgap, hleast⟩
    exact ⟨(Gap.congr h).1 hgap, fun t ht hg => hleast t ht ((Gap.congr h).2 hg)⟩
  · rintro ⟨hgap, hleast⟩
    exact ⟨(Gap.congr h).2 hgap, fun t ht hg => hleast t ht ((Gap.congr h).1 hg)⟩

theorem FreeRun.start (hk : 0 < k) : FreeRun used k 0 0 :=
  ⟨Nat.le_refl 0, by omega, fun _ _ h => absurd h (Nat.not_lt_zero _), Or.inl rfl⟩

/-- A gap does not start before the run. -/
theorem FreeRun.le_of_gap (h : FreeRun used k s i) (hlow : ∀ t, t + k ≤ i → ¬ Gap used n k t)
    (hg : Gap used n k t) : s ≤ t := by
  by_contra hlt
  have hs : used (s - 1) := h.stop.resolve_left (by omega)
  have hle := h.le
  rcases Nat.lt_or_ge i (t + k) with hin | hout
  · exact hg.2 (s - 1) (by omega) (by omega) hs
  · exact hlow t hout hg

/-- A free cell, and the run is still short. -/
theorem FreeRun.next (h : FreeRun used k s i) (hi : ¬ used i) (hshort : i + 1 < s + k) :
    FreeRun used k s (i + 1) := by
  have hle := h.le
  refine ⟨by omega, hshort, fun j h1 h2 => ?_, h.stop⟩
  rcases Nat.lt_succ_iff_lt_or_eq.1 h2 with hlt | rfl
  · exact h.free j h1 hlt
  · exact hi

/-- A free cell that makes the run a gap. -/
theorem FreeRun.found (h : FreeRun used k s i) (hlow : ∀ t, t + k ≤ i → ¬ Gap used n k t)
    (hi : ¬ used i) (hfull : i + 1 = s + k) (hn : i < n) : LowestGap used n k s := by
  have hgap : Gap used n k s := by
    refine ⟨by omega, fun j h1 h2 => ?_⟩
    rcases Nat.lt_succ_iff_lt_or_eq.1 (hfull ▸ h2 : j < i + 1) with hlt | rfl
    · exact h.free j h1 hlt
    · exact hi
  exact ⟨hgap, fun t ht hg => absurd (h.le_of_gap hlow hg) (by omega)⟩

/-- Behind a cell in use a new run starts. -/
theorem FreeRun.restart (hk : 0 < k) (hi : used i) : FreeRun used k (i + 1) (i + 1) :=
  ⟨Nat.le_refl _, by omega, fun j h1 h2 => by omega, Or.inr hi⟩

/-- No gap ends behind a short run. -/
theorem FreeRun.no_gap (h : FreeRun used k s i) (hlow : ∀ t, t + k ≤ i → ¬ Gap used n k t)
    (hshort : i + 1 < s + k) : ∀ t, t + k ≤ i + 1 → ¬ Gap used n k t := by
  intro t ht hg
  have hst := h.le_of_gap hlow hg
  omega

/-- No gap ends at a cell in use. -/
theorem no_gap_of_used (hk : 0 < k) (hlow : ∀ t, t + k ≤ i → ¬ Gap used n k t) (hi : used i) :
    ∀ t, t + k ≤ i + 1 → ¬ Gap used n k t := by
  intro t ht hg
  rcases Nat.lt_or_ge (t + k) (i + 1) with hlt | hge
  · exact hlow t (by omega) hg
  · exact hg.2 i (by omega) (by omega) hi

end Search

/-! ## Blocks -/

structure Block where
  start : Nat
  size : Nat
  deriving DecidableEq, Repr

namespace Block

def Has (b : Block) (i : Nat) : Prop := b.start ≤ i ∧ i < b.start + b.size

instance (b : Block) (i : Nat) : Decidable (b.Has i) := inferInstanceAs (Decidable (_ ∧ _))

theorem has_mk {s n i : Nat} : Has ⟨s, n⟩ i ↔ s ≤ i ∧ i < s + n := Iff.rfl

theorem not_has_zero {s i : Nat} : ¬ Has ⟨s, 0⟩ i := by
  rw [has_mk]
  omega

theorem has_succ {s n i : Nat} : Has ⟨s, n + 1⟩ i ↔ i = s + n ∨ Has ⟨s, n⟩ i := by
  rw [has_mk, has_mk]
  omega

def Apart (b c : Block) : Prop := b.start + b.size ≤ c.start ∨ c.start + c.size ≤ b.start

theorem Apart.symm {b c : Block} (h : b.Apart c) : c.Apart b := Or.symm h

theorem Apart.not_has {b c : Block} (h : b.Apart c) {i : Nat} (hb : b.Has i) : ¬ c.Has i := by
  unfold Apart at h
  unfold Has at hb ⊢
  omega

end Block

/-- A cell of one of the blocks. -/
def Covered (bs : List Block) (i : Nat) : Prop := ∃ b ∈ bs, b.Has i

/-- Blocks of some of `n` cells. -/
structure Pool (n : Nat) (bs : List Block) : Prop where
  apart : bs.Pairwise Block.Apart
  pos : ∀ b ∈ bs, 0 < b.size
  fits : ∀ b ∈ bs, b.start + b.size ≤ n

section Pool

variable {n : Nat} {bs : List Block} {b : Block} {i : Nat}

theorem covered_cons : Covered (b :: bs) i ↔ b.Has i ∨ Covered bs i := by
  simp only [Covered, List.mem_cons, or_and_right, exists_or, exists_eq_left]

theorem Pool.nil (n : Nat) : Pool n [] :=
  ⟨List.Pairwise.nil, fun _ h => absurd h List.not_mem_nil, fun _ h => absurd h List.not_mem_nil⟩

/-- A block at a gap. -/
theorem Pool.cons (h : Pool n bs) (hpos : 0 < b.size) (hgap : Gap (Covered bs) n b.size b.start) :
    Pool n (b :: bs) := by
  refine ⟨List.pairwise_cons.2 ⟨fun c hc => ?_, h.apart⟩, ?_, ?_⟩
  · -- the first cell of the one is not in the other, and the other way round
    have hcpos := h.pos c hc
    by_contra hnot
    unfold Block.Apart at hnot
    have hmax : c.Has (max b.start c.start) := by
      unfold Block.Has
      omega
    exact hgap.2 (max b.start c.start) (by omega) (by omega) ⟨c, hc, hmax⟩
  · intro c hc
    rcases List.mem_cons.1 hc with rfl | hc
    · exact hpos
    · exact h.pos c hc
  · intro c hc
    rcases List.mem_cons.1 hc with rfl | hc
    · exact hgap.1
    · exact h.fits c hc

theorem Pool.tail (h : Pool n (b :: bs)) : Pool n bs :=
  ⟨(List.pairwise_cons.1 h.apart).2, fun c hc => h.pos c (List.mem_cons_of_mem b hc),
    fun c hc => h.fits c (List.mem_cons_of_mem b hc)⟩

/-- The order of the blocks does not matter. -/
theorem Pool.perm {cs : List Block} (h : Pool n bs) (hp : bs.Perm cs) : Pool n cs :=
  ⟨h.apart.perm hp Block.Apart.symm, fun c hc => h.pos c (hp.mem_iff.2 hc),
    fun c hc => h.fits c (hp.mem_iff.2 hc)⟩

theorem covered_perm {cs : List Block} (hp : bs.Perm cs) : Covered bs i ↔ Covered cs i := by
  constructor
  · rintro ⟨b, hb, hi⟩
    exact ⟨b, hp.mem_iff.1 hb, hi⟩
  · rintro ⟨b, hb, hi⟩
    exact ⟨b, hp.mem_iff.2 hb, hi⟩

/-- Without its first block a pool covers the cells of the others. -/
theorem Pool.covered_tail (h : Pool n (b :: bs)) :
    Covered bs i ↔ Covered (b :: bs) i ∧ ¬ b.Has i := by
  rw [covered_cons]
  constructor
  · rintro ⟨c, hc, hi⟩
    have hap := (List.pairwise_cons.1 h.apart).1 c hc
    exact ⟨Or.inr ⟨c, hc, hi⟩, hap.symm.not_has hi⟩
  · rintro ⟨hi | hi, hb⟩
    · exact absurd hi hb
    · exact hi

end Pool

end MiniKvm
