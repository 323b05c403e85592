import Mathlib.Logic.Function.Basic
import Mathlib.Data.List.Basic

/-!
# Radix trees in a store

A store gives every node an array of slots. A slot holds a word: the zero word,
a link to another node or, at the bottom, a leaf. `reach` and `lookup` follow
the indices of a path from a node on.

`Holds` says which tree is in the store: `node` has the node at the end of each
path and `leaf` the words at the bottom, by the path's indices from the last to
the first, so that the children of `p` are the `i :: p`. A tree grows by a link
to a fresh node (`Holds.grow`) and gets a leaf (`Holds.put`); what a walk finds
is what `leaf` has (`Holds.lookup_eq`).
-/
namespace MiniKvm.Radix

/-- The words of a tree, and the addresses that a link can carry. -/
structure Format (A W : Type*) where
  zero : W
  valid : W → Bool
  link : A → W
  child : W → A
  Fits : A → Prop
  not_valid_zero : valid zero = false
  valid_link : ∀ a, Fits a → valid (link a) = true
  child_link : ∀ a, Fits a → child (link a) = a

variable {A I W : Type*}

/-- The node at the end of a path. -/
def reach (f : Format A W) (slot : A → I → W) : A → List I → Option A
  | a, [] => some a
  | a, i :: is => if f.valid (slot a i) then reach f slot (f.child (slot a i)) is else none

/-- The word at the end of a path and one index more. -/
def lookup (f : Format A W) (slot : A → I → W) (a : A) (is : List I) (i : I) : Option W :=
  (reach f slot a is).bind fun b => if f.valid (slot b i) then some (slot b i) else none

/-- The store has the tree of `node` and `leaf`, `depth` nodes deep. -/
structure Holds (f : Format A W) (slot : A → I → W) (depth : Nat) (root : A)
    (node : List I → Option A) (leaf : List I → Option W) : Prop where
  root : node [] = some root
  fits : ∀ p a, node p = some a → f.Fits a
  closed : ∀ p i, node p = none → node (i :: p) = none
  leafClosed : ∀ p i, node p = none → leaf (i :: p) = none
  inj : ∀ p q a, node p = some a → node q = some a → p = q
  short : ∀ p a, node p = some a → p.length < depth
  inner : ∀ p a i, node p = some a → p.length + 1 < depth →
    slot a i = ((node (i :: p)).map f.link).getD f.zero
  bottom : ∀ p a i, node p = some a → p.length + 1 = depth → slot a i = (leaf (i :: p)).getD f.zero
  valid : ∀ p w, leaf p = some w → f.valid w = true

section Update

variable {K V : Type*} [DecidableEq K] {g : K → Option V} {k q : K} {v c : V}

theorem update_eq_some (h : Function.update g k (some v) q = some c) :
    q = k ∧ v = c ∨ q ≠ k ∧ g q = some c := by
  by_cases hq : q = k
  · rw [hq, Function.update_self] at h
    exact Or.inl ⟨hq, Option.some.inj h⟩
  · rw [Function.update_of_ne hq] at h
    exact Or.inr ⟨hq, h⟩

theorem update_eq_none (h : Function.update g k (some v) q = none) : q ≠ k ∧ g q = none := by
  by_cases hq : q = k
  · rw [hq, Function.update_self] at h
    cases h
  · rw [Function.update_of_ne hq] at h
    exact ⟨hq, h⟩

end Update

section Paths

variable {node : List I → Option A} {p q : List I} {a c : A} {i j : I}

/-- Different slots are at the ends of different paths. -/
theorem path_ne (h : node p = some a) (hq : node q = some c) (hslot : ¬ (c = a ∧ j = i)) :
    j :: q ≠ i :: p := by
  intro heq
  injection heq with hj hqp
  rw [hqp, h] at hq
  exact hslot ⟨(Option.some.inj hq).symm, hj⟩

/-- The slots of a node are not at the end of a path that leads to none. -/
theorem path_ne_of_none (h : node p = some a) (hq : node q = none) : j :: q ≠ i :: p := by
  intro heq
  injection heq with _ hqp
  rw [hqp, h] at hq
  cases hq

end Paths

namespace Holds

variable {f : Format A W} {slot slot' : A → I → W} {depth : Nat} {root : A}
  {node : List I → Option A} {leaf : List I → Option W}

/-! ## Walks -/

theorem slot_of_child (h : Holds f slot depth root node leaf) {p : List I} {a b : A} {i : I}
    (ha : node p = some a) (hp : p.length + 1 < depth) (hb : node (i :: p) = some b) :
    f.valid (slot a i) = true ∧ f.child (slot a i) = b := by
  have hslot := h.inner p a i ha hp
  rw [hb] at hslot
  rw [hslot]
  exact ⟨f.valid_link b (h.fits _ b hb), f.child_link b (h.fits _ b hb)⟩

theorem slot_of_none (h : Holds f slot depth root node leaf) {p : List I} {a : A} {i : I}
    (ha : node p = some a) (hp : p.length + 1 < depth) (hb : node (i :: p) = none) :
    f.valid (slot a i) = false := by
  have hslot := h.inner p a i ha hp
  rw [hb] at hslot
  rw [hslot]
  exact f.not_valid_zero

/-- No node lies behind a path that leads to none. -/
theorem none_append (h : Holds f slot depth root node leaf) {p : List I} (hp : node p = none)
    (is : List I) : node (is ++ p) = none := by
  induction is with
  | nil => exact hp
  | cons i is ih => exact h.closed _ i ih

theorem reach_append (h : Holds f slot depth root node leaf) (is : List I) {p : List I} {a : A}
    (ha : node p = some a) (hp : p.length + is.length < depth) :
    reach f slot a is = node (is.reverse ++ p) := by
  induction is generalizing p a with
  | nil => exact ha.symm
  | cons i is ih =>
    rw [List.length_cons] at hp
    rw [List.reverse_cons, List.append_assoc, List.singleton_append, reach]
    cases hb : node (i :: p) with
    | none => rw [h.slot_of_none ha (by omega) hb, h.none_append hb, if_neg (by decide)]
    | some b =>
      obtain ⟨hvalid, hchild⟩ := h.slot_of_child ha (by omega) hb
      rw [if_pos hvalid, hchild]
      exact ih hb (by rw [List.length_cons]; omega)

/-- A walk from the root finds the node of its path. -/
theorem reach_eq (h : Holds f slot depth root node leaf) {is : List I} (his : is.length < depth) :
    reach f slot root is = node is.reverse := by
  have hreach := h.reach_append is h.root (by rw [List.length_nil]; omega)
  rwa [List.append_nil] at hreach

/-- And a walk to the bottom the leaf. -/
theorem lookup_eq (h : Holds f slot depth root node leaf) {is : List I} (i : I)
    (his : is.length + 1 = depth) : lookup f slot root is i = leaf (i :: is.reverse) := by
  rw [lookup, h.reach_eq (by omega)]
  cases ha : node is.reverse with
  | none => exact (h.leafClosed _ i ha).symm
  | some a =>
    have hslot := h.bottom _ a i ha (by rw [List.length_reverse]; exact his)
    cases hw : leaf (i :: is.reverse) with
    | none =>
      rw [hw] at hslot
      rw [Option.bind_some, hslot]
      exact if_neg (by rw [Option.getD_none, f.not_valid_zero]; decide)
    | some w =>
      rw [hw] at hslot
      rw [Option.bind_some, hslot]
      exact if_pos (h.valid _ w hw)

/-! ## Changes -/

/-- A root whose slots are zero is the tree of nothing. -/
theorem empty [DecidableEq I] (hzero : ∀ i, slot root i = f.zero) (hfits : f.Fits root)
    (hdepth : 0 < depth) :
    Holds f slot depth root (Function.update (fun _ => none) [] (some root)) fun _ => none := by
  have hnode : ∀ p a, Function.update (fun _ => none) ([] : List I) (some root) p = some a →
      p = [] ∧ root = a := by
    intro p a hp
    rcases update_eq_some hp with hroot | ⟨-, hp⟩
    · exact hroot
    · cases hp
  have hcons : ∀ (i : I) (p : List I),
      Function.update (fun _ => none) ([] : List I) (some root) (i :: p) = none :=
    fun i p => Function.update_of_ne (List.cons_ne_nil i p) _ _
  refine ⟨Function.update_self _ _ _, ?_, fun p i _ => hcons i p, fun _ _ _ => rfl, ?_, ?_, ?_, ?_,
    ?_⟩
  · rintro p a hp
    obtain ⟨-, rfl⟩ := hnode p a hp
    exact hfits
  · rintro p q a hp hq
    rw [(hnode p a hp).1, (hnode q a hq).1]
  · rintro p a hp
    rw [(hnode p a hp).1]
    exact hdepth
  · rintro p a i hp -
    obtain ⟨-, rfl⟩ := hnode p a hp
    rw [hcons]
    exact hzero i
  · rintro p a i hp -
    obtain ⟨-, rfl⟩ := hnode p a hp
    exact hzero i
  · rintro p w hw
    cases hw

/-- A link to a fresh node whose slots are zero. -/
theorem grow [DecidableEq I] (h : Holds f slot depth root node leaf) {p : List I} {a b : A} {i : I}
    (ha : node p = some a) (hp : p.length + 1 < depth) (hi : node (i :: p) = none)
    (hfits : f.Fits b) (hfresh : ∀ q, node q ≠ some b) (hlink : slot' a i = f.link b)
    (hzero : ∀ j, slot' b j = f.zero)
    (hframe : ∀ q c j, node q = some c → ¬ (c = a ∧ j = i) → slot' c j = slot c j) :
    Holds f slot' depth root (Function.update node (i :: p) (some b)) leaf := by
  -- below the new node there is nothing
  have hbelow : ∀ j, Function.update node (i :: p) (some b) (j :: i :: p) = none := by
    intro j
    have hne : j :: i :: p ≠ i :: p := List.cons_ne_self j (i :: p)
    rw [Function.update_of_ne hne]
    exact h.closed _ j hi
  refine ⟨?_, ?_, ?_, ?_, ?_, ?_, ?_, ?_, h.valid⟩
  · rw [Function.update_of_ne (List.cons_ne_nil i p).symm]
    exact h.root
  · intro q c hq
    rcases update_eq_some hq with ⟨-, rfl⟩ | ⟨-, hq⟩
    · exact hfits
    · exact h.fits q c hq
  · intro q j hq
    obtain ⟨-, hq⟩ := update_eq_none hq
    rw [Function.update_of_ne (path_ne_of_none ha hq)]
    exact h.closed q j hq
  · intro q j hq
    exact h.leafClosed q j (update_eq_none hq).2
  · intro q r c hq hr
    rcases update_eq_some hq with ⟨rfl, rfl⟩ | ⟨-, hq⟩
    · rcases update_eq_some hr with ⟨rfl, -⟩ | ⟨-, hr⟩
      · rfl
      · exact absurd hr (hfresh r)
    · rcases update_eq_some hr with ⟨-, rfl⟩ | ⟨-, hr⟩
      · exact absurd hq (hfresh q)
      · exact h.inj q r c hq hr
  · intro q c hq
    rcases update_eq_some hq with ⟨rfl, -⟩ | ⟨-, hq⟩
    · exact hp
    · exact h.short q c hq
  · intro q c j hq hlen
    rcases update_eq_some hq with ⟨rfl, rfl⟩ | ⟨-, hqc⟩
    · rw [hbelow, hzero]
      rfl
    · by_cases hslot : c = a ∧ j = i
      · obtain ⟨rfl, rfl⟩ := hslot
        rw [h.inj q p c hqc ha, Function.update_self, hlink]
        rfl
      · rw [hframe q c j hqc hslot, Function.update_of_ne (path_ne ha hqc hslot)]
        exact h.inner q c j hqc hlen
  · intro q c j hq hlen
    rcases update_eq_some hq with ⟨rfl, rfl⟩ | ⟨-, hq⟩
    · rw [h.leafClosed _ j hi, hzero]
      rfl
    · have hslot : ¬ (c = a ∧ j = i) := by
        rintro ⟨rfl, -⟩
        rw [h.inj q p c hq ha] at hlen
        omega
      rw [hframe q c j hq hslot]
      exact h.bottom q c j hq hlen

/-- A leaf at the bottom. -/
theorem put [DecidableEq I] (h : Holds f slot depth root node leaf) {p : List I} {a : A} {i : I}
    {w : W} (ha : node p = some a) (hp : p.length + 1 = depth) (hw : f.valid w = true)
    (hleaf : slot' a i = w)
    (hframe : ∀ q c j, node q = some c → ¬ (c = a ∧ j = i) → slot' c j = slot c j) :
    Holds f slot' depth root node (Function.update leaf (i :: p) (some w)) := by
  refine ⟨h.root, h.fits, h.closed, ?_, h.inj, h.short, ?_, ?_, ?_⟩
  · intro q j hq
    rw [Function.update_of_ne (path_ne_of_none ha hq)]
    exact h.leafClosed q j hq
  · intro q c j hq hlen
    have hslot : ¬ (c = a ∧ j = i) := by
      rintro ⟨rfl, -⟩
      rw [h.inj q p c hq ha] at hlen
      omega
    rw [hframe q c j hq hslot]
    exact h.inner q c j hq hlen
  · intro q c j hq hlen
    by_cases hslot : c = a ∧ j = i
    · obtain ⟨rfl, rfl⟩ := hslot
      rw [h.inj q p c hq ha, Function.update_self, hleaf]
      rfl
    · rw [hframe q c j hq hslot, Function.update_of_ne (path_ne ha hq hslot)]
      exact h.bottom q c j hq hlen
  · intro q v hv
    rcases update_eq_some hv with ⟨-, rfl⟩ | ⟨-, hv⟩
    · exact hw
    · exact h.valid q v hv

/-- Only the slots of the nodes count. -/
theorem congr (h : Holds f slot depth root node leaf)
    (hslot : ∀ p a i, node p = some a → slot' a i = slot a i) :
    Holds f slot' depth root node leaf := by
  refine ⟨h.root, h.fits, h.closed, h.leafClosed, h.inj, h.short, ?_, ?_, h.valid⟩
  · intro p a i ha hp
    rw [hslot p a i ha]
    exact h.inner p a i ha hp
  · intro p a i ha hp
    rw [hslot p a i ha]
    exact h.bottom p a i ha hp

end Holds

end MiniKvm.Radix
