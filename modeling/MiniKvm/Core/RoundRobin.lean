import Mathlib.Algebra.Order.Ring.Nat
import Mathlib.Data.List.FinRange
import Mathlib.Data.List.Rotate

/-!
# Round robin

A queue of participants, the one whose turn it was last at the end. A turn
goes to the first that is ready; those before it keep their places behind the
ones that have not been looked at (`Turn`). Who is ready stays the same during
a round.

The ready ones are then served in the order of the queue: a turn rotates the
queue of the ready ones by one (`Turn.filter`), so a round, one turn for each
of them, serves every one exactly once (`Turns.round`).

`ring c` is the queue over the slots of a table that a cyclic search from the
slot after `c` sees.
-/
namespace MiniKvm.RoundRobin

variable {α : Type*} {p : α → Prop} [DecidablePred p]

/-- `x` has its turn: the first of `q` that is ready. -/
inductive Turn (p : α → Prop) : List α → α → List α → Prop
  | mk {x : α} (skipped rest : List α) (hskip : ∀ a ∈ skipped, ¬ p a) (hx : p x) :
      Turn p (skipped ++ x :: rest) x (rest ++ (skipped ++ [x]))

/-- Turns one after the other. -/
inductive Turns (p : α → Prop) : List α → List α → List α → Prop
  | nil (q : List α) : Turns p q [] q
  | cons {q q' q'' : List α} {x : α} {xs : List α} :
      Turn p q x q' → Turns p q' xs q'' → Turns p q (x :: xs) q''

/-- A search finds the next turn. -/
theorem turn_of_find {q : List α} {x : α} (h : q.find? (fun a => p a) = some x) :
    ∃ q', Turn p q x q' := by
  obtain ⟨hx, as, bs, hq, hskip⟩ := List.find?_eq_some_iff_append.1 h
  rw [hq]
  exact ⟨_, .mk as bs (fun a ha => by simpa using hskip a ha) (by simpa using hx)⟩

/-- The ready ones, in the order of the queue, before and after a turn. -/
theorem Turn.filter {q q' : List α} {x : α} (h : Turn p q x q') :
    ∃ ys, q.filter (fun a => p a) = x :: ys ∧ q'.filter (fun a => p a) = ys ++ [x] := by
  cases h with
  | mk skipped rest hskip hx =>
    have hnone : skipped.filter (fun a => p a) = [] :=
      List.filter_eq_nil_iff.2 fun a ha => by simpa using hskip a ha
    exact ⟨rest.filter fun a => p a, by simp [hnone, hx], by simp [hnone, hx]⟩

/-- The first turns of a round are those of the ready ones in the order of the queue. -/
theorem Turns.first_turns {q q' xs : List α} (h : Turns p q xs q')
    (hle : xs.length ≤ (q.filter fun a => p a).length) : xs <+: q.filter fun a => p a := by
  suffices ∀ ys zs, q.filter (fun a => p a) = ys ++ zs → xs.length ≤ ys.length → xs <+: ys by
    exact this _ [] (List.append_nil _).symm hle
  clear hle
  induction h with
  | nil => exact fun _ _ _ _ => List.nil_prefix
  | @cons _ _ _ x _ hturn _ ih =>
    -- `zs` collects those that have had their turn
    intro ys zs hq hle
    obtain ⟨rest, h1, h2⟩ := hturn.filter
    cases ys with
    | nil => exact absurd hle (by simp)
    | cons y ys =>
      rw [h1, List.cons_append, List.cons.injEq] at hq
      obtain ⟨rfl, hrest⟩ := hq
      refine (List.prefix_cons_inj _).2 (ih ys (zs ++ [x]) ?_ (by simpa using hle))
      rw [h2, hrest, List.append_assoc]

/-- A round: one turn for each that is ready. -/
theorem Turns.round {q q' xs : List α} (h : Turns p q xs q')
    (hlen : xs.length = (q.filter fun a => p a).length) : xs = q.filter fun a => p a :=
  (h.first_turns (Nat.le_of_eq hlen)).eq_of_length hlen

section Ring

variable {n : Nat}

/-- The slots after `c`, then those before it, then `c`. -/
def ring (c : Fin n) : List (Fin n) := (List.finRange n).rotate (c + 1)

theorem mem_ring (c i : Fin n) : i ∈ ring c := List.mem_rotate.2 (List.mem_finRange i)

theorem nodup_ring (c : Fin n) : (ring c).Nodup := List.nodup_rotate.2 (List.nodup_finRange n)

/-- The ring of the slot a search stops at is what its turn leaves. -/
theorem ring_split {c x : Fin n} {skipped rest : List (Fin n)}
    (h : ring c = skipped ++ x :: rest) : ring x = rest ++ (skipped ++ [x]) := by
  have hlen : (skipped ++ [x]).length = skipped.length + 1 := by simp
  have hrot : (ring c).rotate (skipped.length + 1) = rest ++ (skipped ++ [x]) := by
    rw [h, List.append_cons, ← hlen, List.rotate_append_length_eq]
  have hk : skipped.length < (ring c).length := by
    rw [h]
    simp
  have hx : (ring c)[skipped.length] = x := by simp [h]
  have hval : x.val = (skipped.length + (c + 1)) % n := by
    rw [← hx]
    simp [ring, List.getElem_rotate]
  rw [← hrot, ring, ring, List.rotate_rotate, ← List.rotate_mod _ (x + 1),
    ← List.rotate_mod _ (c + 1 + (skipped.length + 1)), List.length_finRange, hval,
    Nat.mod_add_mod]
  congr 2
  omega

theorem ring_turn {p : Fin n → Prop} {c x : Fin n} {q : List (Fin n)} (h : Turn p (ring c) x q) :
    q = ring x := by
  generalize hr : ring c = r at h
  cases h with
  | mk skipped rest _ _ => exact (ring_split hr).symm

/-- The ring, as the indices of a search. -/
theorem ring_eq [NeZero n] (c : Fin n) :
    ring c = (List.range n).map fun k => Fin.ofNat n (c + 1 + k) := by
  refine List.ext_getElem (by simp [ring]) fun k h1 h2 => ?_
  apply Fin.ext
  simp [ring, List.getElem_rotate, Nat.add_comm]

end Ring

end MiniKvm.RoundRobin
