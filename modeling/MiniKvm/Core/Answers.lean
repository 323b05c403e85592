import MiniKvm.Core.Trace

/-!
# Machines that answer

A machine takes an operation, answers it and goes to its next state; `answers`
are the answers of a run. Machines with other operations and other answers are
compared through `φ`, which translates the operations of the first for the
second, and `ψ`, which translates the answers back.

`Simulation.run`: machines whose steps agree from related states agree on every
run.
-/
namespace MiniKvm

variable {S T U O P Q A B C : Type}

/-- The answers of a run, in order. -/
def answers (f : S → O → A × S) : S → List O → List A
  | _, [] => []
  | s, o :: os => (f s o).1 :: answers f (f s o).2 os

/-- The state after a run. -/
def final (f : S → O → A × S) : S → List O → S := after fun s o => (f s o).2

@[simp] theorem final_nil (f : S → O → A × S) (s : S) : final f s [] = s := rfl

@[simp] theorem final_cons (f : S → O → A × S) (s : S) (o : O) (os : List O) :
    final f s (o :: os) = final f (f s o).2 os := rfl

/-- From related states `f` answers an operation as `g` does, and they go to
related states. -/
structure Simulation (f : S → O → A × S) (g : T → P → B × T) (φ : O → P) (ψ : B → A)
    (R : S → T → Prop) : Prop where
  answer : ∀ {s t}, R s t → ∀ o, (f s o).1 = ψ (g t (φ o)).1
  keep : ∀ {s t}, R s t → ∀ o, R (f s o).2 (g t (φ o)).2

namespace Simulation

variable {f : S → O → A × S} {g : T → P → B × T} {φ : O → P} {ψ : B → A} {R : S → T → Prop}

theorem run (h : Simulation f g φ ψ R) {s : S} {t : T} (hr : R s t) (os : List O) :
    answers f s os = (answers g t (os.map φ)).map ψ ∧ R (final f s os) (final g t (os.map φ)) := by
  induction os generalizing s t with
  | nil => exact ⟨rfl, hr⟩
  | cons o os ih =>
    obtain ⟨ha, hf⟩ := ih (h.keep hr o)
    refine ⟨?_, hf⟩
    rw [answers, List.map_cons, answers, List.map_cons, h.answer hr, ha]

/-- Simulations compose. -/
theorem comp {k : U → Q → C × U} {φ' : P → Q} {ψ' : C → B} {R' : T → U → Prop}
    (h : Simulation f g φ ψ R) (h' : Simulation g k φ' ψ' R') :
    Simulation f k (φ' ∘ φ) (ψ ∘ ψ') fun s u => ∃ t, R s t ∧ R' t u where
  answer := fun ⟨_, hr, hr'⟩ o => (h.answer hr o).trans (congrArg ψ (h'.answer hr' (φ o)))
  keep := fun ⟨_, hr, hr'⟩ o => ⟨_, h.keep hr o, h'.keep hr' (φ o)⟩

end Simulation

end MiniKvm
