import Mathlib.Logic.Function.Basic

/-!
# Labelled transition systems

States, labels, finite runs and inductive invariants. `LTS.ofFn` builds a
system from a partial step function; an invariant that holds initially and
survives every step holds of every reachable state (`Inductive.reachable`).
-/
namespace MiniKvm

universe u v

structure LTS (S : Type u) (L : Type v) where
  init : S → Prop
  step : S → L → S → Prop

namespace LTS

variable {S : Type u} {L : Type v}

/-- The system of a partial step function: `none` = the label is not enabled. -/
def ofFn (init : S → Prop) (f : S → L → Option S) : LTS S L where
  init := init
  step s l s' := f s l = some s'

inductive Run (M : LTS S L) : S → List L → S → Prop
  | nil (s : S) : Run M s [] s
  | cons {s s' s'' : S} {l : L} {ls : List L} :
      M.step s l s' → Run M s' ls s'' → Run M s (l :: ls) s''

def Reachable (M : LTS S L) (s : S) : Prop := ∃ s0 ls, M.init s0 ∧ M.Run s0 ls s

/-- `I` holds initially and every step keeps it. -/
structure Inductive (M : LTS S L) (I : S → Prop) : Prop where
  init : ∀ s, M.init s → I s
  step : ∀ s l s', I s → M.step s l s' → I s'

theorem Run.append {M : LTS S L} {a b c : S} {l1 l2 : List L} (h1 : M.Run a l1 b)
    (h2 : M.Run b l2 c) : M.Run a (l1 ++ l2) c := by
  induction h1 with
  | nil => exact h2
  | cons hs _ ih => exact .cons hs (ih h2)

theorem Run.keeps {M : LTS S L} {I : S → Prop} (hI : ∀ s l s', I s → M.step s l s' → I s')
    {s s' : S} {ls : List L} (hr : M.Run s ls s') (h : I s) : I s' := by
  induction hr with
  | nil => exact h
  | cons hs _ ih => exact ih (hI _ _ _ h hs)

theorem Inductive.reachable {M : LTS S L} {I : S → Prop} (hI : M.Inductive I) (s : S)
    (h : M.Reachable s) : I s := by
  obtain ⟨s0, ls, h0, hr⟩ := h
  exact hr.keeps hI.step (hI.init s0 h0)

/-! ### Paths

A run with its states: the labels, each with the state it leads to. -/

def Path (M : LTS S L) : S → List (L × S) → Prop
  | _, [] => True
  | s, (l, s') :: ps => M.step s l s' ∧ Path M s' ps

/-- Every step of the path satisfies `R`. -/
def OnPath (R : S → L → S → Prop) : S → List (L × S) → Prop
  | _, [] => True
  | s, (l, s') :: ps => R s l s' ∧ OnPath R s' ps

/-- Two properties that steps from states of the invariant have together, paths have together. -/
theorem Path.onPath_iff {M : LTS S L} {I : S → Prop} {R C : S → L → S → Prop}
    (hI : ∀ s l s', I s → M.step s l s' → I s') (hR : ∀ s l s',
      I s → M.step s l s' → (R s l s' ↔ C s l s'))
    {s : S} {ps : List (L × S)} (hp : M.Path s ps) (h : I s) : OnPath R s ps ↔ OnPath C s ps := by
  induction ps generalizing s with
  | nil => exact Iff.rfl
  | cons p ps ih =>
    obtain ⟨hs, hps⟩ := hp
    exact and_congr (hR _ _ _ h hs) (ih hps (hI _ _ _ h hs))

/-- The state between two parts of a path, with what the steps of the first part keep. -/
theorem Path.behind {M : LTS S L} {I : S → Prop} {s : S} {ps qs : List (L × S)}
    (hI : ∀ s, ∀ p ∈ ps, I s → M.step s p.1 p.2 → I p.2) (hp : M.Path s (ps ++ qs)) (h : I s) :
    ∃ t, I t ∧ M.Path t qs := by
  induction ps generalizing s with
  | nil => exact ⟨s, h, hp⟩
  | cons p ps ih =>
    obtain ⟨hs, hps⟩ := hp
    exact ih (fun s q hq => hI s q (List.mem_cons_of_mem p hq)) hps
      (hI s p List.mem_cons_self h hs)

end LTS

end MiniKvm
