import MiniKvm.Core.Lts

/-!
# Runs of a total step function

`after f s os` is the state after the operations `os`. `Along f C s os` says
that each operation meets `C`, a condition on it and the state it starts in;
`Throughout f P s os` says that `P` holds in every state of the run.

When one step keeps `P` exactly under `C`, a run keeps `P` throughout exactly
when `C` holds along it (`throughout_iff_along`). `own i` are the events of
one party in a run of several.
-/
namespace MiniKvm

variable {S O : Type}

def after (f : S → O → S) : S → List O → S
  | s, [] => s
  | s, o :: os => after f (f s o) os

def Along (f : S → O → S) (C : S → O → Prop) : S → List O → Prop
  | _, [] => True
  | s, o :: os => C s o ∧ Along f C (f s o) os

def Throughout (f : S → O → S) (P : S → Prop) : S → List O → Prop
  | s, [] => P s
  | s, o :: os => P s ∧ Throughout f P (f s o) os

variable {f : S → O → S} {C : S → O → Prop} {P I : S → Prop}

@[simp] theorem after_nil (s : S) : after f s [] = s := rfl

@[simp] theorem after_cons (s : S) (o : O) (os : List O) :
    after f s (o :: os) = after f (f s o) os := rfl

theorem after_append (s : S) (os ps : List O) :
    after f s (os ++ ps) = after f (after f s os) ps := by
  induction os generalizing s with
  | nil => rfl
  | cons o os ih => exact ih (f s o)

theorem after_concat (s : S) (os : List O) (o : O) :
    after f s (os ++ [o]) = f (after f s os) o := after_append s os [o]

/-- An invariant of the step holds after every run. -/
theorem after_keeps (hI : ∀ s o, I s → I (f s o)) {s : S} (h : I s) (os : List O) :
    I (after f s os) := by
  induction os generalizing s with
  | nil => exact h
  | cons o os ih => exact ih (hI s o h)

/-- An invariant of the step holds in every state of a run. -/
theorem throughout_keeps (hI : ∀ s o, I s → I (f s o)) {s : S} (h : I s) (os : List O) :
    Throughout f I s os := by
  induction os generalizing s with
  | nil => exact h
  | cons o os ih => exact ⟨h, ih (hI s o h)⟩

/-- What holds of every step holds along every run. -/
theorem along_of_forall (h : ∀ s o, C s o) {s : S} (os : List O) : Along f C s os := by
  induction os generalizing s with
  | nil => trivial
  | cons o os ih => exact ⟨h s o, ih⟩

/-- `C` along the run, read at its steps. -/
theorem along_iff {s : S} {os : List O} :
    Along f C s os ↔ ∀ k (hk : k < os.length), C (after f s (os.take k)) os[k] := by
  induction os generalizing s with
  | nil => simp [Along]
  | cons o os ih =>
    simp only [Along, ih]
    constructor
    · rintro ⟨h0, h⟩ k hk
      cases k with
      | zero => exact h0
      | succ k => exact h k (by simpa using hk)
    · intro h
      exact ⟨h 0 (by simp), fun k hk => h (k + 1) (by simpa using hk)⟩

/-- `I` holds in every state, and under it one step keeps `P` exactly when it
meets `C`: then a run keeps `P` throughout exactly when `C` holds along it. -/
theorem throughout_iff_along (hI : ∀ s o, I s → I (f s o))
    (hP : ∀ s o, I s → P s → (P (f s o) ↔ C s o)) {s : S} (hi : I s) (hp : P s) (os : List O) :
    Throughout f P s os ↔ Along f C s os := by
  induction os generalizing s with
  | nil => exact ⟨fun _ => trivial, fun _ => hp⟩
  | cons o os ih =>
    have hs := hP s o hi hp
    constructor
    · rintro ⟨-, h⟩
      have hp' : P (f s o) := by cases os with
        | nil => exact h
        | cons _ _ => exact h.1
      exact ⟨hs.1 hp', (ih (hI s o hi) hp').1 h⟩
    · rintro ⟨hc, h⟩
      have hp' := hs.2 hc
      exact ⟨hp, (ih (hI s o hi) hp').2 h⟩

/-! ## Edges

A condition `A` on the states `0, 1, …` of a run and an event `p` of its steps
(step `k` leads from state `k` to state `k + 1`). -/

/-- Step `k` makes `A` true. -/
def Rise (A : Nat → Prop) (k : Nat) : Prop := ¬ A k ∧ A (k + 1)

/-- The event happened at or after the latest step before `k` that made `A` true. -/
def SinceRise (A p : Nat → Prop) (k : Nat) : Prop :=
  ∃ m < k, Rise A m ∧ (∀ j, m < j → j < k → ¬ Rise A j) ∧ ∃ j, m ≤ j ∧ j < k ∧ p j

theorem sinceRise_of_rises {A p : Nat → Prop} (h0 : ¬ A 0) {n : Nat} (h : ∀ k < n, Rise A k → p k) :
    ∀ k ≤ n, A k → SinceRise A p k := by
  intro k
  induction k with
  | zero => exact fun _ ha => absurd ha h0
  | succ k ih =>
    intro hk ha
    by_cases hb : A k
    · obtain ⟨m, hm, hr, hlast, j, hj1, hj2, hp⟩ := ih (by omega) hb
      refine ⟨m, by omega, hr, fun i hi1 hi2 => ?_, j, hj1, by omega, hp⟩
      rcases Nat.lt_succ_iff_lt_or_eq.1 hi2 with hlt | rfl
      · exact hlast i hi1 hlt
      · exact fun hri => hri.1 hb
    · exact ⟨k, by omega, ⟨hb, ha⟩, fun i hi1 hi2 => by omega, k, Nat.le_refl k, by omega,
        h k (by omega) ⟨hb, ha⟩⟩

/-- `A` never holds without the event since it became true, exactly when every
step that makes it true is such an event. -/
theorem sinceRise_iff {A p : Nat → Prop} (h0 : ¬ A 0) {n : Nat} :
    (∀ k ≤ n, A k → SinceRise A p k) ↔ ∀ k < n, Rise A k → p k := by
  refine ⟨fun h k hk hr => ?_, sinceRise_of_rises h0⟩
  obtain ⟨m, hm, hrm, hlast, j, hj1, hj2, hp⟩ := h (k + 1) hk hr.2
  have hmk : m = k := by
    by_contra hne
    exact hlast k (by omega) (by omega) hr
  have : j = k := by omega
  rwa [← this]

/-! ## Events of several parties -/

section Own

variable {ι α β : Type} [DecidableEq ι]

/-- The events of `i`. -/
def own (i : ι) (h : List (ι × α)) : List α := (h.filter fun p => p.1 = i).map Prod.snd

@[simp] theorem own_nil (i : ι) : own i ([] : List (ι × α)) = [] := rfl

theorem own_concat (i j : ι) (h : List (ι × α)) (a : α) :
    own i (h ++ [(j, a)]) = if j = i then own i h ++ [a] else own i h := by
  unfold own
  by_cases hj : j = i
  · simp [hj]
  · simp [hj]

end Own

end MiniKvm
