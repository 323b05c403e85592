import Mathlib.Logic.Function.Basic

/-!
# Programs that return 0 or -1

A C function that changes a state and returns `-1` from the middle is an
`EStateM` program: `throw` is the early return, and the state it leaves behind
is kept. `wp x Q E s` says that `x`, started in `s`, ends in a state where
`Q` holds when it returns and `E` holds when it fails; the `wp_*` equations
compute it through every construct. What a program does not touch is shown
construct by construct (`Keeps`).
-/
namespace MiniKvm

variable {ε σ α β : Type}

def wp (x : EStateM ε σ α) (Q : α → σ → Prop) (E : ε → σ → Prop) (s : σ) : Prop :=
  match x s with
  | .ok a s' => Q a s'
  | .error e s' => E e s'

variable {Q : β → σ → Prop} {E : ε → σ → Prop} {s : σ}

@[simp] theorem wp_pure (b : β) : wp (pure b : EStateM ε σ β) Q E s ↔ Q b s := ⟨id, id⟩

@[simp] theorem wp_throw (e : ε) : wp (throw e : EStateM ε σ β) Q E s ↔ E e s := ⟨id, id⟩

@[simp] theorem wp_get {Q : σ → σ → Prop} : wp (get : EStateM ε σ σ) Q E s ↔ Q s s := ⟨id, id⟩

@[simp] theorem wp_set {Q : PUnit → σ → Prop} (t : σ) :
    wp (set t : EStateM ε σ PUnit) Q E s ↔ Q ⟨⟩ t := ⟨id, id⟩

@[simp] theorem wp_modify {Q : PUnit → σ → Prop} (f : σ → σ) :
    wp (modify f : EStateM ε σ PUnit) Q E s ↔ Q ⟨⟩ (f s) := ⟨id, id⟩

@[simp] theorem wp_bind (x : EStateM ε σ α) (f : α → EStateM ε σ β) :
    wp (x >>= f) Q E s ↔ wp x (fun a => wp (f a) Q E) E s := by
  show wp (EStateM.bind x f) Q E s ↔ _
  unfold wp EStateM.bind
  cases x s <;> exact Iff.rfl

@[simp] theorem wp_map {x : EStateM ε σ α} (f : α → β) :
    wp (f <$> x) Q E s ↔ wp x (fun a => Q (f a)) E s := by
  show wp (EStateM.map f x) Q E s ↔ _
  unfold wp EStateM.map
  cases x s <;> exact Iff.rfl

@[simp] theorem wp_ite (c : Prop) [Decidable c] (x y : EStateM ε σ β) :
    wp (if c then x else y) Q E s ↔ (c → wp x Q E s) ∧ (¬ c → wp y Q E s) := by
  split <;> simp_all

theorem wp_mono {x : EStateM ε σ β} {Q' : β → σ → Prop} {E' : ε → σ → Prop} (h : wp x Q E s)
    (hQ : ∀ b t, Q b t → Q' b t) (hE : ∀ e t, E e t → E' e t) : wp x Q' E' s := by
  unfold wp at *
  cases hx : x s with
  | ok b t => rw [hx] at h; exact hQ b t h
  | error e t => rw [hx] at h; exact hE e t h

theorem wp_and {x : EStateM ε σ β} {Q' : β → σ → Prop} {E' : ε → σ → Prop} (h : wp x Q E s)
    (h' : wp x Q' E' s) : wp x (fun b t => Q b t ∧ Q' b t) (fun e t => E e t ∧ E' e t) s := by
  unfold wp at *
  cases hx : x s with
  | ok b t => rw [hx] at h h'; exact ⟨h, h'⟩
  | error e t => rw [hx] at h h'; exact ⟨h, h'⟩

theorem wp_ok {x : EStateM ε σ β} (h : wp x Q E s) {b : β} {t : σ} (hx : x s = .ok b t) :
    Q b t := by
  unfold wp at h; rwa [hx] at h

theorem wp_error {x : EStateM ε σ β} (h : wp x Q E s) {e : ε} {t : σ} (hx : x s = .error e t) :
    E e t := by
  unfold wp at h; rwa [hx] at h

/-- A program that cannot fail returns. -/
theorem wp_succeeds {x : EStateM ε σ β} (h : wp x Q (fun _ _ => False) s) :
    ∃ b t, x s = .ok b t := by
  unfold wp at h
  cases hx : x s with
  | ok b t => exact ⟨b, t, rfl⟩
  | error e t => rw [hx] at h; exact h.elim

theorem wp_succeeds_iff {x : EStateM ε σ β} :
    wp x (fun _ _ => True) (fun _ _ => False) s ↔ ∃ b t, x s = .ok b t := by
  refine ⟨wp_succeeds, fun ⟨b, t, h⟩ => ?_⟩
  unfold wp
  rw [h]
  trivial

theorem bind_ok {x : EStateM ε σ α} {f : α → EStateM ε σ β} {a : α} {t : σ} (h : x s = .ok a t) :
    (x >>= f) s = f a t := by
  show EStateM.bind x f s = _
  unfold EStateM.bind
  rw [h]

/-- `for (i = 0; i < n; i++) body(i)`. -/
def loop (body : Nat → EStateM ε σ Unit) : Nat → EStateM ε σ Unit
  | 0 => pure ()
  | n + 1 => do
    loop body n
    body n

/-- The invariant rule: `I i` holds before turn `i`. -/
theorem wp_loop {body : Nat → EStateM ε σ Unit} (I : Nat → σ → Prop) {n : Nat} (h0 : I 0 s)
    (hstep : ∀ i t, i < n → I i t → wp (body i) (fun _ t' => I (i + 1) t') E t) :
    wp (loop body n) (fun _ t => I n t) E s := by
  induction n with
  | zero =>
    rw [loop, wp_pure]
    exact h0
  | succ n ih =>
    rw [loop, wp_bind]
    refine wp_mono (ih fun i t hi => hstep i t (by omega)) (fun _ t ht => ?_) fun _ _ h => h
    exact hstep n t (by omega) ht

/-- Where `x` returns from a state that has `P`, the state behind it has `P`. -/
def Keeps (P : σ → Prop) (x : EStateM ε σ α) : Prop :=
  ∀ s, P s → wp x (fun _ t => P t) (fun _ _ => True) s

section Keeps

variable {P : σ → Prop} {x y : EStateM ε σ α}

theorem Keeps.get : Keeps P (get : EStateM ε σ σ) := fun s h => (wp_get (s := s)).2 h

theorem Keeps.modify {f : σ → σ} (hf : ∀ s, P s → P (f s)) :
    Keeps P (modify f : EStateM ε σ PUnit) := fun s h => (wp_modify (s := s) f).2 (hf s h)

theorem Keeps.bind {f : α → EStateM ε σ β} (hx : Keeps P x) (hf : ∀ a, Keeps P (f a)) :
    Keeps P (x >>= f) := by
  intro s h
  rw [wp_bind]
  exact wp_mono (hx s h) (fun a t ht => hf a t ht) fun _ _ h => h

theorem Keeps.ite {c : Prop} [Decidable c] (hx : Keeps P x) (hy : Keeps P y) :
    Keeps P (if c then x else y) := by
  intro s h
  rw [wp_ite]
  exact ⟨fun _ => hx s h, fun _ => hy s h⟩

theorem Keeps.loop {body : Nat → EStateM ε σ Unit} {n : Nat} (hb : ∀ i, Keeps P (body i)) :
    Keeps P (loop body n) := by
  intro s h
  exact wp_loop (fun _ t => P t) h fun i t _ ht => hb i t ht

end Keeps

-- a loop is reasoned about by its invariant, not by unrolling it
attribute [irreducible] loop

/-- `x` returns from `s` with a result and in a state that `q` accepts. -/
def returns (x : EStateM ε σ α) (s : σ) (q : α → σ → Bool) : Bool :=
  match x s with
  | .ok a t => q a t
  | .error _ _ => false

theorem ok_of_returns {x : EStateM ε σ α} {q : α → σ → Bool} (h : returns x s q = true) :
    ∃ a t, x s = .ok a t ∧ q a t = true := by
  unfold returns at h
  cases hx : x s with
  | ok a t => rw [hx] at h; exact ⟨a, t, rfl, h⟩
  | error e t => rw [hx] at h; exact absurd h Bool.false_ne_true

end MiniKvm
