import Mathlib.Data.List.Basic

/-!
# Counting loops

`forLoop` is `for (int i = first; cond; i++)` with a body that changes the
variables `s` of the loop and writes. Its rule (`forLoop_eq`) takes the values
of the variables at the top of turn `i` and what that turn writes, both as
functions of `i`.
-/
namespace MiniKvm

variable {σ ω : Type*}

/-- `n` bounds the turns. -/
def forLoop (cond : Int32 → Bool) (body : Int32 → σ → Option (σ × List ω)) :
    Nat → Int32 → σ → Option (σ × List ω)
  | 0, _, _ => none
  | n + 1, i, s =>
    if cond i then
      (body i s).bind fun p => (forLoop cond body n (i + 1) p.1).map fun q => (q.1, p.2 ++ q.2)
    else some (s, [])

/-- The loop stops in front of `a + k`, and its writes stand one behind the other. -/
theorem forLoop_eq {c : Int32 → Bool} {b : Int32 → σ → Option (σ × List ω)} {f : Nat → σ}
    {g : Nat → List ω} {n k a : Nat} (hn : k < n)
    (hcond : ∀ i, a ≤ i → i < a + k → c (Int32.ofNat i) = true)
    (hstop : c (Int32.ofNat (a + k)) = false)
    (hbody : ∀ i, a ≤ i → i < a + k →
      b (Int32.ofNat i) (f i) = some (f (i + 1), g i)) :
    forLoop c b n (Int32.ofNat a) (f a) =
      some (f (a + k), (List.range' a k).flatMap g) := by
  induction k generalizing n a with
  | zero =>
    obtain ⟨n, rfl⟩ := Nat.exists_eq_succ_of_ne_zero (Nat.ne_of_gt hn)
    rw [Nat.add_zero] at hstop
    rw [forLoop, hstop]
    rfl
  | succ k ih =>
    obtain ⟨n, rfl⟩ := Nat.exists_eq_succ_of_ne_zero (show n ≠ 0 by omega)
    have hnext : Int32.ofNat a + 1 = Int32.ofNat (a + 1) := (Int32.ofNat_add _ _).symm
    have hsum : a + (k + 1) = a + 1 + k := by omega
    rw [hsum] at hcond hstop hbody
    have hrest := ih (n := n) (a := a + 1) (by omega)
      (fun i hlow hhigh => hcond i (by omega) hhigh) hstop
      fun i hlow hhigh => hbody i (by omega) hhigh
    rw [forLoop, if_pos (hcond a (Nat.le_refl _) (by omega)),
      hbody a (Nat.le_refl _) (by omega), Option.bind_some, hnext, hrest, hsum]
    rfl

end MiniKvm
