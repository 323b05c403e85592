import Mathlib.Algebra.Order.Ring.Nat
import Mathlib.Data.List.Basic

/-!
# Numerals of a fixed width

`positional b k v` are the `k` low digits of `v` in base `b`, most significant
first. A loop over the digits takes them from the left
(`positional_succ_left`), one by one (`positional_eq_map`). The numeral
`Nat.toDigits b v` is `positional` at its own length, and filled up with zeros
at any other.
-/
namespace MiniKvm

def positional (b : Nat) : Nat → Nat → List Char
  | 0, _ => []
  | k + 1, v => positional b k (v / b) ++ [Nat.digitChar (v % b)]

variable {b : Nat}

@[simp] theorem positional_length (k v : Nat) : (positional b k v).length = k := by
  induction k generalizing v with
  | zero => rfl
  | succ k ih => simp [positional, ih]

/-- The most significant digit, and the others. -/
theorem positional_succ_left (k v : Nat) :
    positional b (k + 1) v = Nat.digitChar (v / b ^ k % b) :: positional b k v := by
  induction k generalizing v with
  | zero => simp [positional]
  | succ k ih =>
    rw [positional, ih, List.cons_append, Nat.div_div_eq_div_mul, ← Nat.pow_succ']
    rfl

/-- Only the low digits count. -/
theorem positional_mod (k v : Nat) : positional b k (v % b ^ k) = positional b k v := by
  induction k generalizing v with
  | zero => rfl
  | succ k ih =>
    have hlow : v % b ^ (k + 1) % b = v % b := Nat.mod_mod_of_dvd v (Nat.dvd_mul_left b (b ^ k))
    have hhigh : v % b ^ (k + 1) / b = v / b % b ^ k := by
      rw [Nat.pow_succ', Nat.mod_mul_right_div_self]
    rw [positional, positional, hlow, hhigh, ih]

theorem positional_eq_map (k v : Nat) :
    positional b k v = (List.range k).reverse.map fun i => Nat.digitChar (v / b ^ i % b) := by
  induction k with
  | zero => rfl
  | succ k ih =>
    rw [positional_succ_left, ih, List.range_succ, List.reverse_append, List.reverse_singleton,
      List.map_append]
    rfl

/-- A number that has `k + 1` digits. -/
theorem toDigits_eq_positional (hb : 1 < b) {k v : Nat} (hlow : k = 0 ∨ b ^ k ≤ v)
    (hhigh : v < b ^ (k + 1)) : Nat.toDigits b v = positional b (k + 1) v := by
  induction k generalizing v with
  | zero =>
    have hv : v < b := by simpa using hhigh
    rw [Nat.toDigits_of_lt_base hv, positional_succ_left, Nat.pow_zero, Nat.div_one,
      Nat.mod_eq_of_lt hv]
    rfl
  | succ k ih =>
    have hpow : b ^ (k + 1) ≤ v := hlow.resolve_left (Nat.succ_ne_zero k)
    have hbase : b ≤ v := Nat.le_trans (Nat.le_self_pow (Nat.succ_ne_zero k) b) hpow
    have hlow' : b ^ k ≤ v / b := by
      rwa [Nat.le_div_iff_mul_le (by omega), ← Nat.pow_succ]
    have hhigh' : v / b < b ^ (k + 1) := by
      rwa [Nat.div_lt_iff_lt_mul (by omega), ← Nat.pow_succ]
    rw [Nat.toDigits_of_base_le hb hbase, ih (Or.inr hlow') hhigh']
    rfl

/-- A shorter number is filled up with zeros. -/
theorem positional_succ_of_lt {k v : Nat} (hv : v < b ^ k) :
    positional b (k + 1) v = '0' :: positional b k v := by
  rw [positional_succ_left, Nat.div_eq_of_lt hv, Nat.zero_mod]
  rfl

theorem leftpad_succ {α : Type*} {n : Nat} (a : α) {l : List α} (h : l.length ≤ n) :
    l.leftpad (n + 1) a = a :: l.leftpad n a := by
  rw [List.leftpad, Nat.succ_sub h, List.replicate_succ]
  rfl

theorem leftpad_toDigits (hb : 1 < b) {k v : Nat} (hv : v < b ^ (k + 1)) :
    (Nat.toDigits b v).leftpad (k + 1) '0' = positional b (k + 1) v := by
  have hfull : ∀ {k}, (k = 0 ∨ b ^ k ≤ v) → v < b ^ (k + 1) →
      (Nat.toDigits b v).leftpad (k + 1) '0' = positional b (k + 1) v := fun hlow hv => by
    rw [toDigits_eq_positional hb hlow hv, List.leftpad, positional_length, Nat.sub_self]
    rfl
  induction k with
  | zero => exact hfull (Or.inl rfl) hv
  | succ k ih =>
    rcases Nat.lt_or_ge v (b ^ (k + 1)) with hlt | hge
    · have hlen := (Nat.length_toDigits_le_iff hb (Nat.succ_pos k)).2 hlt
      rw [leftpad_succ '0' hlen, ih hlt, positional_succ_of_lt hlt]
    · exact hfull (Or.inr hge) hv

end MiniKvm
