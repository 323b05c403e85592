import Mathlib.Data.List.Basic

/-!
# C strings and numerals

`cstring bs` is the string a C function reads from the bytes `bs`: all up to
the first NUL. `digits b k v` are the `k` low digits of `v` in base `b` as
characters, most significant first.
-/
namespace MiniKvm

def cstring : List UInt8 → List UInt8
  | [] => []
  | c :: cs => if c = 0 then [] else c :: cstring cs

theorem zero_not_mem_cstring (bs : List UInt8) : (0 : UInt8) ∉ cstring bs := by
  induction bs with
  | nil => simp [cstring]
  | cons c bs ih =>
    unfold cstring
    split
    · simp
    · rename_i hc
      simp [Ne.symm hc, ih]

/-- What is behind the NUL does not count. -/
theorem cstring_terminated {s : List UInt8} (h : (0 : UInt8) ∉ s) (rest : List UInt8) :
    cstring (s ++ 0 :: rest) = s := by
  induction s with
  | nil => simp [cstring]
  | cons c s ih =>
    obtain ⟨hc, hs⟩ := not_or.1 (mt List.mem_cons.2 h)
    simp [cstring, Ne.symm hc, ih hs]

/-- Bytes with a NUL in them are a string and a rest. -/
theorem cstring_split {bs : List UInt8} (h : (0 : UInt8) ∈ bs) :
    ∃ rest, bs = cstring bs ++ 0 :: rest := by
  induction bs with
  | nil => exact absurd h (by simp)
  | cons c bs ih =>
    unfold cstring
    split
    · rename_i hc
      exact ⟨bs, by rw [hc, List.nil_append]⟩
    · rename_i hc
      obtain ⟨rest, hrest⟩ := ih ((List.mem_cons.1 h).resolve_left (Ne.symm hc))
      exact ⟨rest, congrArg (c :: ·) hrest⟩

theorem cstring_length_lt {bs : List UInt8} (h : (0 : UInt8) ∈ bs) :
    (cstring bs).length < bs.length := by
  obtain ⟨rest, hrest⟩ := cstring_split h
  have hlen := congrArg List.length hrest
  rw [List.length_append, List.length_cons] at hlen
  omega

theorem cstring_append {bs : List UInt8} (h : (0 : UInt8) ∈ bs) (cs : List UInt8) :
    cstring (bs ++ cs) = cstring bs := by
  obtain ⟨rest, hrest⟩ := cstring_split h
  calc cstring (bs ++ cs) = cstring (cstring bs ++ 0 :: rest ++ cs) := by rw [← hrest]
    _ = cstring (cstring bs ++ 0 :: (rest ++ cs)) := by rw [List.append_assoc, List.cons_append]
    _ = cstring bs := cstring_terminated (zero_not_mem_cstring bs) _

/-- The character of a digit. -/
def digitChar (d : Nat) : UInt8 := UInt8.ofNat (d + 48)

def digits (b : Nat) : Nat → Nat → List UInt8
  | 0, _ => []
  | k + 1, v => digits b k (v / b) ++ [digitChar (v % b)]

@[simp] theorem digits_length (b k v : Nat) : (digits b k v).length = k := by
  induction k generalizing v with
  | zero => rfl
  | succ k ih => simp [digits, ih]

theorem digitChar_toNat {d : Nat} (h : d < 10) : (digitChar d).toNat = d + 48 := by
  rw [digitChar, UInt8.toNat_ofNat']
  omega

end MiniKvm
