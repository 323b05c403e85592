import MiniKvm.Core.Bytes
import MiniKvm.Core.Numeral
import MiniKvm.Vmm.Devices

/-!
# printf

`printf` of the 1K OS (os-1k/common.c), up to the characters it passes to
`putchar`. A format is a list of pieces, each with the argument it takes;
`Format.rendered` is the text it stands for, and every string is a format
(`exists_format`).

The loops are bounded by a number of turns, `n`; from some `n` on `printf`
returns (`printf_renders`).
-/
namespace MiniKvm.Os1k

open Vmm (ascii decInt hex)

/-! ## The source -/

/-- `while (*s) { putchar(*s); s++; }`. -/
def putString (m : Mem) : Nat → Nat → Option (List UInt8)
  | 0, _ => none
  | n + 1, s => if m s = 0 then some [] else (putString m n (s + 1)).map (m s :: ·)

/-- `while (magnitude / divisor > 9) divisor *= 10;`. Besides a division by zero,
a product that does not fit has no result here; the machine would go on with the rest of it. -/
def growDivisor (magnitude : UInt32) : Nat → UInt32 → Option UInt32
  | 0, _ => none
  | n + 1, divisor =>
    if divisor = 0 then none
    else if magnitude / divisor > 9 then
      if divisor.toNat * 10 < 2 ^ 32 then growDivisor magnitude n (divisor * 10) else none
    else some divisor

/-- `while (divisor > 0) { .. }`. -/
def putDigits : Nat → UInt32 → UInt32 → Option (List UInt8)
  | 0, _, _ => none
  | n + 1, magnitude, divisor =>
    if divisor > 0 then
      (putDigits n (magnitude % divisor) (divisor / 10)).map
        ((48 + magnitude / divisor).toUInt8 :: ·)
    else some []

/-- mirrors kvm-vmm-x86/os-1k/common.c:60-79 -/
def putInt (n : Nat) (value : Int32) : Option (List UInt8) :=
  let magnitude := if value < 0 then -value.toUInt32 else value.toUInt32
  let sign := if value < 0 then ascii "-" else []
  (growDivisor magnitude n 1).bind fun divisor =>
    (putDigits n magnitude divisor).map (sign ++ ·)

/-- mirrors kvm-vmm-x86/os-1k/common.c:80-86 -/
def putHex (value : UInt32) : List UInt8 :=
  (List.range 8).reverse.map fun i =>
    let nibble := (value >>> UInt32.ofNat (i * 4)) &&& 0xf
    (ascii "0123456789abcdef").getD nibble.toNat 0

/-- The `switch`, and the arguments it leaves. A character that is no conversion
prints nothing; an argument that is not there has no result.
mirrors kvm-vmm-x86/os-1k/common.c:45-87 -/
def convert (n : Nat) (m : Mem) (c : UInt8) (vargs : List UInt32) :
    Option (List UInt8 × List UInt32) :=
  if c = '%'.toUInt8 then some (ascii "%", vargs)
  else if c = 's'.toUInt8 then
    match vargs with
    | [] => none
    | s :: vargs => (putString m n s.toNat).map (·, vargs)
  else if c = 'd'.toUInt8 then
    match vargs with
    | [] => none
    | value :: vargs => (putInt n value.toInt32).map (·, vargs)
  else if c = 'x'.toUInt8 then
    match vargs with
    | [] => none
    | value :: vargs => some (putHex value, vargs)
  else some ([], vargs)

/-- The loop over the format; `n` bounds the inner loops. -/
def printfLoop (n : Nat) (m : Mem) : Nat → Nat → List UInt32 → Option (List UInt8)
  | 0, _, _ => none
  | k + 1, fmt, vargs =>
    if m fmt = 0 then some []
    else if m fmt = '%'.toUInt8 then
      -- `goto end`
      if m (fmt + 1) = 0 then some (ascii "%")
      else
        (convert n m (m (fmt + 1)) vargs).bind fun p =>
          (printfLoop n m k (fmt + 2) p.2).map (p.1 ++ ·)
    else (printfLoop n m k (fmt + 1) vargs).map (m fmt :: ·)

/-- The characters passed to `putchar`.
mirrors kvm-vmm-x86/os-1k/common.c:39-97 -/
def printf (n : Nat) (m : Mem) (fmt : Nat) (vargs : List UInt32) : Option (List UInt8) :=
  printfLoop n m n fmt vargs

/-! ## Formats -/

/-- A character of the text, or a conversion with the argument it takes. -/
inductive Piece where
  | char (c : UInt8) (nonzero : c ≠ 0) (plain : c ≠ '%'.toUInt8)
  | percent
  | int (value : Int32)
  | hex (value : UInt32)
  /-- The string `bs` at `s`. -/
  | str (s : UInt32) (bs : List UInt8)
  | other (c : UInt8) (nonzero : c ≠ 0) (unknown : c ∉ ['%', 'd', 'x', 's'].map Char.toUInt8)

namespace Piece

/-- How the format spells it. -/
def text : Piece → List UInt8
  | char c _ _ => [c]
  | percent => ascii "%%"
  | int _ => ascii "%d"
  | hex _ => ascii "%x"
  | str _ _ => ascii "%s"
  | other c _ _ => ascii "%" ++ [c]

def args : Piece → List UInt32
  | int value => [value.toUInt32]
  | hex value => [value]
  | str s _ => [s]
  | _ => []

/-- What is printed for it; `%x` is filled up to eight digits. -/
def rendered : Piece → List UInt8
  | char c _ _ => [c]
  | percent => ascii "%"
  | int value => decInt value.toInt
  | hex value => (Vmm.hex value.toNat).leftpad 8 '0'.toUInt8
  | str _ bs => bs
  | other _ _ _ => []

/-- The string is in memory. -/
def Held (m : Mem) : Piece → Prop
  | str s bs => m.CStringAt s.toNat bs
  | _ => True

end Piece

/-- Pieces, and a `%` at the very end. -/
structure Format where
  pieces : List Piece
  trailing : Bool

namespace Format

def lone (f : Format) : List UInt8 := if f.trailing then ascii "%" else []
def text (f : Format) : List UInt8 := f.pieces.flatMap Piece.text ++ f.lone
def args (f : Format) : List UInt32 := f.pieces.flatMap Piece.args
def rendered (f : Format) : List UInt8 := f.pieces.flatMap Piece.rendered ++ f.lone

end Format

theorem Format.text_cons (p : Piece) (ps : List Piece) (trailing : Bool) :
    text ⟨p :: ps, trailing⟩ = p.text ++ text ⟨ps, trailing⟩ := by
  simp [text, lone]

theorem Format.rendered_cons (p : Piece) (ps : List Piece) (trailing : Bool) :
    rendered ⟨p :: ps, trailing⟩ = p.rendered ++ rendered ⟨ps, trailing⟩ := by
  simp [rendered, lone]

/-! ## Numerals -/

/-- The characters of a numeral. -/
def bytes (cs : List Char) : List UInt8 := cs.map fun c => UInt8.ofNat c.toNat

/-- The test of the first loop. -/
theorem div_gt_nine_iff {magnitude divisor : UInt32} {j : Nat} (hd : divisor.toNat = 10 ^ j) :
    magnitude / divisor > 9 ↔ 10 ^ (j + 1) ≤ magnitude.toNat := by
  rw [gt_iff_lt, UInt32.lt_iff_toNat_lt, UInt32.toNat_div, hd, Nat.pow_succ']
  exact Nat.le_div_iff_mul_le (Nat.pow_pos (by decide))

/-- No 32-bit number has more than ten digits. -/
theorem exponent_le {v : UInt32} {j : Nat} (h : 10 ^ (j + 1) ≤ v.toNat) : j + 1 ≤ 9 := by
  by_contra hj
  have hten : 10 ^ 10 ≤ 10 ^ (j + 1) := Nat.pow_le_pow_right (by decide) (by omega)
  have hlt := v.toNat_lt
  omega

/-- The divisor grows to the power of ten of the first digit, and is never too large. -/
theorem growDivisor_eq (magnitude : UInt32) {n j : Nat} (divisor : UInt32) (hn : 10 ≤ n + j)
    (hj : j ≤ 9) (hd : divisor.toNat = 10 ^ j) (hlow : j = 0 ∨ 10 ^ j ≤ magnitude.toNat) :
    ∃ k d, growDivisor magnitude n divisor = some d ∧ d.toNat = 10 ^ k ∧ k ≤ 9 ∧
      (k = 0 ∨ 10 ^ k ≤ magnitude.toNat) ∧ magnitude.toNat < 10 ^ (k + 1) := by
  induction n generalizing j divisor with
  | zero => omega
  | succ n ih =>
    have hne : divisor ≠ 0 := by
      intro h0
      rw [h0] at hd
      exact absurd hd (Nat.ne_of_lt (Nat.pow_pos (by decide)))
    rw [growDivisor, if_neg hne]
    by_cases hgrow : magnitude / divisor > 9
    · have hle := (div_gt_nine_iff hd).1 hgrow
      have hlt := magnitude.toNat_lt
      have hfit : divisor.toNat * 10 < 2 ^ 32 := by
        rw [hd, ← Nat.pow_succ]
        omega
      have hmul : (divisor * 10).toNat = 10 ^ (j + 1) :=
        calc (divisor * 10).toNat = divisor.toNat * 10 % 2 ^ 32 := UInt32.toNat_mul _ _
          _ = divisor.toNat * 10 := Nat.mod_eq_of_lt hfit
          _ = 10 ^ (j + 1) := by rw [hd, ← Nat.pow_succ]
      rw [if_pos hgrow, if_pos hfit]
      exact ih (divisor * 10) (by omega) (exponent_le hle) hmul (Or.inr hle)
    · have hlt := Nat.lt_of_not_le (mt (div_gt_nine_iff hd).2 hgrow)
      rw [if_neg hgrow]
      exact ⟨j, divisor, rfl, hd, hj, hlow, hlt⟩

theorem decimal_byte {v : UInt32} (h : v.toNat < 10) :
    (48 + v).toUInt8 = UInt8.ofNat (Nat.digitChar v.toNat).toNat := by
  apply UInt8.toNat_inj.1
  rw [Nat.toNat_digitChar_of_lt_ten h, UInt8.toNat_ofNat', UInt32.toNat_toUInt8, UInt32.toNat_add]
  simp only [UInt32.reduceToNat]
  omega

/-- `divisor` stands at the first of `k` digits. -/
theorem putDigits_eq {n k : Nat} {magnitude divisor : UInt32} (hn : k < n)
    (hd : divisor.toNat = 10 ^ k / 10) (hm : magnitude.toNat < 10 ^ k) :
    putDigits n magnitude divisor = some (bytes (positional 10 k magnitude.toNat)) := by
  induction k generalizing n magnitude divisor with
  | zero =>
    obtain ⟨n, rfl⟩ := Nat.exists_eq_succ_of_ne_zero (Nat.ne_of_gt hn)
    have h0 : ¬ divisor > 0 := by
      rw [gt_iff_lt, UInt32.lt_iff_toNat_lt, hd]
      decide
    rw [putDigits, if_neg h0]
    rfl
  | succ k ih =>
    obtain ⟨n, rfl⟩ := Nat.exists_eq_succ_of_ne_zero (show n ≠ 0 by omega)
    have hpow : divisor.toNat = 10 ^ k := by
      rw [hd, Nat.pow_succ, Nat.mul_div_cancel _ (by decide)]
    have hpos : divisor > 0 := by
      rw [gt_iff_lt, UInt32.lt_iff_toNat_lt, hpow]
      exact Nat.pow_pos (by decide)
    have hquot : (magnitude / divisor).toNat = magnitude.toNat / 10 ^ k := by
      rw [UInt32.toNat_div, hpow]
    have hdigit : magnitude.toNat / 10 ^ k < 10 := by
      rw [Nat.div_lt_iff_lt_mul (Nat.pow_pos (by decide)), ← Nat.pow_succ']
      exact hm
    have hrest : (magnitude % divisor).toNat = magnitude.toNat % 10 ^ k := by
      rw [UInt32.toNat_mod, hpow]
    have hnext : (divisor / 10).toNat = 10 ^ k / 10 := by
      rw [UInt32.toNat_div, hpow]
      rfl
    have hlt : (magnitude % divisor).toNat < 10 ^ k := by
      rw [hrest]
      exact Nat.mod_lt _ (Nat.pow_pos (by decide))
    rw [putDigits, if_pos hpos, ih (by omega) hnext hlt, hrest, positional_mod,
      positional_succ_left, Nat.mod_eq_of_lt hdigit, decimal_byte (hquot ▸ hdigit), hquot]
    rfl

/-- The magnitude, `INT_MIN` included. -/
theorem magnitude_toNat (value : Int32) :
    (if value < 0 then -value.toUInt32 else value.toUInt32).toNat = value.toInt.natAbs := by
  have hneg : value < 0 ↔ value.toInt < 0 := Int32.lt_iff_toInt_lt
  have hlt := value.toUInt32.toNat_lt
  have hsize : UInt32.size = 2 ^ 32 := rfl
  have hint : value.toInt = if 2 * value.toUInt32.toNat < 2 ^ 32 then (value.toUInt32.toNat : Int)
      else value.toUInt32.toNat - 2 ^ 32 := BitVec.toInt_eq_toNat_cond value.toBitVec
  by_cases h : value < 0
  · have hi := hneg.1 h
    rw [if_pos h, UInt32.toNat_neg, hsize]
    split at hint <;> omega
  · have hi := mt hneg.2 h
    rw [if_neg h]
    split at hint <;> omega

/-- `%d` prints the numeral. -/
theorem putInt_eq {n : Nat} (hn : 11 ≤ n) (value : Int32) :
    putInt n value = some (decInt value.toInt) := by
  have hmag := magnitude_toNat value
  unfold putInt
  dsimp only
  generalize (if value < 0 then -value.toUInt32 else value.toUInt32) = magnitude at hmag ⊢
  obtain ⟨k, d, hd, hpow, hk, hlow, hhigh⟩ :=
    growDivisor_eq magnitude (j := 0) 1 (show 10 ≤ n + 0 by omega) (by omega) rfl (Or.inl rfl)
  have hfirst : d.toNat = 10 ^ (k + 1) / 10 := by
    rw [hpow, Nat.pow_succ, Nat.mul_div_cancel _ (by decide)]
  have hneg : value < 0 ↔ value.toInt < 0 := Int32.lt_iff_toInt_lt
  rw [hd, Option.bind_some, putDigits_eq (by omega) hfirst hhigh,
    ← toDigits_eq_positional (by decide) hlow hhigh, hmag, Option.map_some]
  by_cases h : value < 0
  · rw [if_pos h, decInt, if_pos (hneg.1 h)]
    rfl
  · rw [if_neg h, decInt, if_neg (mt hneg.2 h)]
    rfl

example : putInt 11 Int32.minValue = some (ascii "-2147483648") := by decide

theorem hex_byte {d : Nat} (h : d < 16) :
    (ascii "0123456789abcdef").getD d 0 = UInt8.ofNat (Nat.digitChar d).toNat := by
  have hall : ∀ d < 16, (ascii "0123456789abcdef").getD d 0 =
      UInt8.ofNat (Nat.digitChar d).toNat := by decide
  exact hall d h

theorem nibble_toNat (value : UInt32) {i : Nat} (hi : i < 8) :
    ((value >>> UInt32.ofNat (i * 4)) &&& 0xf).toNat = value.toNat / 16 ^ i % 16 := by
  have hshift : (UInt32.ofNat (i * 4)).toNat % 32 = 4 * i := by
    rw [UInt32.toNat_ofNat']
    omega
  have hmask : (0xf : UInt32).toNat = 2 ^ 4 - 1 := rfl
  have hpow : 16 ^ i = 2 ^ (4 * i) := by rw [Nat.pow_mul]
  rw [UInt32.toNat_and, UInt32.toNat_shiftRight, hshift, hmask, Nat.and_two_pow_sub_one_eq_mod,
    Nat.shiftRight_eq_div_pow, hpow]

/-- `%x` prints the eight digits. -/
theorem putHex_eq (value : UInt32) :
    putHex value = (hex value.toNat).leftpad 8 '0'.toUInt8 := by
  have hpad : (hex value.toNat).leftpad 8 '0'.toUInt8 =
      bytes ((Nat.toDigits 16 value.toNat).leftpad 8 '0') := by
    rw [hex, bytes, List.leftpad, List.leftpad, List.map_append, List.map_replicate,
      List.length_map]
    rfl
  have hlt : value.toNat < 16 ^ (7 + 1) := value.toNat_lt
  rw [hpad, leftpad_toDigits (by decide) hlt, positional_eq_map, bytes, List.map_map]
  refine List.map_congr_left fun i hi => ?_
  have hlt : i < 8 := List.mem_range.1 (List.mem_reverse.1 hi)
  have hdigit : value.toNat / 16 ^ i % 16 < 16 := Nat.mod_lt _ (by decide)
  show (ascii "0123456789abcdef").getD _ 0 = _
  rw [nibble_toNat value hlt, hex_byte hdigit]
  rfl

/-! ## Pieces -/

theorem putString_eq {m : Mem} {n s : Nat} {bs : List UInt8} (h : m.CStringAt s bs)
    (hn : bs.length < n) : putString m n s = some bs := by
  induction bs generalizing n s with
  | nil =>
    obtain ⟨n, rfl⟩ := Nat.exists_eq_succ_of_ne_zero (Nat.ne_of_gt hn)
    rw [putString, if_pos ((Mem.cStringAt_nil m s).1 h)]
  | cons c bs ih =>
    obtain ⟨n, rfl⟩ := Nat.exists_eq_succ_of_ne_zero (show n ≠ 0 by omega)
    obtain ⟨hc, hne, hrest⟩ := (Mem.cStringAt_cons m s c bs).1 h
    rw [putString, hc, if_neg hne, ih hrest (Nat.lt_of_succ_lt_succ hn)]
    rfl

/-- The letter behind the `%`. -/
def Piece.letter : Piece → UInt8
  | .char c _ _ => c
  | .percent => '%'.toUInt8
  | .int _ => 'd'.toUInt8
  | .hex _ => 'x'.toUInt8
  | .str _ _ => 's'.toUInt8
  | .other c _ _ => c

theorem Piece.text_cases (p : Piece) :
    (∃ c h h', p = .char c h h') ∨ p.text = ['%'.toUInt8, p.letter] ∧ p.letter ≠ 0 := by
  cases p with
  | char c h h' => exact Or.inl ⟨c, h, h', rfl⟩
  | other c h _ => exact Or.inr ⟨rfl, h⟩
  | percent => exact Or.inr ⟨rfl, show '%'.toUInt8 ≠ 0 by decide⟩
  | int => exact Or.inr ⟨rfl, show 'd'.toUInt8 ≠ 0 by decide⟩
  | hex => exact Or.inr ⟨rfl, show 'x'.toUInt8 ≠ 0 by decide⟩
  | str => exact Or.inr ⟨rfl, show 's'.toUInt8 ≠ 0 by decide⟩

section Loop

variable {n : Nat} {m : Mem} {p : Piece} {vargs : List UInt32}

/-- A conversion takes its argument and prints what it stands for. -/
theorem convert_eq (hheld : p.Held m) (hn : p.rendered.length + 11 ≤ n)
    (hp : p.text = ['%'.toUInt8, p.letter]) :
    convert n m p.letter (p.args ++ vargs) = some (p.rendered, vargs) := by
  cases p with
  | char c _ _ => simp [Piece.text] at hp
  | percent => rfl
  | int value =>
    have hround : value.toUInt32.toInt32 = value := rfl
    show (putInt n value.toUInt32.toInt32).map (·, vargs) = _
    rw [hround, putInt_eq (by omega)]
    rfl
  | hex value =>
    show some (putHex value, vargs) = _
    rw [putHex_eq]
    rfl
  | str s bs =>
    show (putString m n s.toNat).map (·, vargs) = _
    rw [putString_eq hheld (by simp only [Piece.rendered] at hn; omega)]
    rfl
  | other c _ hc =>
    simp only [List.map_cons, List.map_nil, List.mem_cons, List.not_mem_nil, or_false, not_or] at hc
    show convert n m c vargs = _
    unfold convert
    rw [if_neg hc.1, if_neg hc.2.2.2, if_neg hc.2.1, if_neg hc.2.2.1]
    rfl

/-- One turn of the loop is one piece. -/
theorem printfLoop_piece (k : Nat) (vargs : List UInt32) {fmt : Nat} {rest : List UInt8}
    (h : m.CStringAt fmt (p.text ++ rest)) (hheld : p.Held m)
    (hn : p.rendered.length + 11 ≤ n) :
    m.CStringAt (fmt + p.text.length) rest ∧
      printfLoop n m (k + 1) fmt (p.args ++ vargs) =
        (printfLoop n m k (fmt + p.text.length) vargs).map (p.rendered ++ ·) := by
  rcases p.text_cases with ⟨c, hc, hplain, rfl⟩ | ⟨hp, hletter⟩
  · obtain ⟨hfmt, -, hrest⟩ := (Mem.cStringAt_cons m fmt c rest).1 h
    refine ⟨hrest, ?_⟩
    show printfLoop n m (k + 1) fmt vargs = _
    rw [printfLoop, hfmt, if_neg hc, if_neg hplain]
    rfl
  · have htext := h
    rw [hp] at htext
    obtain ⟨hfmt, hnul, hmore⟩ := (Mem.cStringAt_cons m fmt _ _).1 htext
    obtain ⟨hnext, -, hrest⟩ := (Mem.cStringAt_cons m (fmt + 1) _ _).1 hmore
    rw [hp]
    refine ⟨hrest, ?_⟩
    rw [printfLoop, hfmt, hnext, if_neg hnul, if_pos rfl, if_neg hletter,
      convert_eq hheld hn hp]
    rfl

/-- The loop from a piece of the format on. -/
theorem printfLoop_eq {ps : List Piece} {trailing : Bool} {k fmt : Nat}
    (h : m.CStringAt fmt (Format.text ⟨ps, trailing⟩)) (hheld : ∀ p ∈ ps, p.Held m)
    (hn : (Format.rendered ⟨ps, trailing⟩).length + 11 ≤ n) (hk : ps.length < k) :
    printfLoop n m k fmt (Format.args ⟨ps, trailing⟩ ++ vargs) =
      some (Format.rendered ⟨ps, trailing⟩) := by
  induction ps generalizing k fmt with
  | nil =>
    obtain ⟨k, rfl⟩ := Nat.exists_eq_succ_of_ne_zero (Nat.ne_of_gt hk)
    cases trailing with
    | false =>
      have hend : m fmt = 0 := (Mem.cStringAt_nil m fmt).1 h
      rw [printfLoop, if_pos hend]
      rfl
    | true =>
      obtain ⟨hfmt, hnul, hmore⟩ := (Mem.cStringAt_cons m fmt '%'.toUInt8 []).1 h
      have hend : m (fmt + 1) = 0 := (Mem.cStringAt_nil m (fmt + 1)).1 hmore
      rw [printfLoop, hfmt, if_neg hnul, if_pos rfl, if_pos hend]
      rfl
  | cons p ps ih =>
    obtain ⟨k, rfl⟩ := Nat.exists_eq_succ_of_ne_zero (show k ≠ 0 by omega)
    have hargs : Format.args ⟨p :: ps, trailing⟩ = p.args ++ Format.args ⟨ps, trailing⟩ := rfl
    rw [Format.rendered_cons, List.length_append] at hn
    rw [Format.text_cons] at h
    have hp : p.rendered.length + 11 ≤ n := by omega
    obtain ⟨hrest, hturn⟩ := printfLoop_piece k (Format.args ⟨ps, trailing⟩ ++ vargs) h
      (hheld p List.mem_cons_self) hp
    rw [hargs, List.append_assoc, hturn,
      ih hrest (fun q hq => hheld q (List.mem_cons_of_mem p hq)) (by omega)
        (Nat.lt_of_succ_lt_succ hk), Format.rendered_cons]
    rfl

end Loop

theorem exists_conversion {c : UInt8} (h : c ≠ 0) : ∃ p : Piece, p.text = ascii "%" ++ [c] := by
  by_cases hc : c ∈ ['%', 'd', 'x', 's'].map Char.toUInt8
  · simp only [List.map_cons, List.map_nil, List.mem_cons, List.not_mem_nil, or_false] at hc
    rcases hc with rfl | rfl | rfl | rfl
    · exact ⟨.percent, rfl⟩
    · exact ⟨.int 0, rfl⟩
    · exact ⟨.hex 0, rfl⟩
    · exact ⟨.str 0 [], rfl⟩
  · exact ⟨.other c h hc, rfl⟩

/-- Every string is a format. -/
theorem exists_format (bs : List UInt8) (h : 0 ∉ bs) : ∃ f : Format, f.text = bs := by
  match bs with
  | [] => exact ⟨⟨[], false⟩, rfl⟩
  | c :: bs =>
    obtain ⟨hc, hbs⟩ := not_or.1 (mt List.mem_cons.2 h)
    by_cases hpercent : c = '%'.toUInt8
    · match bs with
      | [] => exact ⟨⟨[], true⟩, by rw [hpercent]; rfl⟩
      | d :: bs =>
        obtain ⟨hd, hrest⟩ := not_or.1 (mt List.mem_cons.2 hbs)
        obtain ⟨f, rfl⟩ := exists_format bs hrest
        obtain ⟨p, hp⟩ := exists_conversion (Ne.symm hd)
        exact ⟨⟨p :: f.pieces, f.trailing⟩, by rw [Format.text_cons, hp, hpercent]; rfl⟩
    · obtain ⟨f, rfl⟩ := exists_format bs hbs
      exact ⟨⟨.char c (Ne.symm hc) hpercent :: f.pieces, f.trailing⟩, Format.text_cons _ _ _⟩

/-- `printf` prints the text the format stands for, whatever the numbers. It
returns, so no divisor has been zero or too large. -/
theorem printf_renders (m : Mem) (fmt : Nat) (f : Format) (rest : List UInt32)
    (h : m.CStringAt fmt f.text) (hheld : ∀ p ∈ f.pieces, p.Held m) :
    ∃ k, ∀ n, k ≤ n → printf n m fmt (f.args ++ rest) = some f.rendered :=
  ⟨f.rendered.length + f.pieces.length + 11, fun n hn =>
    printfLoop_eq h hheld (show f.rendered.length + 11 ≤ n by omega) (by omega)⟩

/-- `"%d|%x|%s%%%"`. -/
def sampleFormat : Format where
  pieces := [.int Int32.minValue, .char '|'.toUInt8 (by decide) (by decide), .hex 0xBEEF,
    .char '|'.toUInt8 (by decide) (by decide), .str 32 (ascii "ok"), .percent]
  trailing := true

def sampleMem : Mem :=
  Mem.write (Mem.write (fun _ => 0) 0 (ascii "%d|%x|%s%%%")) 32 (ascii "ok")

theorem printf_renders_sample : ∃ k, ∀ n, k ≤ n →
    printf n sampleMem 0 (sampleFormat.args ++ [7]) = some (ascii "-2147483648|0000beef|ok%%") := by
  have htext : sampleMem.CStringAt 0 sampleFormat.text := ⟨by decide, by decide, by decide⟩
  have hstring : sampleMem.CStringAt 32 (ascii "ok") := ⟨by decide, by decide, by decide⟩
  have hrendered : sampleFormat.rendered = ascii "-2147483648|0000beef|ok%%" := by decide
  rw [← hrendered]
  refine printf_renders sampleMem 0 sampleFormat [7] htext fun p hp => ?_
  simp only [sampleFormat, List.mem_cons, List.not_mem_nil, or_false] at hp
  rcases hp with rfl | rfl | rfl | rfl | rfl | rfl
  all_goals first | exact hstring | trivial

end MiniKvm.Os1k
