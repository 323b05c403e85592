import MiniKvm.Os1k.Demos

/-!
# Any line at the calculator

`Calculator` types well-formed problems. Here the line is any string: `asked`
is the problem that it is taken for, if there is an operator where the scan
looks for one, and `calculatorReply` is what is printed for it. Digits that are
not there are a zero, and what stands behind the second number does not count.
-/
namespace MiniKvm.Os1k

open Vmm (ascii decInt)

/-! ## What is due -/

def Operator.ofChar (c : UInt8) : Option Operator :=
  [Operator.add, .sub, .mul, .div].find? fun op => op.char = c

/-- The value of the digits at the start, wrapped to 32 bits. -/
def digitsValue (v : Nat) (bs : List UInt8) : Int32 :=
  Int32.ofNat ((bs.takeWhile fun c => IsDigit c).foldl (fun v c => 10 * v + (c.toNat - 48)) v)

def afterSpaces (bs : List UInt8) : List UInt8 := bs.dropWhile fun c => c = ' '.toUInt8

/-- The number at the start, and what stands behind it. -/
def number (bs : List UInt8) : Int32 × List UInt8 :=
  if bs.headD 0 = '-'.toUInt8 then (-digitsValue 0 bs.tail, bs.tail.dropWhile fun c => IsDigit c)
  else (digitsValue 0 bs, bs.dropWhile fun c => IsDigit c)

/-- The problem a line is taken for, without its spaces. -/
def asked (bs : List UInt8) : Option Problem :=
  let first := number (afterSpaces bs)
  match afterSpaces first.2 with
  | [] => none
  | c :: bs => (Operator.ofChar c).map fun op => ⟨first.1, op, (number (afterSpaces bs)).1, 0, 0, 0⟩

/-- What is printed for a line, and how the turn ends. -/
def calculatorReply (bs : List UInt8) : Status × List UInt8 :=
  if bs = ascii "q" then (.quit, ascii "Exiting calculator\n")
  else
    match asked bs with
    | none => (.again, ascii "Error: Invalid operator\n")
    | some e => if e.Overflows then (.divideError, []) else (.again, e.answer)

/-! ## The scan -/

section Scan

variable {m : Mem} {n i : Nat} {bs : List UInt8}

theorem skipSpaces_string (h : m.CStringAt i bs) (hn : bs.length < n) :
    ∃ j, skipSpaces m n i = some j ∧ m.CStringAt j (afterSpaces bs) := by
  induction bs generalizing n i with
  | nil =>
    obtain ⟨n, rfl⟩ := Nat.exists_eq_succ_of_ne_zero (Nat.ne_of_gt hn)
    have hstop : ¬ m i = ' '.toUInt8 := by
      rw [(Mem.cStringAt_nil m i).1 h]
      decide
    exact ⟨i, if_neg hstop, h⟩
  | cons c bs ih =>
    obtain ⟨n, rfl⟩ := Nat.exists_eq_succ_of_ne_zero (show n ≠ 0 by omega)
    obtain ⟨hc, -, hrest⟩ := (Mem.cStringAt_cons m i c bs).1 h
    unfold afterSpaces
    rw [skipSpaces, hc]
    by_cases hspace : c = ' '.toUInt8
    · rw [if_pos hspace, List.dropWhile_cons_of_pos (by simpa using hspace)]
      exact ih hrest (Nat.lt_of_succ_lt_succ hn)
    · rw [if_neg hspace, List.dropWhile_cons_of_neg (by simpa using hspace)]
      exact ⟨i, rfl, h⟩

theorem scanDigits_string {v : Nat} (h : m.CStringAt i bs) (hn : bs.length < n) :
    ∃ j, scanDigits m n i (Int32.ofNat v) = some (j, digitsValue v bs) ∧
      m.CStringAt j (bs.dropWhile fun c => IsDigit c) := by
  induction bs generalizing n i v with
  | nil =>
    obtain ⟨n, rfl⟩ := Nat.exists_eq_succ_of_ne_zero (Nat.ne_of_gt hn)
    have hstop : ¬ IsDigit (m i) := by
      rw [(Mem.cStringAt_nil m i).1 h]
      decide
    exact ⟨i, if_neg hstop, h⟩
  | cons c bs ih =>
    obtain ⟨n, rfl⟩ := Nat.exists_eq_succ_of_ne_zero (show n ≠ 0 by omega)
    obtain ⟨hc, -, hrest⟩ := (Mem.cStringAt_cons m i c bs).1 h
    unfold digitsValue
    rw [scanDigits, hc]
    by_cases hdigit : IsDigit c
    · have hlow := ((isDigit_iff c).1 hdigit).1
      have hacc : Int32.ofNat v * 10 + (Int32.ofNat c.toNat - 48) =
          Int32.ofNat (10 * v + (c.toNat - 48)) := by
        rw [Int32.ofNat_add, Int32.ofNat_mul, Int32.ofNat_sub _ _ hlow, Int32.mul_comm]
        rfl
      rw [List.takeWhile_cons_of_pos (by simpa using hdigit),
        List.dropWhile_cons_of_pos (by simpa using hdigit), hacc, List.foldl_cons]
      obtain ⟨j, hj, hstring⟩ := ih (v := 10 * v + (c.toNat - 48)) hrest (Nat.lt_of_succ_lt_succ hn)
      exact ⟨j, (if_pos hdigit).trans hj, hstring⟩
    · rw [List.takeWhile_cons_of_neg (by simpa using hdigit),
        List.dropWhile_cons_of_neg (by simpa using hdigit)]
      exact ⟨i, if_neg hdigit, h⟩

theorem scanNumber_string (h : m.CStringAt i bs) (hn : bs.length < n) :
    ∃ j, scanNumber m n i = some (j, (number bs).1) ∧ m.CStringAt j (number bs).2 := by
  unfold scanNumber number
  rw [h.head]
  by_cases hminus : bs.headD 0 = '-'.toUInt8
  · rw [if_pos hminus, if_pos hminus]
    obtain _ | ⟨c, bs⟩ := bs
    · exact absurd hminus (by decide)
    obtain ⟨-, -, hrest⟩ := (Mem.cStringAt_cons m i c bs).1 h
    obtain ⟨j, hj, hstring⟩ := scanDigits_string (v := 0) hrest (Nat.lt_of_succ_lt hn)
    have hj' : scanDigits m n (i + 1) 0 = some (j, digitsValue 0 bs) := hj
    rw [hj']
    exact ⟨j, rfl, hstring⟩
  · rw [if_neg hminus, if_neg hminus]
    exact scanDigits_string (v := 0) h hn

theorem Operator.ofChar_eq_some_iff {c : UInt8} {op : Operator} :
    Operator.ofChar c = some op ↔ op.char = c := by
  constructor
  · intro h
    simpa using List.find?_some h
  · rintro rfl
    cases op <;> rfl

theorem Operator.ofChar_eq_none {c : UInt8} (h : Operator.ofChar c = none) :
    ¬ (c = '+'.toUInt8 ∨ c = '-'.toUInt8 ∨ c = '*'.toUInt8 ∨ c = '/'.toUInt8) := by
  have hall := List.find?_eq_none.1 h
  have hne : ∀ op : Operator, op.char ≠ c := by
    intro op
    have hop := hall op (by cases op <;> decide)
    simpa using hop
  rintro (rfl | rfl | rfl | rfl)
  · exact hne .add rfl
  · exact hne .sub rfl
  · exact hne .mul rfl
  · exact hne .div rfl

theorem number_length (bs : List UInt8) : (number bs).2.length ≤ bs.length := by
  unfold number
  split
  · exact Nat.le_trans (List.length_dropWhile_le _ _) (by rw [List.length_tail]; omega)
  · exact List.length_dropWhile_le _ _

/-- The scan of any string. -/
theorem parseLine_string (h : m.CStringAt i bs) (hn : bs.length < n) :
    parseLine m n i = some ((asked bs).map fun e => ⟨e.a, e.op.char, e.b⟩) := by
  have hspaces : ∀ bs : List UInt8, (afterSpaces bs).length ≤ bs.length := fun bs =>
    List.length_dropWhile_le _ _
  have hlen1 := hspaces bs
  obtain ⟨i1, h1, hs1⟩ := skipSpaces_string h hn
  obtain ⟨i2, h2, hs2⟩ := scanNumber_string (n := n) hs1 (by omega)
  have hlen2 := number_length (afterSpaces bs)
  obtain ⟨i3, h3, hs3⟩ := skipSpaces_string (n := n) hs2 (by omega)
  have hlen3 := hspaces (number (afterSpaces bs)).2
  unfold parseLine asked
  simp only [h1, h2, h3, Option.bind_eq_bind, Option.bind_some]
  cases hop : afterSpaces (number (afterSpaces bs)).2 with
  | nil =>
    rw [hop] at hs3
    rw [(Mem.cStringAt_nil m i3).1 hs3]
    rfl
  | cons c rest =>
    rw [hop] at hs3 hlen3
    rw [List.length_cons] at hlen3
    obtain ⟨hc, -, hrest⟩ := (Mem.cStringAt_cons m i3 c rest).1 hs3
    rw [hc]
    dsimp only
    cases hchar : Operator.ofChar c with
    | none =>
      rw [if_neg (Operator.ofChar_eq_none hchar)]
      rfl
    | some op =>
      obtain rfl := Operator.ofChar_eq_some_iff.1 hchar
      obtain ⟨i4, h4, hs4⟩ := skipSpaces_string (n := n) hrest (by omega)
      have hlen4 := hspaces rest
      obtain ⟨i5, h5, -⟩ := scanNumber_string (n := n) hs4 (by omega)
      rw [if_pos op.char_cases, h4, Option.bind_some, h5]
      rfl

end Scan

/-! ## The answer -/

section Answer

variable {m : Mem} {n line : Nat} {bs : List UInt8}

theorem report_eq (e : Problem) (hn : 200 ≤ n) :
    report n (calculate ⟨e.a, e.op.char, e.b⟩) =
      some (if e.Overflows then (.divideError, []) else (.again, e.answer)) := by
  by_cases hover : e.Overflows
  · rw [if_pos hover, calculate_overflow hover]
    rfl
  · rw [if_neg hover]
    rcases calculate_result hover with ⟨v, hv, hvalue⟩ | ⟨hzero, hvalue⟩
    · have hlen := decInt_length v
      rw [hv, report, printfLiteral_result v (by omega), Problem.answer, hvalue]
      rfl
    · have hprint := printfLiteral_text "Error: Division by zero\n" rfl hn
      rw [hzero, report, hprint, Problem.answer, hvalue]
      rfl

/-- Only `q` alone leaves. -/
theorem quits_iff (h : m.CStringAt line bs) :
    m line = 'q'.toUInt8 ∧ m (line + 1) = 0 ↔ bs = ascii "q" := by
  obtain _ | ⟨c, bs⟩ := bs
  · have hnil := (Mem.cStringAt_nil m line).1 h
    rw [hnil]
    constructor
    · rintro ⟨hq, -⟩
      exact absurd hq (by decide)
    · intro hq
      exact absurd hq (by decide)
  · obtain ⟨hc, -, hrest⟩ := (Mem.cStringAt_cons m line c bs).1 h
    have hq : ascii "q" = ['q'.toUInt8] := rfl
    rw [hc, hrest.head, hq, List.cons_eq_cons]
    refine and_congr_right fun _ => ?_
    obtain _ | ⟨d, bs⟩ := bs
    · exact iff_of_true rfl rfl
    · obtain ⟨-, hd, -⟩ := (Mem.cStringAt_cons m (line + 1) d bs).1 hrest
      exact iff_of_false hd (List.cons_ne_nil d bs)

/-- What the calculator does with any line. -/
theorem answerLine_string (h : m.CStringAt line bs) (hlen : bs.length < n) (hn : 200 ≤ n) :
    answerLine n line m = some (calculatorReply bs) := by
  have hbye := printfLiteral_text "Exiting calculator\n" rfl hn
  have herror := printfLiteral_text "Error: Invalid operator\n" rfl hn
  unfold answerLine calculatorReply
  by_cases hquit : bs = ascii "q"
  · rw [if_pos ((quits_iff h).2 hquit), if_pos hquit, hbye]
    rfl
  · rw [if_neg (mt (quits_iff h).1 hquit), if_neg hquit, parseLine_string h hlen, Option.bind_some]
    cases asked bs with
    | none =>
      show (printfLiteral n "Error: Invalid operator\n" []).map _ = _
      rw [herror]
      rfl
    | some e => exact report_eq e hn

end Answer

end MiniKvm.Os1k
