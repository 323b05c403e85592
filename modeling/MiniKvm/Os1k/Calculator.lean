import MiniKvm.Os1k.Printf
import MiniKvm.Os1k.Readline

/-!
# The calculator

`calculator_demo` of the shell (os-1k/shell.c): the line that `readline` left
is scanned in place, character after character. `int` is 32 bits and wraps; the
quotient is an `idiv`, which has no result where the quotient does not fit, and
the guard in front of it tests for a divisor of zero only.

`Problem.line` is a line as it is typed, `Problem.answer` what is due for it
over the integers.
-/
namespace MiniKvm.Os1k

open Vmm (ascii decInt dec)

/-! ## The source -/

/-- A string literal, somewhere in `.rodata`. -/
def literal (s : String) : Mem := Mem.write (fun _ => 0) 0 (ascii s ++ [0])

def printfLiteral (n : Nat) (fmt : String) (vargs : List UInt32) : Option (List UInt8) :=
  printf n (literal fmt) 0 vargs

/-- `while (line[i] == ' ') i++;`. -/
def skipSpaces (m : Mem) : Nat → Nat → Option Nat
  | 0, _ => none
  | n + 1, i => if m i = ' '.toUInt8 then skipSpaces m n (i + 1) else some i

/-- `while (line[i] >= '0' && line[i] <= '9') { .. }`. -/
def scanDigits (m : Mem) : Nat → Nat → Int32 → Option (Nat × Int32)
  | 0, _, _ => none
  | n + 1, i, num =>
    if '0'.toUInt8 ≤ m i ∧ m i ≤ '9'.toUInt8 then
      scanDigits m n (i + 1) (num * 10 + (Int32.ofNat (m i).toNat - 48))
    else some (i, num)

/-- mirrors kvm-vmm-x86/os-1k/shell.c:128-138 and, once more, :155-165 -/
def scanNumber (m : Mem) (n i : Nat) : Option (Nat × Int32) :=
  if m i = '-'.toUInt8 then (scanDigits m n (i + 1) 0).map fun r => (r.1, -r.2)
  else scanDigits m n i 0

structure Parsed where
  num1 : Int32
  op : UInt8
  num2 : Int32
  deriving DecidableEq, Repr

/-- The scan of the line; `some none` is an invalid operator.
mirrors kvm-vmm-x86/os-1k/shell.c:121-165 -/
def parseLine (m : Mem) (n line : Nat) : Option (Option Parsed) := do
  let i ← skipSpaces m n line
  let (i, num1) ← scanNumber m n i
  let i ← skipSpaces m n i
  let op := m i
  if op = '+'.toUInt8 ∨ op = '-'.toUInt8 ∨ op = '*'.toUInt8 ∨ op = '/'.toUInt8 then
    let i ← skipSpaces m n (i + 1)
    let (_, num2) ← scanNumber m n i
    some (some ⟨num1, op, num2⟩)
  else some none

/-- The quotient of `idiv`; without one the processor raises a divide error. -/
def idiv (a b : Int32) : Option Int32 :=
  let q := a.toInt.tdiv b.toInt
  if b = 0 ∨ q < -2 ^ 31 ∨ 2 ^ 31 ≤ q then none else some (Int32.ofInt q)

inductive Calculated where
  | result (value : Int32)
  | divisionByZero
  | divideError
  deriving DecidableEq, Repr

/-- mirrors kvm-vmm-x86/os-1k/shell.c:167-184 -/
def calculate (p : Parsed) : Calculated :=
  if p.op = '+'.toUInt8 then .result (p.num1 + p.num2)
  else if p.op = '-'.toUInt8 then .result (p.num1 - p.num2)
  else if p.op = '*'.toUInt8 then .result (p.num1 * p.num2)
  else if p.op = '/'.toUInt8 then
    if p.num2 = 0 then .divisionByZero
    else
      match idiv p.num1 p.num2 with
      | some q => .result q
      | none => .divideError
  else .result 0

/-- How a turn of the loop ends. -/
inductive Status where
  | again
  | quit
  | divideError
  deriving DecidableEq, Repr

structure Turn where
  status : Status
  mem : Mem
  output : List UInt8
  rest : List Int

/-- The status and the text of a result.
mirrors kvm-vmm-x86/os-1k/shell.c:178-188 -/
def report (n : Nat) : Calculated → Option (Status × List UInt8)
  | .result value => (printfLiteral n "Result: %d\n" [value.toUInt32]).map (.again, ·)
  | .divisionByZero => (printfLiteral n "Error: Division by zero\n" []).map (.again, ·)
  | .divideError => some (.divideError, [])

/-- What is done with the line in memory.
mirrors kvm-vmm-x86/os-1k/shell.c:114-188 -/
def answerLine (n line : Nat) (m : Mem) : Option (Status × List UInt8) :=
  if m line = 'q'.toUInt8 ∧ m (line + 1) = 0 then
    (printfLiteral n "Exiting calculator\n" []).map (.quit, ·)
  else
    (parseLine m n line).bind fun p =>
      match p with
      | none => (printfLiteral n "Error: Invalid operator\n" []).map (.again, ·)
      | some p => report n (calculate p)

/-- A turn of the loop.
mirrors kvm-vmm-x86/os-1k/shell.c:110-188 -/
def calculatorTurn (n line : Nat) (m : Mem) (input : List Int) : Option Turn := do
  let prompt ← printfLiteral n "Calculate: " []
  let r ← readline m line 64 input
  let (status, text) ← answerLine n line r.mem
  some ⟨status, r.mem, prompt ++ r.echo ++ text, r.rest⟩

/-- The loop, until it is left; `k` bounds its turns. -/
def calculatorLoop (n line : Nat) : Nat → Mem → List Int → Option Turn
  | 0, _, _ => none
  | k + 1, m, input =>
    (calculatorTurn n line m input).bind fun t =>
      if t.status = .again then
        (calculatorLoop n line k t.mem t.rest).map fun t' =>
          { t' with output := t.output ++ t'.output }
      else some t

/-- mirrors kvm-vmm-x86/os-1k/shell.c:103-190 -/
def calculatorDemo (n line : Nat) (m : Mem) (input : List Int) : Option Turn := do
  let title ← printfLiteral n "\n=== Simple Calculator ===\n" []
  let usage ← printfLiteral n "Enter two numbers and operator (+, -, *, /)\n" []
  let sample ← printfLiteral n "Example: 12 + 5\n" []
  let leave ← printfLiteral n "Type 'q' to quit\n\n" []
  let t ← calculatorLoop n line n m input
  some { t with output := title ++ usage ++ sample ++ leave ++ t.output }

/-! ## What is due -/

inductive Operator where
  | add
  | sub
  | mul
  | div
  deriving DecidableEq, Repr

def Operator.char : Operator → UInt8
  | add => '+'.toUInt8
  | sub => '-'.toUInt8
  | mul => '*'.toUInt8
  | div => '/'.toUInt8

/-- The value over the integers, wrapped to 32 bits; there is none over zero. -/
def Operator.value : Operator → Int → Int → Option Int
  | add, a, b => some ((a + b).bmod (2 ^ 32))
  | sub, a, b => some ((a - b).bmod (2 ^ 32))
  | mul, a, b => some ((a * b).bmod (2 ^ 32))
  | div, a, b => if b = 0 then none else some (a.tdiv b)

/-- `a op b`, and the spaces before each of the three. -/
structure Problem where
  a : Int32
  op : Operator
  b : Int32
  spaces : Nat
  spacesOp : Nat
  spacesB : Nat
  deriving DecidableEq, Repr

namespace Problem

def blanks (k : Nat) : List UInt8 := List.replicate k ' '.toUInt8

def line (e : Problem) : List UInt8 :=
  blanks e.spaces ++ (decInt e.a.toInt ++ (blanks e.spacesOp ++
    (e.op.char :: (blanks e.spacesB ++ decInt e.b.toInt))))

def answer (e : Problem) : List UInt8 :=
  match e.op.value e.a.toInt e.b.toInt with
  | some v => ascii "Result: " ++ decInt v ++ ascii "\n"
  | none => ascii "Error: Division by zero\n"

/-- The quotient that is no `int`. -/
def Overflows (e : Problem) : Prop := e.op = .div ∧ e.a = Int32.minValue ∧ e.b = -1

instance (e : Problem) : Decidable e.Overflows := inferInstanceAs (Decidable (_ ∧ _))

end Problem

/-! ## The scan -/

def IsDigit (c : UInt8) : Prop := '0'.toUInt8 ≤ c ∧ c ≤ '9'.toUInt8

instance (c : UInt8) : Decidable (IsDigit c) := inferInstanceAs (Decidable (_ ∧ _))

theorem isDigit_iff (c : UInt8) : IsDigit c ↔ 48 ≤ c.toNat ∧ c.toNat ≤ 57 := by
  rw [IsDigit, UInt8.le_iff_toNat_le, UInt8.le_iff_toNat_le]
  rfl

section Scan

variable {m : Mem} {n i : Nat} {r : List UInt8}

theorem skipSpaces_eq {k : Nat} (h : m.CStringAt i (Problem.blanks k ++ r))
    (hstop : r.headD 0 ≠ ' '.toUInt8) (hn : k < n) : skipSpaces m n i = some (i + k) := by
  induction k generalizing n i with
  | zero =>
    obtain ⟨n, rfl⟩ := Nat.exists_eq_succ_of_ne_zero (Nat.ne_of_gt hn)
    have hhead : m i = r.headD 0 := h.head
    rw [skipSpaces, hhead, if_neg hstop]
    rfl
  | succ k ih =>
    obtain ⟨n, rfl⟩ := Nat.exists_eq_succ_of_ne_zero (show n ≠ 0 by omega)
    obtain ⟨hspace, -, hrest⟩ :=
      (Mem.cStringAt_cons m i ' '.toUInt8 (Problem.blanks k ++ r)).1 h
    rw [skipSpaces, if_pos hspace, ih hrest (Nat.lt_of_succ_lt_succ hn), Nat.add_right_comm,
      Nat.add_assoc]

theorem digit_toNat {c : Char} (hc : c.isDigit) :
    (UInt8.ofNat c.toNat).toNat = c.toNat ∧ IsDigit (UInt8.ofNat c.toNat) := by
  obtain ⟨hlow, hhigh⟩ : 48 ≤ c.toNat ∧ c.toNat ≤ 57 := Char.isDigit_iff_toNat.1 hc
  have hnat : (UInt8.ofNat c.toNat).toNat = c.toNat := by
    rw [UInt8.toNat_ofNat']
    omega
  refine ⟨hnat, (isDigit_iff _).2 ?_⟩
  rw [hnat]
  exact ⟨hlow, hhigh⟩

/-- The digits are taken from the left; the accumulator wraps. -/
theorem scanDigits_eq {cs : List Char} {v : Nat} (h : m.CStringAt i (bytes cs ++ r))
    (hcs : ∀ c ∈ cs, c.isDigit) (hstop : ¬ IsDigit (r.headD 0)) (hn : cs.length < n) :
    scanDigits m n i (Int32.ofNat v) =
      some (i + cs.length, Int32.ofNat (Nat.ofDigitChars 10 cs v)) := by
  induction cs generalizing n i v with
  | nil =>
    obtain ⟨n, rfl⟩ := Nat.exists_eq_succ_of_ne_zero (Nat.ne_of_gt hn)
    have hhead : m i = r.headD 0 := h.head
    rw [scanDigits, hhead]
    exact if_neg hstop
  | cons c cs ih =>
    obtain ⟨n, rfl⟩ := Nat.exists_eq_succ_of_ne_zero (show n ≠ 0 by omega)
    obtain ⟨hhead, -, hrest⟩ :=
      (Mem.cStringAt_cons m i (UInt8.ofNat c.toNat) (bytes cs ++ r)).1 h
    have hc := hcs c List.mem_cons_self
    obtain ⟨hnat, hdigit⟩ := digit_toNat hc
    have hlow : 48 ≤ c.toNat := (Char.isDigit_iff_toNat.1 hc).1
    have hacc : Int32.ofNat v * 10 + (Int32.ofNat c.toNat - 48) =
        Int32.ofNat (10 * v + (c.toNat - 48)) := by
      rw [Int32.ofNat_add, Int32.ofNat_mul, Int32.ofNat_sub _ _ hlow, Int32.mul_comm]
      rfl
    rw [scanDigits, hhead, hnat, hacc]
    refine (if_pos hdigit).trans ?_
    rw [ih hrest (fun c hc => hcs c (List.mem_cons_of_mem _ hc)) (Nat.lt_of_succ_lt_succ hn),
      Nat.ofDigitChars_cons, Nat.add_right_comm, Nat.add_assoc]
    rfl

theorem scanDigits_dec {v : Nat} (h : m.CStringAt i (dec v ++ r)) (hstop : ¬ IsDigit (r.headD 0))
    (hn : (dec v).length < n) :
    scanDigits m n i 0 = some (i + (dec v).length, Int32.ofNat v) := by
  have hlen : (dec v).length = (Nat.toDigits 10 v).length := List.length_map _
  have hscan : scanDigits m n i (Int32.ofNat 0) = some (i + (Nat.toDigits 10 v).length,
      Int32.ofNat (Nat.ofDigitChars 10 (Nat.toDigits 10 v) 0)) :=
    scanDigits_eq h (fun c hc => Nat.isDigit_of_mem_toDigits (by decide) (by decide) hc) hstop
      (hlen ▸ hn)
  rw [Nat.ofDigitChars_ten_toDigits] at hscan
  rw [hlen]
  exact hscan

theorem dec_headD (v : Nat) (r : List UInt8) : IsDigit ((dec v ++ r).headD 0) := by
  obtain ⟨c, cs, hcs⟩ := List.exists_cons_of_ne_nil (Nat.toDigits_ne_nil (n := v) (b := 10))
  have hc : c ∈ Nat.toDigits 10 v := hcs ▸ List.mem_cons_self
  rw [dec, hcs]
  exact (digit_toNat (Nat.isDigit_of_mem_toDigits (by decide) (by decide) hc)).2

theorem not_isDigit_of_mem {c : UInt8}
    (h : c ∈ ['\x00', ' ', '+', '-', '*', '/'].map Char.toUInt8) :
    ¬ IsDigit c := by
  revert c
  decide +kernel

/-- A number, with its sign: `INT_MIN` too, whose digits wrap before they are negated. -/
theorem scanNumber_eq {a : Int32} (h : m.CStringAt i (decInt a.toInt ++ r))
    (hstop : ¬ IsDigit (r.headD 0)) (hn : (decInt a.toInt).length < n) :
    scanNumber m n i = some (i + (decInt a.toInt).length, a) := by
  by_cases hneg : a.toInt < 0
  · have htext : decInt a.toInt = '-'.toUInt8 :: dec a.toInt.natAbs := if_pos hneg
    rw [htext] at h hn ⊢
    rw [List.length_cons] at hn ⊢
    obtain ⟨hminus, -, hrest⟩ := (Mem.cStringAt_cons m i _ _).1 h
    have hvalue : -Int32.ofNat a.toInt.natAbs = a := by
      rw [← Int32.ofInt_eq_ofNat, ← Int32.ofInt_neg, Int.ofNat_natAbs_of_nonpos (by omega),
        Int.neg_neg, Int32.ofInt_toInt]
    rw [scanNumber, if_pos hminus, scanDigits_dec hrest hstop (by omega), Option.map_some, hvalue,
      Nat.add_right_comm, Nat.add_assoc]
  · have htext : decInt a.toInt = dec a.toInt.natAbs := if_neg hneg
    rw [htext] at h hn ⊢
    have hvalue : Int32.ofNat a.toInt.natAbs = a := by
      rw [← Int32.ofInt_eq_ofNat, Int.natAbs_of_nonneg (by omega), Int32.ofInt_toInt]
    have hminus : m i ≠ '-'.toUInt8 := by
      intro hi
      have hdigit := dec_headD a.toInt.natAbs r
      rw [← h.head, hi] at hdigit
      exact not_isDigit_of_mem (by decide) hdigit
    rw [scanNumber, if_neg hminus, scanDigits_dec h hstop hn, hvalue]

/-- A numeral starts with its sign or a digit. -/
theorem decInt_headD_ne {c : UInt8} (hminus : '-'.toUInt8 ≠ c) (hdigit : ¬ IsDigit c) (v : Int)
    (r : List UInt8) : (decInt v ++ r).headD 0 ≠ c := by
  by_cases hneg : v < 0
  · have htext : decInt v = '-'.toUInt8 :: dec v.natAbs := if_pos hneg
    rw [htext]
    exact hminus
  · have htext : decInt v = dec v.natAbs := if_neg hneg
    rw [htext]
    intro hc
    exact hdigit (hc ▸ dec_headD v.natAbs r)

theorem decInt_headD (v : Int) (r : List UInt8) : (decInt v ++ r).headD 0 ≠ ' '.toUInt8 :=
  decInt_headD_ne (by decide) (by decide) v r

theorem Operator.char_cases (op : Operator) :
    op.char = '+'.toUInt8 ∨ op.char = '-'.toUInt8 ∨ op.char = '*'.toUInt8 ∨
      op.char = '/'.toUInt8 := by
  cases op with
  | add => exact Or.inl rfl
  | sub => exact Or.inr (Or.inl rfl)
  | mul => exact Or.inr (Or.inr (Or.inl rfl))
  | div => exact Or.inr (Or.inr (Or.inr rfl))

theorem Operator.char_ne_space (op : Operator) : op.char ≠ ' '.toUInt8 := by
  cases op <;> decide

/-- What stands behind the first number does not go on with it. -/
theorem blanks_char_headD (k : Nat) (op : Operator) (r : List UInt8) :
    ¬ IsDigit ((Problem.blanks k ++ op.char :: r).headD 0) := by
  cases k with
  | zero =>
    show ¬ IsDigit op.char
    cases op <;> decide
  | succ k =>
    show ¬ IsDigit ' '.toUInt8
    decide

/-- The scan gives back the operands and the operator. A minus behind the
operator belongs to the second number, one before it to the first. -/
theorem parseLine_eq {e : Problem} (h : m.CStringAt i e.line) (hn : e.line.length < n) :
    parseLine m n i = some (some ⟨e.a, e.op.char, e.b⟩) := by
  have hlen : e.line.length = e.spaces + ((decInt e.a.toInt).length + (e.spacesOp +
      (e.spacesB + (decInt e.b.toInt).length + 1))) := by
    simp only [Problem.line, Problem.blanks, List.length_append, List.length_cons,
      List.length_replicate]
  have hblanks : ∀ k, (Problem.blanks k).length = k := fun k => List.length_replicate
  -- the string from each token on
  have hnum1 : m.CStringAt (i + e.spaces) _ := hblanks e.spaces ▸ Mem.CStringAt.drop h
  have hspacesOp := Mem.CStringAt.drop hnum1
  have hop : m.CStringAt (i + e.spaces + (decInt e.a.toInt).length + e.spacesOp) _ :=
    hblanks e.spacesOp ▸ Mem.CStringAt.drop hspacesOp
  obtain ⟨hchar, -, hspacesB⟩ := (Mem.cStringAt_cons m _ _ _).1 hop
  have hnum2 := Mem.CStringAt.drop hspacesB
  rw [hblanks, ← List.append_nil (decInt e.b.toInt)] at hnum2
  have h1 := skipSpaces_eq h (decInt_headD _ _) (show e.spaces < n by omega)
  have h2 := scanNumber_eq (n := n) hnum1 (blanks_char_headD _ _ _) (by omega)
  have h3 := skipSpaces_eq (n := n) hspacesOp e.op.char_ne_space (by omega)
  have h4 : skipSpaces m n (i + e.spaces + (decInt e.a.toInt).length + e.spacesOp + 1) =
      some (i + e.spaces + (decInt e.a.toInt).length + e.spacesOp + 1 + e.spacesB) := by
    refine skipSpaces_eq hspacesB ?_ (by omega)
    rw [← List.append_nil (decInt e.b.toInt)]
    exact decInt_headD _ _
  have h5 := scanNumber_eq (n := n) hnum2 (not_isDigit_of_mem (by decide)) (by omega)
  unfold parseLine
  simp only [h1, h2, h3, h4, h5, hchar, Option.bind_eq_bind, Option.bind_some]
  exact if_pos e.op.char_cases

end Scan

/-! ## The value -/

/-- `idiv` has the truncated quotient, but for the one that is no `int`. -/
theorem idiv_eq {a b : Int32} (hb : b ≠ 0) (h : ¬ (a = Int32.minValue ∧ b = -1)) :
    ∃ q, idiv a b = some q ∧ q.toInt = a.toInt.tdiv b.toInt := by
  have hquot : (a / b).toInt = a.toInt.tdiv b.toInt := by
    by_cases ha : a = Int32.minValue
    · exact Int32.toInt_div_of_ne_right a b fun hb => h ⟨ha, hb⟩
    · exact Int32.toInt_div_of_ne_left a b ha
  have hlow := (a / b).le_toInt
  have hhigh := (a / b).toInt_lt
  have hok : ¬ (b = 0 ∨ a.toInt.tdiv b.toInt < -2 ^ 31 ∨ 2 ^ 31 ≤ a.toInt.tdiv b.toInt) := by
    rw [← hquot, not_or]
    exact ⟨hb, by omega⟩
  refine ⟨a / b, ?_, hquot⟩
  unfold idiv
  dsimp only
  rw [if_neg hok, ← hquot, Int32.ofInt_toInt]

theorem calculate_result {e : Problem} (h : ¬ e.Overflows) :
    (∃ v : Int32, calculate ⟨e.a, e.op.char, e.b⟩ = .result v ∧
        e.op.value e.a.toInt e.b.toInt = some v.toInt) ∨
      calculate ⟨e.a, e.op.char, e.b⟩ = .divisionByZero ∧
        e.op.value e.a.toInt e.b.toInt = none := by
  obtain ⟨a, op, b, _, _, _⟩ := e
  cases op with
  | add => exact Or.inl ⟨a + b, rfl, by rw [Int32.toInt_add]; rfl⟩
  | sub => exact Or.inl ⟨a - b, rfl, by rw [Int32.toInt_sub]; rfl⟩
  | mul => exact Or.inl ⟨a * b, rfl, by rw [Int32.toInt_mul]; rfl⟩
  | div =>
    have hcalc : calculate ⟨a, Operator.div.char, b⟩ =
        if b = 0 then .divisionByZero
        else
          match idiv a b with
          | some q => .result q
          | none => .divideError := rfl
    rw [hcalc]
    by_cases hb : b = 0
    · refine Or.inr ⟨if_pos hb, ?_⟩
      rw [hb]
      rfl
    · obtain ⟨q, hq, hvalue⟩ := idiv_eq hb fun hab => h ⟨rfl, hab⟩
      have hne : b.toInt ≠ 0 := fun h0 => hb (Int32.toInt_inj.1 h0)
      refine Or.inl ⟨q, ?_, ?_⟩
      · rw [if_neg hb, hq]
      · rw [hvalue]
        exact if_neg hne

/-- `INT_MIN / -1` passes the guard. -/
theorem calculate_overflow {e : Problem} (h : e.Overflows) :
    calculate ⟨e.a, e.op.char, e.b⟩ = .divideError := by
  obtain ⟨hop, ha, hb⟩ := h
  rw [hop, ha, hb]
  decide

/-! ## The text -/

theorem printfLiteral_eq {n : Nat} {fmt : String} {ps : List Piece}
    (htext : Format.text ⟨ps, false⟩ = ascii fmt) (hnul : 0 ∉ ascii fmt)
    (hheld : ∀ p ∈ ps, p.Held (literal fmt))
    (hn : (Format.rendered ⟨ps, false⟩).length + ps.length + 11 ≤ n) :
    printfLiteral n fmt (Format.args ⟨ps, false⟩) = some (Format.rendered ⟨ps, false⟩) := by
  have hfmt : (literal fmt).CStringAt 0 (Format.text ⟨ps, false⟩) := by
    rw [htext]
    exact Mem.cStringAt_write _ 0 hnul
  have hloop : printfLoop n (literal fmt) n 0 (Format.args ⟨ps, false⟩ ++ []) =
      some (Format.rendered ⟨ps, false⟩) := printfLoop_eq hfmt hheld (by omega) (by omega)
  rwa [List.append_nil] at hloop

/-- Text without a conversion, as the pieces of a format. -/
theorem exists_plain (m : Mem) (bs : List UInt8) (h : ∀ c ∈ bs, c ≠ 0 ∧ c ≠ '%'.toUInt8) :
    ∃ ps : List Piece, ps.length = bs.length ∧ ps.flatMap Piece.text = bs ∧
      ps.flatMap Piece.args = [] ∧ ps.flatMap Piece.rendered = bs ∧ ∀ p ∈ ps, p.Held m := by
  induction bs with
  | nil => exact ⟨[], rfl, rfl, rfl, rfl, fun p hp => absurd hp List.not_mem_nil⟩
  | cons c bs ih =>
    obtain ⟨hc, hplain⟩ := h c List.mem_cons_self
    obtain ⟨ps, hlen, htext, hargs, hrendered, hheld⟩ :=
      ih fun c hc => h c (List.mem_cons_of_mem _ hc)
    refine ⟨.char c hc hplain :: ps, ?_, ?_, ?_, ?_, ?_⟩
    · rw [List.length_cons, List.length_cons, hlen]
    · rw [List.flatMap_cons, htext]
      rfl
    · rw [List.flatMap_cons, hargs]
      rfl
    · rw [List.flatMap_cons, hrendered]
      rfl
    · intro p hp
      rcases List.mem_cons.1 hp with rfl | hp
      · trivial
      · exact hheld p hp

theorem printfLiteral_plain (fmt : String) {n : Nat}
    (h : ∀ c ∈ ascii fmt, c ≠ 0 ∧ c ≠ '%'.toUInt8) (hn : 2 * (ascii fmt).length + 11 ≤ n) :
    printfLiteral n fmt [] = some (ascii fmt) := by
  obtain ⟨ps, hlen, htext, hargs, hrendered, hheld⟩ := exists_plain (literal fmt) (ascii fmt) h
  have htext' : Format.text ⟨ps, false⟩ = ascii fmt := by
    rw [Format.text, htext]
    exact List.append_nil _
  have hrendered' : Format.rendered ⟨ps, false⟩ = ascii fmt := by
    rw [Format.rendered, hrendered]
    exact List.append_nil _
  have hprint := printfLiteral_eq (n := n) htext' (fun h0 => (h 0 h0).1 rfl) hheld
    (by rw [hrendered', hlen]; omega)
  rw [hrendered', Format.args, hargs] at hprint
  exact hprint

theorem printfLiteral_result {n : Nat} (value : Int32)
    (hn : (decInt value.toInt).length + 40 ≤ n) :
    printfLiteral n "Result: %d\n" [value.toUInt32] =
      some (ascii "Result: " ++ decInt value.toInt ++ ascii "\n") := by
  have hplain : ∀ c ∈ ascii "Result: ", c ≠ 0 ∧ c ≠ '%'.toUInt8 := by decide +kernel
  obtain ⟨ps, hlen, htext, hargs, hrendered, hheld⟩ :=
    exists_plain (literal "Result: %d\n") (ascii "Result: ") hplain
  have hlen8 : ps.length = 8 := hlen
  have htext' : Format.text ⟨ps ++ [.int value, .char 10 (by decide) (by decide)], false⟩ =
      ascii "Result: %d\n" := by
    rw [Format.text, List.flatMap_append, htext]
    rfl
  have hargs' : Format.args ⟨ps ++ [.int value, .char 10 (by decide) (by decide)], false⟩ =
      [value.toUInt32] := by
    rw [Format.args, List.flatMap_append, hargs]
    rfl
  have hrendered' : Format.rendered ⟨ps ++ [.int value, .char 10 (by decide) (by decide)], false⟩ =
      ascii "Result: " ++ decInt value.toInt ++ ascii "\n" := by
    rw [Format.rendered, List.flatMap_append, hrendered]
    simp [Format.lone, Piece.rendered, ascii]
  have hheld' : ∀ p ∈ ps ++ [.int value, .char 10 (by decide) (by decide)],
      Piece.Held (literal "Result: %d\n") p := by
    intro p hp
    rcases List.mem_append.1 hp with hp | hp
    · exact hheld p hp
    · simp only [List.mem_cons, List.not_mem_nil, or_false] at hp
      rcases hp with rfl | rfl <;> trivial
  have hlen' : (ascii "Result: " ++ decInt value.toInt ++ ascii "\n").length =
      8 + (decInt value.toInt).length + 1 := by
    rw [List.length_append, List.length_append]
    rfl
  have hprint := printfLiteral_eq (n := n) htext' (by decide) hheld'
    (by
      rw [hrendered', hlen', List.length_append, hlen8]
      simp only [List.length_cons, List.length_nil]
      omega)
  rwa [hargs', hrendered'] at hprint

theorem report_answer {e : Problem} (h : ¬ e.Overflows) :
    ∃ k, ∀ n, k ≤ n →
      report n (calculate ⟨e.a, e.op.char, e.b⟩) = some (.again, e.answer) := by
  rcases calculate_result h with ⟨v, hv, hvalue⟩ | ⟨hzero, hvalue⟩
  · refine ⟨(decInt v.toInt).length + 40, fun n hn => ?_⟩
    rw [hv, report, printfLiteral_result v hn, Problem.answer, hvalue]
    rfl
  · refine ⟨70, fun n hn => ?_⟩
    have hprint := printfLiteral_plain "Error: Division by zero\n" (n := n) (by decide +kernel)
      (Nat.le_trans (by decide) hn)
    rw [hzero, report, hprint, Problem.answer, hvalue]
    rfl

/-! ## A turn -/

/-- The characters of a line and the one that ends it. -/
def typedLine (bs : List UInt8) (nl : Int) (rest : List Int) : List Int :=
  bs.map (fun c => (c.toNat : Int)) ++ nl :: rest

def Printable (c : UInt8) : Prop := 0x20 ≤ c.toNat ∧ c.toNat < 0x7F

instance (c : UInt8) : Decidable (Printable c) := inferInstanceAs (Decidable (_ ∧ _))

theorem decInt_printable (v : Int) : ∀ c ∈ decInt v, Printable c := by
  have hdec : ∀ c ∈ dec v.natAbs, Printable c := by
    intro c hc
    obtain ⟨d, hd, rfl⟩ := List.mem_map.1 hc
    have hdigit := (isDigit_iff _).1
      (digit_toNat (Nat.isDigit_of_mem_toDigits (by decide) (by decide) hd)).2
    exact ⟨by omega, by omega⟩
  intro c hc
  unfold decInt at hc
  split at hc
  · rcases List.mem_append.1 hc with hc | hc
    · rw [List.mem_singleton.1 hc]
      decide
    · exact hdec c hc
  · exact hdec c hc

theorem Problem.line_printable (e : Problem) : ∀ c ∈ e.line, Printable c := by
  have hblanks : ∀ k, ∀ c ∈ blanks k, Printable c := by
    intro k c hc
    rw [List.eq_of_mem_replicate hc]
    decide
  have hop : Printable e.op.char := by
    cases e.op <;> decide
  intro c hc
  simp only [line, List.mem_append, List.mem_cons] at hc
  rcases hc with hc | hc | hc | rfl | hc | hc
  · exact hblanks _ c hc
  · exact decInt_printable _ c hc
  · exact hblanks _ c hc
  · exact hop
  · exact hblanks _ c hc
  · exact decInt_printable _ c hc

theorem Problem.line_noNul (e : Problem) : 0 ∉ e.line := by
  intro h0
  exact absurd (e.line_printable 0 h0) (by decide)

/-- No problem starts like the command to leave. -/
theorem Problem.line_headD (e : Problem) : e.line.headD 0 ≠ 'q'.toUInt8 := by
  unfold line
  cases e.spaces with
  | succ k =>
    show ' '.toUInt8 ≠ 'q'.toUInt8
    decide
  | zero => exact decInt_headD_ne (by decide) (by decide) _ _

section Turns

variable {line : Nat} {m : Mem} {nl : Int}

theorem answerLine_eq {n i : Nat} {e : Problem} (h : m.CStringAt i e.line)
    (hn : e.line.length < n) :
    answerLine n i m = report n (calculate ⟨e.a, e.op.char, e.b⟩) := by
  have hquit : ¬ (m i = 'q'.toUInt8 ∧ m (i + 1) = 0) := by
    rintro ⟨hq, -⟩
    rw [h.head] at hq
    exact e.line_headD hq
  rw [answerLine, if_neg hquit, parseLine_eq h hn]
  rfl

/-- A turn with a printable line: the prompt, its echo, and what the line is answered with. -/
theorem calculatorTurn_eq {n : Nat} {bs : List UInt8} (hfit : bs.length ≤ 63)
    (hbs : ∀ c ∈ bs, Printable c) (hnl : EndsLine nl) (rest : List Int) (hn : 40 ≤ n) :
    calculatorTurn n line m (typedLine bs nl rest) =
      (answerLine n line (m.write line (bs ++ [0]))).map fun p =>
        ⟨p.1, m.write line (bs ++ [0]), ascii "Calculate: " ++ (bs ++ [0x0A]) ++ p.2, rest⟩ := by
  have hprompt := printfLiteral_plain "Calculate: " (n := n) (by decide +kernel)
    (Nat.le_trans (by decide) hn)
  have hread : readline m line 64 (typedLine bs nl rest) =
      some ⟨m.write line (bs ++ [0]), bs ++ [0x0A], (0 + bs.length : Nat), rest⟩ :=
    readlineLoop_printable (s := ⟨m, 0, []⟩) rest (by dsimp only; omega) hbs hnl
  unfold calculatorTurn
  simp only [hprompt, hread, Option.bind_eq_bind, Option.bind_some]
  cases answerLine n line (m.write line (bs ++ [0])) with
  | none => rfl
  | some p => rfl

/-- The turn in which the problem is typed at the prompt: its operands and operator
are read back, its answer is printed, and the loop goes on. -/
structure Evaluates (line : Nat) (m : Mem) (nl : Int) (rest : List Int) (e : Problem) : Prop where
  parsed : ∃ k, ∀ n, k ≤ n →
    parseLine (m.write line (e.line ++ [0])) n line = some (some ⟨e.a, e.op.char, e.b⟩)
  printed : ∃ k, ∀ n, k ≤ n →
    calculatorTurn n line m (typedLine e.line nl rest) =
      some ⟨.again, m.write line (e.line ++ [0]),
        ascii "Calculate: " ++ (e.line ++ [0x0A]) ++ e.answer, rest⟩

theorem calculatorTurn_problem {n : Nat} {e : Problem} (hfit : e.line.length ≤ 62)
    (hnl : EndsLine nl) (rest : List Int) (hn : 70 ≤ n) :
    calculatorTurn n line m (typedLine e.line nl rest) =
      (report n (calculate ⟨e.a, e.op.char, e.b⟩)).map fun p =>
        ⟨p.1, m.write line (e.line ++ [0]),
          ascii "Calculate: " ++ (e.line ++ [0x0A]) ++ p.2, rest⟩ := by
  rw [calculatorTurn_eq (by omega) e.line_printable hnl rest (by omega),
    answerLine_eq (Mem.cStringAt_write m line e.line_noNul) (by omega)]

theorem evaluates_of_not_overflows (line : Nat) (m : Mem) {e : Problem}
    (hfit : e.line.length ≤ 62) (hnl : EndsLine nl) (rest : List Int) (h : ¬ e.Overflows) :
    Evaluates line m nl rest e := by
  refine ⟨⟨e.line.length + 1, fun n hn => ?_⟩, ?_⟩
  · exact parseLine_eq (Mem.cStringAt_write m line e.line_noNul) hn
  · obtain ⟨k, hk⟩ := report_answer h
    refine ⟨max k 70, fun n hn => ?_⟩
    rw [calculatorTurn_problem hfit hnl rest (by omega), hk n (by omega)]
    rfl

/-- The quotient that does not fit ends the program at the `idiv`. -/
theorem calculatorTurn_overflows (line : Nat) (m : Mem) {n : Nat} {e : Problem}
    (hfit : e.line.length ≤ 62) (hnl : EndsLine nl) (rest : List Int) (hn : 70 ≤ n)
    (h : e.Overflows) :
    calculatorTurn n line m (typedLine e.line nl rest) =
      some ⟨.divideError, m.write line (e.line ++ [0]),
        ascii "Calculate: " ++ (e.line ++ [0x0A]), rest⟩ := by
  rw [calculatorTurn_problem hfit hnl rest hn, calculate_overflow h]
  simp [report]

theorem not_evaluates_of_overflows {e : Problem} (hfit : e.line.length ≤ 62) (hnl : EndsLine nl)
    (rest : List Int) (h : e.Overflows) : ¬ Evaluates line m nl rest e := by
  rintro ⟨-, k, hk⟩
  have hturn := hk (max k 70) (Nat.le_max_left _ _)
  rw [calculatorTurn_overflows line m hfit hnl rest (Nat.le_max_right _ _) h] at hturn
  have hstatus : Status.divideError = Status.again :=
    congrArg Turn.status (Option.some.inj hturn)
  cases hstatus

end Turns

/-- The calculator evaluates what is typed, at any of its prompts, unless the
quotient of the smallest `int` and `-1` is asked for. -/
theorem calculator_evaluates_iff (line : Nat) (m : Mem) (nl : Int) (rest : List Int) (e : Problem)
    (hfit : e.line.length ≤ 62) (hnl : EndsLine nl) :
    Evaluates line m nl rest e ↔ ¬ e.Overflows :=
  ⟨fun he h => not_evaluates_of_overflows hfit hnl rest h he,
    evaluates_of_not_overflows line m hfit hnl rest⟩

/-- `  -7 / 2`. -/
theorem calculator_evaluates_iff_sample :
    Evaluates 0x1000 (fun _ => 0xAA) 0x0A [] ⟨-7, .div, 2, 2, 1, 1⟩ ↔
      ¬ Problem.Overflows ⟨-7, .div, 2, 2, 1, 1⟩ :=
  calculator_evaluates_iff 0x1000 _ 0x0A [] _ (by decide) (Or.inl rfl)

/-- `-2147483648 / -1`. -/
theorem calculator_faults_on_int_min :
    ¬ Evaluates 0x1000 (fun _ => 0xAA) 0x0A [] ⟨Int32.minValue, .div, -1, 0, 1, 1⟩ :=
  not_evaluates_of_overflows (by decide) (Or.inl rfl) [] ⟨rfl, rfl, rfl⟩

/-! ## A session -/

/-- The problems typed one behind the other, and then `tail`. -/
def session (es : List Problem) (tail : List Int) : List Int :=
  es.foldr (fun e rest => typedLine e.line 0x0A rest) tail

/-- What is shown for them. -/
def transcript (es : List Problem) : List UInt8 :=
  es.flatMap fun e => ascii "Calculate: " ++ (e.line ++ [0x0A]) ++ e.answer

section Sessions

variable {line : Nat} {m : Mem} {es : List Problem}

/-- The loop answers them in turn, and is at `tail` then. -/
theorem calculatorLoop_session (line : Nat) (m : Mem) (hfit : ∀ e ∈ es, e.line.length ≤ 62)
    (hok : ∀ e ∈ es, ¬ e.Overflows) (tail : List Int) :
    ∃ m' k, ∀ n, k ≤ n → ∀ j,
      calculatorLoop n line (es.length + j) m (session es tail) =
        (calculatorLoop n line j m' tail).map fun t =>
          { t with output := transcript es ++ t.output } := by
  induction es generalizing m with
  | nil =>
    refine ⟨m, 0, fun n _ j => ?_⟩
    rw [List.length_nil, Nat.zero_add]
    exact Option.map_id'.symm
  | cons e es ih =>
    obtain ⟨-, k, hk⟩ := evaluates_of_not_overflows line m
      (hfit e List.mem_cons_self) (Or.inl rfl) (session es tail) (hok e List.mem_cons_self)
    obtain ⟨m', k', hrest⟩ := ih (m.write line (e.line ++ [0]))
      (fun e he => hfit e (List.mem_cons_of_mem _ he))
      fun e he => hok e (List.mem_cons_of_mem _ he)
    refine ⟨m', max k k', fun n hn j => ?_⟩
    have hturn := hk n (by omega)
    have hlen : (e :: es).length + j = es.length + j + 1 := by
      rw [List.length_cons]
      omega
    have htail : session (e :: es) tail = typedLine e.line 0x0A (session es tail) := rfl
    rw [hlen, htail, calculatorLoop, hturn, Option.bind_some, if_pos rfl, hrest n (by omega) j,
      Option.map_map]
    refine congrArg (fun f => Option.map f _) (funext fun t => ?_)
    simp [transcript]

def banner : List UInt8 :=
  ascii "\n=== Simple Calculator ===\n" ++ ascii "Enter two numbers and operator (+, -, *, /)\n" ++
    ascii "Example: 12 + 5\n" ++ ascii "Type 'q' to quit\n\n"

theorem calculatorDemo_eq {n : Nat} (hn : 110 ≤ n) (input : List Int) :
    calculatorDemo n line m input =
      (calculatorLoop n line n m input).map fun t => { t with output := banner ++ t.output } := by
  have h1 := printfLiteral_plain "\n=== Simple Calculator ===\n" (n := n) (by decide +kernel)
    (Nat.le_trans (by decide) hn)
  have h2 := printfLiteral_plain "Enter two numbers and operator (+, -, *, /)\n" (n := n)
    (by decide +kernel) (Nat.le_trans (by decide) hn)
  have h3 := printfLiteral_plain "Example: 12 + 5\n" (n := n) (by decide +kernel)
    (Nat.le_trans (by decide) hn)
  have h4 := printfLiteral_plain "Type 'q' to quit\n\n" (n := n) (by decide +kernel)
    (Nat.le_trans (by decide) hn)
  unfold calculatorDemo
  simp only [h1, h2, h3, h4, Option.bind_eq_bind, Option.bind_some, banner]
  cases calculatorLoop n line n m input with
  | none => rfl
  | some t => rfl

/-- `q` leaves the loop. -/
theorem calculatorTurn_quit (line : Nat) (m : Mem) {n : Nat} {nl : Int} (hnl : EndsLine nl)
    (rest : List Int) (hn : 50 ≤ n) :
    calculatorTurn n line m (typedLine (ascii "q") nl rest) =
      some ⟨.quit, m.write line (ascii "q" ++ [0]),
        ascii "Calculate: q\nExiting calculator\n", rest⟩ := by
  have hbye := printfLiteral_plain "Exiting calculator\n" (n := n) (by decide +kernel)
    (Nat.le_trans (by decide) hn)
  have hline : (m.write line (ascii "q" ++ [0])).CStringAt line (ascii "q") :=
    Mem.cStringAt_write m line (by decide)
  obtain ⟨hq, -, hend⟩ := (Mem.cStringAt_cons _ _ _ _).1 hline
  have hquit : answerLine n line (m.write line (ascii "q" ++ [0])) =
      some (.quit, ascii "Exiting calculator\n") := by
    rw [answerLine, if_pos ⟨hq, (Mem.cStringAt_nil _ _).1 hend⟩, hbye]
    rfl
  rw [calculatorTurn_eq (by decide) (by decide +kernel) hnl rest (by omega), hquit]
  rfl

/-- A whole session: every problem is answered in its turn, and `q` leaves. -/
theorem calculatorDemo_session {nl : Int} (hfit : ∀ e ∈ es, e.line.length ≤ 62)
    (hok : ∀ e ∈ es, ¬ e.Overflows) (hnl : EndsLine nl) (rest : List Int) :
    ∃ k, ∀ n, k ≤ n → ∃ t,
      calculatorDemo n line m (session es (typedLine (ascii "q") nl rest)) = some t ∧
        t.status = .quit ∧ t.rest = rest ∧
        t.output =
          banner ++ (transcript es ++ ascii "Calculate: q\nExiting calculator\n") := by
  obtain ⟨m', k, hloop⟩ := calculatorLoop_session line m hfit hok
    (typedLine (ascii "q") nl rest)
  refine ⟨max (max k 110) (es.length + 1), fun n hn => ?_⟩
  obtain ⟨j, rfl⟩ : ∃ j, n = es.length + (j + 1) := ⟨n - es.length - 1, by omega⟩
  have hquit := calculatorTurn_quit line m' (n := es.length + (j + 1)) hnl rest
    (by omega)
  have hleft : ¬ Status.quit = Status.again := by decide
  rw [calculatorDemo_eq (by omega), hloop _ (by omega), calculatorLoop, hquit, Option.bind_some,
    if_neg hleft]
  exact ⟨_, rfl, rfl, rfl, rfl⟩

/-- A quotient that does not fit ends the session with a divide error, whatever
has been answered before and is typed behind it. -/
theorem calculatorDemo_divideError {bad : Problem} (hfit : ∀ e ∈ es, e.line.length ≤ 62)
    (hok : ∀ e ∈ es, ¬ e.Overflows) (hbadfit : bad.line.length ≤ 62) (hbad : bad.Overflows)
    (tail : List Int) :
    ∃ k, ∀ n, k ≤ n → ∃ t,
      calculatorDemo n line m (session (es ++ [bad]) tail) = some t ∧ t.status = .divideError := by
  obtain ⟨m', k, hloop⟩ := calculatorLoop_session line m hfit hok
    (typedLine bad.line 0x0A tail)
  refine ⟨max (max k 110) (es.length + 1), fun n hn => ?_⟩
  obtain ⟨j, rfl⟩ : ∃ j, n = es.length + (j + 1) := ⟨n - es.length - 1, by omega⟩
  have hfault := calculatorTurn_overflows line m' (n := es.length + (j + 1))
    hbadfit (Or.inl rfl) tail (by omega) hbad
  have hleft : ¬ Status.divideError = Status.again := by decide
  have hinput : session (es ++ [bad]) tail = session es (typedLine bad.line 0x0A tail) :=
    List.foldr_append
  rw [calculatorDemo_eq (by omega), hinput, hloop _ (by omega), calculatorLoop, hfault,
    Option.bind_some, if_neg hleft]
  exact ⟨_, rfl, rfl⟩

end Sessions

end MiniKvm.Os1k
