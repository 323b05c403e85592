import Mathlib.Data.Nat.Fib.Basic
import Mathlib.Data.Nat.PrimeFin
import Mathlib.NumberTheory.PrimeCounting
import MiniKvm.Core.ForLoop
import MiniKvm.Os1k.Calculator

/-!
# The demos of the shell

The demos of the shell (os-1k/shell.c) that read nothing, up to the characters
they print. Trial division decides primality and the loop of `gcd_demo` is
Euclid's, for all numbers whose squares are an `int` (`trialLoop_eq`,
`euclid_eq`).
-/
namespace MiniKvm.Os1k

open Vmm (ascii decInt dec)

/-! ## The source -/

/-- `printf` of texts without arguments, one after the other. -/
def printTexts (n : Nat) : List String → Option (List UInt8)
  | [] => some []
  | s :: ss => do
    let text ← printfLiteral n s []
    let rest ← printTexts n ss
    some (text ++ rest)

def menuTexts : List String :=
  ["\n=== 1K OS Menu ===\n\n",
    "  1. Multiplication Table (2x1 ~ 9x9)\n",
    "  2. Counter (0-9)\n",
    "  3. Echo (interactive)\n",
    "  4. Fibonacci Sequence\n",
    "  5. Prime Numbers (up to 100)\n",
    "  6. Calculator\n",
    "  7. Factorial (0! ~ 12!)\n",
    "  8. GCD (Greatest Common Divisor)\n",
    "  9. About 1K OS\n",
    "  0. Exit\n",
    "\nSelect: "]

/-- mirrors kvm-vmm-x86/os-1k/shell.c:10-23 -/
def showMenu (n : Nat) : Option (List UInt8) := printTexts n menuTexts

/-- The inner loop, and its newline.
mirrors kvm-vmm-x86/os-1k/shell.c:28-31 -/
def multiplicationRow (n : Nat) (i : Int32) : Option (List UInt8) := do
  let (_, row) ← forLoop (· ≤ 9) (fun j _ =>
    (printfLiteral n "%d*%d=%d " [i.toUInt32, j.toUInt32, (i * j).toUInt32]).map ((), ·)) n 1 ()
  let newline ← printfLiteral n "\n" []
  some (row ++ newline)

/-- mirrors kvm-vmm-x86/os-1k/shell.c:25-33 -/
def multiplicationDemo (n : Nat) : Option (List UInt8) := do
  let title ← printfLiteral n "\n=== Multiplication Table ===\n" []
  let (_, table) ← forLoop (· ≤ 9) (fun i _ => (multiplicationRow n i).map ((), ·)) n 2 ()
  some (title ++ table)

/-- mirrors kvm-vmm-x86/os-1k/shell.c:35-41 -/
def counterDemo (n : Nat) : Option (List UInt8) := do
  let title ← printfLiteral n "\n=== Counter 0-9 ===\n" []
  let (_, count) ← forLoop (· ≤ 9)
    (fun i _ => (printfLiteral n "%d " [i.toUInt32]).map ((), ·)) n 0 ()
  let newline ← printfLiteral n "\n" []
  some (title ++ count ++ newline)

/-- `s` is `a` and `b`.
mirrors kvm-vmm-x86/os-1k/shell.c:71-74 -/
def fibonacciTurn (n : Nat) (i : Int32) (s : Int32 × Int32) :
    Option ((Int32 × Int32) × List UInt8) :=
  let next := s.1 + s.2
  (printfLiteral n "F(%d) = %d\n" [i.toUInt32, next.toUInt32]).map ((s.2, next), ·)

/-- mirrors kvm-vmm-x86/os-1k/shell.c:64-76 -/
def fibonacciDemo (n : Nat) : Option (List UInt8) := do
  let title ← printfLiteral n "\n=== Fibonacci Sequence (first 15 numbers) ===\n" []
  let f0 ← printfLiteral n "F(0) = %d\n" [(0 : Int32).toUInt32]
  let f1 ← printfLiteral n "F(1) = %d\n" [(1 : Int32).toUInt32]
  let (_, fs) ← forLoop (· < 15) (fibonacciTurn n) n 2 (0, 1)
  some (title ++ f0 ++ f1 ++ fs)

/-- `is_prime`, from the divisor `i` on.
mirrors kvm-vmm-x86/os-1k/shell.c:83-89 -/
def trialLoop (v : Int32) : Nat → Int32 → Option Bool
  | 0, _ => none
  | n + 1, i =>
    if i * i ≤ v then
      if v % i = 0 then some false else trialLoop v n (i + 1)
    else some true

/-- `if (c) printf(s);`. -/
def printfIf (n : Nat) (c : Prop) [Decidable c] (s : String) : Option (List UInt8) :=
  if c then printfLiteral n s [] else some []

/-- mirrors kvm-vmm-x86/os-1k/shell.c:82-96 -/
def primeTurn (n : Nat) (v count : Int32) : Option (Int32 × List UInt8) := do
  if ← trialLoop v n 2 then
    let number ← printfLiteral n "%d " [v.toUInt32]
    let newline ← printfIf n ((count + 1) % 10 = 0) "\n"
    some (count + 1, number ++ newline)
  else some (count, [])

/-- mirrors kvm-vmm-x86/os-1k/shell.c:78-102 -/
def primeDemo (n : Nat) : Option (List UInt8) := do
  let title ← printfLiteral n "\n=== Prime Numbers up to 100 ===\n" []
  let (count, primes) ← forLoop (· ≤ 100) (primeTurn n) n 2 0
  let newline ← printfIf n (count % 10 ≠ 0) "\n"
  let total ← printfLiteral n "Total: %d primes\n" [count.toUInt32]
  some (title ++ primes ++ newline ++ total)

/-- mirrors kvm-vmm-x86/os-1k/shell.c:199-202 -/
def factorialTurn (n : Nat) (k result : Int32) : Option (Int32 × List UInt8) :=
  let result := result * k
  (printfLiteral n "%d! = %d\n" [k.toUInt32, result.toUInt32]).map (result, ·)

/-- mirrors kvm-vmm-x86/os-1k/shell.c:192-204 -/
def factorialDemo (n : Nat) : Option (List UInt8) := do
  let title ← printfLiteral n "\n=== Factorial Calculator ===\n" []
  let what ← printfLiteral n "Calculating factorials for n = 0 to 12\n\n" []
  let first ← printfLiteral n "0! = %d\n" [(1 : Int32).toUInt32]
  let (_, lines) ← forLoop (· ≤ 12) (factorialTurn n) n 1 1
  let note ← printfLiteral n "\nNote: 13! = 6227020800 (overflow on 32-bit)\n" []
  some (title ++ what ++ first ++ lines ++ note)

/-- mirrors kvm-vmm-x86/os-1k/shell.c:224-229 -/
def euclid : Nat → Int32 → Int32 → Option Int32
  | 0, _, _ => none
  | n + 1, a, b => if b ≠ 0 then euclid n b (a % b) else some a

def pairs : List (Int32 × Int32) := [(48, 18), (100, 75), (123, 456), (17, 19), (1071, 462)]

/-- mirrors kvm-vmm-x86/os-1k/shell.c:219-232 -/
def gcdTurn (n : Nat) (i : Int32) : Option (List UInt8) := do
  let (a, b) ← pairs[i.toInt.toNat]?
  let d ← euclid n a b
  printfLiteral n "GCD(%d, %d) = %d\n" [a.toUInt32, b.toUInt32, d.toUInt32]

/-- mirrors kvm-vmm-x86/os-1k/shell.c:206-233 -/
def gcdDemo (n : Nat) : Option (List UInt8) := do
  let title ← printfLiteral n "\n=== GCD (Greatest Common Divisor) ===\n" []
  let what ← printfLiteral n "Examples of Euclidean algorithm:\n\n" []
  let (_, lines) ← forLoop (· < 5) (fun i _ => (gcdTurn n i).map ((), ·)) n 0 ()
  some (title ++ what ++ lines)

def aboutTexts : List String :=
  ["\n=== About 1K OS ===\n",
    "1K OS: Operating System in 1000 Lines\n",
    "Ported from RISC-V to x86 Protected Mode\n",
    "Features:\n",
    "  - Protected Mode with Paging\n",
    "  - Keyboard and Timer Interrupts\n",
    "  - Simple Shell\n",
    "  - User Programs: 9 demos\n",
    "\nMini-KVM VMM Project\n",
    "Educational hypervisor using KVM API\n"]

/-- mirrors kvm-vmm-x86/os-1k/shell.c:235-246 -/
def aboutDemo (n : Nat) : Option (List UInt8) := printTexts n aboutTexts

/-! ## What is due -/

def tableText : List UInt8 :=
  ascii "\n=== Multiplication Table ===\n" ++ (List.range' 2 8).flatMap fun i =>
    ((List.range' 1 9).flatMap fun j =>
      dec i ++ ascii "*" ++ dec j ++ ascii "=" ++ dec (i * j) ++ ascii " ") ++ ascii "\n"

def counterText : List UInt8 :=
  ascii "\n=== Counter 0-9 ===\n" ++ (List.range' 0 10).flatMap (fun i => dec i ++ ascii " ") ++
    ascii "\n"

def fibonacciLine (i : Nat) : List UInt8 :=
  ascii "F(" ++ dec i ++ ascii ") = " ++ dec (Nat.fib i) ++ ascii "\n"

def fibonacciText : List UInt8 :=
  ascii "\n=== Fibonacci Sequence (first 15 numbers) ===\n" ++ (List.range 15).flatMap fibonacciLine

/-- A prime, and a newline behind every tenth. -/
def primeEntry (v : Nat) : List UInt8 :=
  if v.Prime then dec v ++ ascii " " ++ if v.primeCounting % 10 = 0 then ascii "\n" else [] else []

def primeText : List UInt8 :=
  ascii "\n=== Prime Numbers up to 100 ===\n" ++ (List.range' 2 99).flatMap primeEntry ++
    (if Nat.primeCounting 100 % 10 ≠ 0 then ascii "\n" else []) ++
    (ascii "Total: " ++ dec (Nat.primeCounting 100) ++ ascii " primes\n")

def factorialLine (k : Nat) : List UInt8 := dec k ++ ascii "! = " ++ dec k.factorial ++ ascii "\n"

def factorialText : List UInt8 :=
  ascii "\n=== Factorial Calculator ===\n" ++ ascii "Calculating factorials for n = 0 to 12\n\n" ++
    (List.range 13).flatMap factorialLine ++
    ascii "\nNote: 13! = 6227020800 (overflow on 32-bit)\n"

def gcdLine (p : Nat × Nat) : List UInt8 :=
  ascii "GCD(" ++ dec p.1 ++ ascii ", " ++ dec p.2 ++ ascii ") = " ++ dec (p.1.gcd p.2) ++
    ascii "\n"

def gcdExamples : List (Nat × Nat) := [(48, 18), (100, 75), (123, 456), (17, 19), (1071, 462)]

def gcdText : List UInt8 :=
  ascii "\n=== GCD (Greatest Common Divisor) ===\n" ++
    ascii "Examples of Euclidean algorithm:\n\n" ++ gcdExamples.flatMap gcdLine

/-! ## Formats with arguments -/

theorem Piece.zero_not_mem_text (p : Piece) : 0 ∉ p.text := by
  rcases p.text_cases with ⟨c, hc, _, rfl⟩ | ⟨htext, hletter⟩
  · exact fun h0 => hc (List.mem_singleton.1 h0).symm
  · rw [htext]
    simp only [List.mem_cons, List.not_mem_nil, or_false, not_or]
    exact ⟨by decide, fun h0 => hletter h0.symm⟩

/-- Without a conversion. -/
def plainBytes (bs : List UInt8) : Bool := bs.all fun c => c != 0 && c != '%'.toUInt8

theorem ne_of_plainBytes {bs : List UInt8} (h : plainBytes bs = true) :
    ∀ c ∈ bs, c ≠ 0 ∧ c ≠ '%'.toUInt8 := by
  intro c hc
  have hne := List.all_eq_true.1 h c hc
  rwa [Bool.and_eq_true, bne_iff_ne, bne_iff_ne] at hne

/-- A part of a format, its arguments, and what is printed for it. -/
def Renders (m : Mem) (text : List UInt8) (args : List UInt32) (out : List UInt8) : Prop :=
  ∃ ps : List Piece, ps.flatMap Piece.text = text ∧ ps.flatMap Piece.args = args ∧
    ps.flatMap Piece.rendered = out ∧ (∀ p ∈ ps, p.Held m) ∧ ps.length ≤ text.length

namespace Renders

variable {m : Mem} {text text' : List UInt8} {args args' : List UInt32} {out out' : List UInt8}

theorem of_piece (p : Piece) (h : p.Held m) : Renders m p.text p.args p.rendered := by
  refine ⟨[p], List.append_nil _, List.append_nil _, List.append_nil _, fun q hq => ?_, ?_⟩
  · rwa [List.mem_singleton.1 hq]
  · cases p <;> exact Nat.succ_le_succ (Nat.zero_le _)

theorem plain {b : List UInt8} (h : plainBytes b = true) : Renders m b [] b := by
  obtain ⟨ps, hlen, htext, hargs, hrendered, hheld⟩ := exists_plain m b (ne_of_plainBytes h)
  exact ⟨ps, htext, hargs, hrendered, hheld, Nat.le_of_eq hlen⟩

theorem int (value : Int32) : Renders m (ascii "%d") [value.toUInt32] (decInt value.toInt) :=
  of_piece (.int value) trivial

theorem append (h : Renders m text args out) (h' : Renders m text' args' out') :
    Renders m (text ++ text') (args ++ args') (out ++ out') := by
  obtain ⟨ps, htext, hargs, hout, hheld, hlen⟩ := h
  obtain ⟨ps', htext', hargs', hout', hheld', hlen'⟩ := h'
  refine ⟨ps ++ ps', ?_, ?_, ?_, fun p hp => ?_, ?_⟩
  · rw [List.flatMap_append, htext, htext']
  · rw [List.flatMap_append, hargs, hargs']
  · rw [List.flatMap_append, hout, hout']
  · exact (List.mem_append.1 hp).elim (hheld p) (hheld' p)
  · rw [List.length_append, List.length_append]
    omega

theorem zero_not_mem (h : Renders m text args out) : 0 ∉ text := by
  obtain ⟨ps, rfl, -⟩ := h
  intro h0
  obtain ⟨p, -, hp⟩ := List.mem_flatMap.1 h0
  exact p.zero_not_mem_text hp

/-- Arguments that are left over do not matter. -/
theorem printf_eq (h : Renders m text args out) {n fmt : Nat} (rest : List UInt32)
    (hfmt : m.CStringAt fmt text) (hn : out.length + text.length + 11 ≤ n) :
    printf n m fmt (args ++ rest) = some out := by
  obtain ⟨ps, htext, rfl, rfl, hheld, hlen⟩ := h
  have htext' : Format.text ⟨ps, false⟩ = text := by
    rw [Format.text, htext]
    exact List.append_nil _
  have hrendered : Format.rendered ⟨ps, false⟩ = ps.flatMap Piece.rendered := List.append_nil _
  have hloop : printfLoop n m n fmt (Format.args ⟨ps, false⟩ ++ rest) =
      some (Format.rendered ⟨ps, false⟩) :=
    printfLoop_eq (htext' ▸ hfmt) hheld (by rw [hrendered]; omega) (by omega)
  rw [hrendered] at hloop
  exact hloop

theorem printfLiteral_eq {n : Nat} {fmt : String} {args : List UInt32}
    (h : Renders (literal fmt) (ascii fmt) args out) (rest : List UInt32)
    (hn : out.length + (ascii fmt).length + 11 ≤ n) :
    printfLiteral n fmt (args ++ rest) = some out :=
  h.printf_eq rest (Mem.cStringAt_write _ 0 h.zero_not_mem) hn

end Renders

theorem decInt_length (v : Int32) : (decInt v.toInt).length ≤ 11 := by
  have hlow := v.le_toInt
  have hhigh := v.toInt_lt
  have hdec : (dec v.toInt.natAbs).length ≤ 10 := by
    rw [dec, List.length_map, Nat.length_toDigits_le_iff (by decide) (by decide)]
    omega
  unfold decInt
  split
  · rw [List.length_append]
    exact Nat.add_le_add (Nat.le_of_eq rfl) hdec
  · omega

section Numbers

variable {m : Mem} {v : Nat}

/-- A number that is an `int`, as `%d` prints it. -/
theorem decInt_ofNat (h : v < 2 ^ 31) : decInt (Int32.ofNat v).toInt = dec v := by
  rw [Int32.toInt_ofNat_of_lt h, decInt, if_neg (by omega)]
  rfl

theorem Renders.nat (h : v < 2 ^ 31) :
    Renders m (ascii "%d") [(Int32.ofNat v).toUInt32] (dec v) :=
  decInt_ofNat h ▸ Renders.int (Int32.ofNat v)

theorem dec_length (h : v < 2 ^ 31) : (dec v).length ≤ 11 := decInt_ofNat h ▸ decInt_length _

end Numbers

/-- Numbers, each behind a text, and a text at the end. -/
theorem Renders.numbers {m : Mem} {segs : List (List UInt8 × Nat)} {last : List UInt8}
    (hplain : segs.all (fun s => plainBytes s.1) = true) (hlast : plainBytes last = true)
    (hv : ∀ s ∈ segs, s.2 < 2 ^ 31) :
    Renders m (segs.flatMap (fun s => s.1 ++ ascii "%d") ++ last)
      (segs.map fun s => (Int32.ofNat s.2).toUInt32)
      (segs.flatMap (fun s => s.1 ++ dec s.2) ++ last) := by
  induction segs with
  | nil => exact .plain hlast
  | cons s segs ih =>
    rw [List.all_cons, Bool.and_eq_true] at hplain
    have hrest := ih hplain.2 fun t ht => hv t (List.mem_cons_of_mem _ ht)
    have hfirst := (Renders.plain (m := m) hplain.1).append (.nat (hv s List.mem_cons_self))
    rw [List.flatMap_cons, List.flatMap_cons, List.append_assoc _ _ last,
      List.append_assoc _ _ last]
    exact hfirst.append hrest

theorem numbers_length {segs : List (List UInt8 × Nat)} (hv : ∀ s ∈ segs, s.2 < 2 ^ 31) :
    (segs.flatMap fun s => s.1 ++ dec s.2).length ≤
      (segs.flatMap fun s => s.1 ++ ascii "%d").length + 9 * segs.length := by
  induction segs with
  | nil => exact Nat.le_refl 0
  | cons s segs ih =>
    have hrest := ih fun t ht => hv t (List.mem_cons_of_mem _ ht)
    have hdec := dec_length (hv s List.mem_cons_self)
    have hconversion : (ascii "%d").length = 2 := rfl
    simp only [List.flatMap_cons, List.length_append, List.length_cons, hconversion]
    omega

theorem printfLiteral_numbers (fmt : String) (segs : List (List UInt8 × Nat)) {n : Nat}
    {z : List UInt8} (hfmt : ascii fmt = segs.flatMap (fun s => s.1 ++ ascii "%d") ++ z)
    (hplain : segs.all (fun s => plainBytes s.1) = true) (hlast : plainBytes z = true)
    (hv : ∀ s ∈ segs, s.2 < 2 ^ 31)
    (hfit : (ascii fmt).length ≤ 40) (hsegs : segs.length ≤ 3) (hn : 200 ≤ n) :
    printfLiteral n fmt (segs.map fun s => (Int32.ofNat s.2).toUInt32) =
      some (segs.flatMap (fun s => s.1 ++ dec s.2) ++ z) := by
  have hlen := numbers_length hv
  rw [hfmt] at hfit
  rw [← List.append_nil (segs.map _)]
  refine (hfmt ▸ Renders.numbers hplain hlast hv).printfLiteral_eq [] ?_
  rw [hfmt]
  simp only [List.length_append] at hfit ⊢
  omega

/-- Short, and without a conversion. -/
def plainText (s : String) : Bool := (ascii s).length.ble 94 && plainBytes (ascii s)

theorem printfLiteral_text (s : String) (h : plainText s = true) {n : Nat} (hn : 200 ≤ n) :
    printfLiteral n s [] = some (ascii s) := by
  rw [plainText, Bool.and_eq_true] at h
  have hfit := Nat.le_of_ble_eq_true h.1
  exact printfLiteral_plain s (ne_of_plainBytes h.2) (by omega)

theorem printTexts_eq {n : Nat} {ss : List String} (h : ss.all plainText = true) (hn : 200 ≤ n) :
    printTexts n ss = some (ss.flatMap ascii) := by
  induction ss with
  | nil => rfl
  | cons s ss ih =>
    rw [List.all_cons, Bool.and_eq_true] at h
    rw [printTexts, printfLiteral_text s h.1 hn, ih h.2]
    rfl

/-! ## Trial division -/

/-- No divisor up to `i` has been found, and the squares fit. -/
theorem trialLoop_eq {v : Nat} (hv : v < 2 ^ 30) {n i : Nat} (hi : 2 ≤ i) (hn : v < i + n)
    (hfit : (i - 1) * (i - 1) ≤ v) (hnone : ∀ d, 2 ≤ d → d < i → ¬ d ∣ v) (h2 : 2 ≤ v) :
    trialLoop (Int32.ofNat v) n (Int32.ofNat i) = some (decide v.Prime) := by
  induction n generalizing i with
  | zero =>
    have hself : ¬ v ∣ v := hnone v h2 (by omega)
    exact absurd (Nat.dvd_refl v) hself
  | succ n ih =>
    have hsmall : i ≤ 32768 := by
      by_contra hlarge
      have hsquare : 32768 * 32768 ≤ (i - 1) * (i - 1) := Nat.mul_le_mul (by omega) (by omega)
      omega
    have hsquare : i * i ≤ 32768 * 32768 := Nat.mul_le_mul hsmall hsmall
    have hle : Int32.ofNat i * Int32.ofNat i ≤ Int32.ofNat v ↔ i * i ≤ v := by
      rw [← Int32.ofNat_mul, Int32.le_iff_toInt_le, Int32.toInt_ofNat_of_lt (by omega),
        Int32.toInt_ofNat_of_lt (by omega)]
      exact Int.ofNat_le
    have hmod : Int32.ofNat v % Int32.ofNat i = 0 ↔ i ∣ v := by
      rw [← Int32.toInt_inj, Int32.toInt_mod, Int32.toInt_ofNat_of_lt (by omega),
        Int32.toInt_ofNat_of_lt (by omega), Int.tmod_eq_emod_of_nonneg (by omega),
        Nat.dvd_iff_mod_eq_zero]
      exact Int.ofNat_eq_zero
    rw [trialLoop]
    by_cases hgo : i * i ≤ v
    · rw [if_pos (hle.2 hgo)]
      by_cases hdvd : i ∣ v
      · have htwice : i * 2 ≤ i * i := Nat.mul_le_mul_left i hi
        have hlt : i < v := by omega
        have hcomposite : ¬ v.Prime := Nat.not_prime_of_dvd_of_lt hdvd hi hlt
        rw [if_pos (hmod.2 hdvd), decide_eq_false hcomposite]
      · have hnext : Int32.ofNat i + 1 = Int32.ofNat (i + 1) := (Int32.ofNat_add _ _).symm
        rw [if_neg (mt hmod.1 hdvd), hnext]
        refine ih (by omega) (by omega) hgo (fun d hd hlt => ?_)
        rcases Nat.eq_or_lt_of_le (Nat.le_of_lt_succ hlt) with rfl | hlt
        · exact hdvd
        · exact hnone d hd hlt
    · have hprime : v.Prime := Nat.prime_def_le_sqrt.2 ⟨h2, fun d hd hsqrt =>
        hnone d hd (Nat.lt_of_not_le fun hid =>
          hgo (Nat.le_trans (Nat.mul_le_mul hid hid) (Nat.le_sqrt.1 hsqrt)))⟩
      rw [if_neg (mt hle.1 hgo), decide_eq_true hprime]

/-- Trial division decides primality. -/
theorem trialLoop_prime {v n : Nat} (h2 : 2 ≤ v) (hv : v < 2 ^ 30) (hn : v < n) :
    trialLoop (Int32.ofNat v) n 2 = some (decide v.Prime) :=
  trialLoop_eq (i := 2) hv (Nat.le_refl 2) (by omega) (by omega) (fun d hd hlt => by omega) h2

/-! ## Euclid -/

theorem euclid_eq {a b n : Nat} (ha : a < 2 ^ 31) (hb : b < 2 ^ 31) (hn : b < n) :
    euclid n (Int32.ofNat a) (Int32.ofNat b) = some (Int32.ofNat (a.gcd b)) := by
  induction n generalizing a b with
  | zero => omega
  | succ n ih =>
    have hzero : Int32.ofNat b ≠ 0 ↔ b ≠ 0 := by
      rw [Ne, ← Int32.toInt_inj, Int32.toInt_ofNat_of_lt hb]
      exact not_congr Int.ofNat_eq_zero
    rw [euclid]
    by_cases h0 : b = 0
    · rw [if_neg (mt hzero.1 (not_not.2 h0)), h0, Nat.gcd_zero_right]
    · have hlt : a % b < b := Nat.mod_lt a (Nat.pos_of_ne_zero h0)
      have hmod : Int32.ofNat a % Int32.ofNat b = Int32.ofNat (a % b) := by
        rw [← Int32.toInt_inj, Int32.toInt_mod, Int32.toInt_ofNat_of_lt ha,
          Int32.toInt_ofNat_of_lt hb, Int32.toInt_ofNat_of_lt (by omega),
          Int.tmod_eq_emod_of_nonneg (by omega)]
        rfl
      rw [if_pos (hzero.2 h0), hmod, ih hb (by omega) (by omega), Nat.gcd_comm a b,
        Nat.gcd_rec b a, Nat.gcd_comm]

/-! ## The demos -/

section Demos

variable {n : Nat}

theorem showMenu_eq (hn : 200 ≤ n) : showMenu n = some (menuTexts.flatMap ascii) :=
  printTexts_eq rfl hn

theorem aboutDemo_eq (hn : 200 ≤ n) : aboutDemo n = some (aboutTexts.flatMap ascii) :=
  printTexts_eq rfl hn

theorem printf_entry {i j : Nat} (hi : i < 10) (hj : j < 10) (hn : 200 ≤ n) :
    printfLiteral n "%d*%d=%d " [(Int32.ofNat i).toUInt32, (Int32.ofNat j).toUInt32,
      (Int32.ofNat i * Int32.ofNat j).toUInt32] =
      some (dec i ++ ascii "*" ++ dec j ++ ascii "=" ++ dec (i * j) ++ ascii " ") := by
  have hij : i * j ≤ 9 * 9 := Nat.mul_le_mul (by omega) (by omega)
  have hprint := printfLiteral_numbers "%d*%d=%d " (n := n)
    [([], i), (ascii "*", j), (ascii "=", i * j)] (z := ascii " ") rfl rfl rfl
    (by simp; omega) (by decide) (by simp) hn
  rw [← Int32.ofNat_mul]
  simpa using hprint

theorem multiplicationRow_eq {i : Nat} (hi : i < 10) (hn : 200 ≤ n) :
    multiplicationRow n (Int32.ofNat i) = some (((List.range' 1 9).flatMap fun j =>
      dec i ++ ascii "*" ++ dec j ++ ascii "=" ++ dec (i * j) ++ ascii " ") ++ ascii "\n") := by
  have hrow := forLoop_eq (c := (· ≤ 9)) (n := n) (f := fun _ => ()) (a := 1) (k := 9)
    (b := fun j _ => (printfLiteral n "%d*%d=%d " [(Int32.ofNat i).toUInt32, j.toUInt32,
      (Int32.ofNat i * j).toUInt32]).map ((), ·)) (by omega) (by decide) (by decide)
    fun j _ hj => by rw [printf_entry hi (by omega) hn]; exact rfl
  have hnewline := printfLiteral_text "\n" rfl hn
  unfold multiplicationRow
  rw [show (1 : Int32) = Int32.ofNat 1 from rfl, hrow, hnewline]
  rfl

theorem multiplicationDemo_eq (hn : 200 ≤ n) : multiplicationDemo n = some tableText := by
  have htitle := printfLiteral_text "\n=== Multiplication Table ===\n" rfl hn
  have htable := forLoop_eq (c := (· ≤ 9)) (n := n) (f := fun _ => ()) (a := 2) (k := 8)
    (b := fun i _ => (multiplicationRow n i).map ((), ·)) (by omega) (by decide) (by decide)
    fun i _ hi => by rw [multiplicationRow_eq hi hn]; exact rfl
  unfold multiplicationDemo
  rw [htitle, show (2 : Int32) = Int32.ofNat 2 from rfl, htable]
  rfl

theorem printf_number {v : Nat} (hv : v < 2 ^ 31) (hn : 200 ≤ n) :
    printfLiteral n "%d " [(Int32.ofNat v).toUInt32] = some (dec v ++ ascii " ") := by
  have hprint := printfLiteral_numbers "%d " (n := n) [([], v)] (z := ascii " ") rfl rfl rfl
    (by simp; omega) (by decide) (by simp) hn
  simpa using hprint

theorem counterDemo_eq (hn : 200 ≤ n) : counterDemo n = some counterText := by
  have htitle := printfLiteral_text "\n=== Counter 0-9 ===\n" rfl hn
  have hcount := forLoop_eq (c := (· ≤ 9)) (n := n) (f := fun _ => ()) (a := 0) (k := 10)
    (b := fun i _ => (printfLiteral n "%d " [i.toUInt32]).map ((), ·)) (by omega) (by decide)
    (by decide) fun i _ hi => by rw [printf_number (by omega) hn]; exact rfl
  have hnewline := printfLiteral_text "\n" rfl hn
  unfold counterDemo
  rw [htitle, show (0 : Int32) = Int32.ofNat 0 from rfl, hcount, hnewline]
  rfl

theorem fibonacciTurn_eq {i : Nat} (h2 : 2 ≤ i) (hi : i < 15) (hn : 200 ≤ n) :
    fibonacciTurn n (Int32.ofNat i) (Int32.ofNat (Nat.fib (i - 2)), Int32.ofNat (Nat.fib (i - 1))) =
      some ((Int32.ofNat (Nat.fib (i + 1 - 2)), Int32.ofNat (Nat.fib (i + 1 - 1))),
        fibonacciLine i) := by
  obtain ⟨k, rfl⟩ : ∃ k, i = k + 2 := ⟨i - 2, by omega⟩
  have hfib : Nat.fib (k + 2) ≤ Nat.fib 15 := Nat.fib_mono (by omega)
  have hsmall : Nat.fib 15 = 610 := by decide
  have hnext : Int32.ofNat (Nat.fib k) + Int32.ofNat (Nat.fib (k + 1)) =
      Int32.ofNat (Nat.fib (k + 2)) := by
    rw [← Int32.ofNat_add, Nat.fib_add_two]
  have hprint := printfLiteral_numbers "F(%d) = %d\n" (n := n)
    [(ascii "F(", k + 2), (ascii ") = ", Nat.fib (k + 2))] (z := ascii "\n") rfl rfl rfl
    (by simp; omega) (by decide) (by simp) hn
  have hprint' : printfLiteral n "F(%d) = %d\n" [(Int32.ofNat (k + 2)).toUInt32,
      (Int32.ofNat (Nat.fib (k + 2))).toUInt32] = some (fibonacciLine (k + 2)) := by
    simpa only [fibonacciLine, List.map_cons, List.map_nil, List.flatMap_cons, List.flatMap_nil,
      List.append_assoc, List.append_nil] using hprint
  show (printfLiteral n "F(%d) = %d\n" [(Int32.ofNat (k + 2)).toUInt32,
    (Int32.ofNat (Nat.fib k) + Int32.ofNat (Nat.fib (k + 1))).toUInt32]).map _ = _
  rw [hnext, hprint']
  exact congrArg (fun v => some ((Int32.ofNat (Nat.fib (k + 1)), v), _)) hnext

theorem fibonacciDemo_eq (hn : 200 ≤ n) : fibonacciDemo n = some fibonacciText := by
  have htitle := printfLiteral_text "\n=== Fibonacci Sequence (first 15 numbers) ===\n" rfl hn
  have h0 := printfLiteral_numbers "F(0) = %d\n" (n := n) [(ascii "F(0) = ", 0)]
    (z := ascii "\n") rfl rfl rfl (by simp) (by decide) (by simp) hn
  have h1 := printfLiteral_numbers "F(1) = %d\n" (n := n) [(ascii "F(1) = ", 1)]
    (z := ascii "\n") rfl rfl rfl (by simp) (by decide) (by simp) hn
  have hloop := forLoop_eq (c := (· < 15)) (b := fibonacciTurn n) (n := n) (a := 2)
    (k := 13) (f := fun i => (Int32.ofNat (Nat.fib (i - 2)), Int32.ofNat (Nat.fib (i - 1))))
    (g := fibonacciLine) (by omega) (by decide) (by decide)
    fun i hlow hhigh => fibonacciTurn_eq hlow hhigh hn
  have hstart : forLoop (· < 15) (fibonacciTurn n) n 2 (0, 1) =
      some _ := hloop
  unfold fibonacciDemo
  rw [htitle, show printfLiteral n "F(0) = %d\n" [(0 : Int32).toUInt32] = some _ from h0,
    show printfLiteral n "F(1) = %d\n" [(1 : Int32).toUInt32] = some _ from h1, hstart]
  rfl

theorem ofNat_mod_ten {c : Nat} (hc : c < 2 ^ 31) : Int32.ofNat c % 10 = 0 ↔ c % 10 = 0 := by
  rw [← Int32.toInt_inj, Int32.toInt_mod, Int32.toInt_ofNat_of_lt hc,
    Int.tmod_eq_emod_of_nonneg (by omega)]
  exact Int.ofNat_eq_zero

theorem printfIf_newline {c d : Prop} [Decidable c] [Decidable d] (h : c ↔ d) (hn : 200 ≤ n) :
    printfIf n c "\n" = some (if d then ascii "\n" else []) := by
  have hnewline := printfLiteral_text "\n" rfl hn
  unfold printfIf
  by_cases hd : d
  · rw [if_pos (h.2 hd), if_pos hd, hnewline]
  · rw [if_neg (mt h.1 hd), if_neg hd]

/-- The count is that of the primes below `v`. -/
theorem primeTurn_eq {v : Nat} (h2 : 2 ≤ v) (hv : v ≤ 100) (hn : 200 ≤ n) :
    primeTurn n (Int32.ofNat v) (Int32.ofNat (Nat.primeCounting' v)) =
      some (Int32.ofNat (Nat.primeCounting' (v + 1)), primeEntry v) := by
  have htrial := trialLoop_prime (n := n) h2 (by omega) (by omega)
  have hcount : Nat.primeCounting' v ≤ v := Nat.count_le _
  have hnumber := printf_number (v := v) (by omega) hn
  have hsucc : Int32.ofNat (Nat.primeCounting' v) + 1 = Int32.ofNat (Nat.primeCounting' v + 1) :=
    (Int32.ofNat_add _ _).symm
  unfold primeTurn primeEntry
  rw [htrial, Option.bind_eq_bind, Option.bind_some, hnumber]
  by_cases hprime : v.Prime
  · have hnext : Nat.primeCounting' (v + 1) = Nat.primeCounting' v + 1 := by
      rw [Nat.primeCounting', Nat.count_succ, if_pos hprime]
    have hnewline := printfIf_newline (ofNat_mod_ten (c := Nat.primeCounting' v + 1) (by omega)) hn
    rw [if_pos (decide_eq_true hprime), hsucc, hnewline, if_pos hprime, Nat.primeCounting, hnext]
    rfl
  · have hnext : Nat.primeCounting' (v + 1) = Nat.primeCounting' v := by
      rw [Nat.primeCounting', Nat.count_succ, if_neg hprime, Nat.add_zero]
    have hfalse : ¬ decide v.Prime = true := by rwa [decide_eq_true_iff]
    rw [if_neg hfalse, if_neg hprime, hnext]

theorem primeDemo_eq (hn : 200 ≤ n) : primeDemo n = some primeText := by
  have htitle := printfLiteral_text "\n=== Prime Numbers up to 100 ===\n" rfl hn
  have hloop := forLoop_eq (c := (· ≤ 100)) (b := primeTurn n) (n := n) (a := 2)
    (k := 99) (f := fun v => Int32.ofNat (Nat.primeCounting' v)) (g := primeEntry) (by omega)
    (by decide) (by decide) fun v hlow hhigh => primeTurn_eq hlow (by omega) hn
  have hstart : forLoop (· ≤ 100) (primeTurn n) n 2 0 =
      some (Int32.ofNat (Nat.primeCounting 100), (List.range' 2 99).flatMap primeEntry) := hloop
  have hcount : Nat.primeCounting 100 ≤ 101 := Nat.count_le _
  have hnewline := printfIf_newline (not_congr (ofNat_mod_ten (c := Nat.primeCounting 100)
    (by omega))) hn
  have htotal := printfLiteral_numbers "Total: %d primes\n" (n := n)
    [(ascii "Total: ", Nat.primeCounting 100)] (z := ascii " primes\n") rfl rfl rfl
    (by simp; omega) (by decide) (by simp) hn
  rw [List.map_cons, List.map_nil, List.flatMap_cons, List.flatMap_nil, List.append_nil] at htotal
  unfold primeDemo primeText
  simp only [htitle, hstart, hnewline, htotal, Option.bind_eq_bind, Option.bind_some,
    List.append_assoc]

theorem factorialTurn_eq {k : Nat} (h1 : 1 ≤ k) (hk : k ≤ 12) (hn : 200 ≤ n) :
    factorialTurn n (Int32.ofNat k) (Int32.ofNat (k - 1).factorial) =
      some (Int32.ofNat (k + 1 - 1).factorial, factorialLine k) := by
  have hlast : Nat.factorial 12 = 479001600 := by decide
  have hfact : k.factorial ≤ Nat.factorial 12 := Nat.factorial_le hk
  have hnext : Int32.ofNat (k - 1).factorial * Int32.ofNat k = Int32.ofNat k.factorial := by
    rw [← Int32.ofNat_mul, Nat.mul_comm, Nat.mul_factorial_pred (by omega)]
  have hprint := printfLiteral_numbers "%d! = %d\n" (n := n)
    [([], k), (ascii "! = ", k.factorial)] (z := ascii "\n") rfl rfl rfl
    (by simp; omega) (by decide) (by simp) hn
  have hprint' : printfLiteral n "%d! = %d\n" [(Int32.ofNat k).toUInt32,
      (Int32.ofNat k.factorial).toUInt32] = some (factorialLine k) := by
    simpa only [factorialLine, List.map_cons, List.map_nil, List.flatMap_cons, List.flatMap_nil,
      List.append_assoc, List.append_nil, List.nil_append] using hprint
  unfold factorialTurn
  dsimp only
  rw [hnext, hprint']
  rfl

theorem factorialDemo_eq (hn : 200 ≤ n) : factorialDemo n = some factorialText := by
  have htitle := printfLiteral_text "\n=== Factorial Calculator ===\n" rfl hn
  have hwhat := printfLiteral_text "Calculating factorials for n = 0 to 12\n\n" rfl hn
  have hnote := printfLiteral_text "\nNote: 13! = 6227020800 (overflow on 32-bit)\n" rfl hn
  have hfirst := printfLiteral_numbers "0! = %d\n" (n := n) [(ascii "0! = ", 1)]
    (z := ascii "\n") rfl rfl rfl (by simp) (by decide) (by simp) hn
  have hloop := forLoop_eq (c := (· ≤ 12)) (b := factorialTurn n) (n := n) (a := 1)
    (k := 12) (f := fun k => Int32.ofNat (k - 1).factorial) (g := factorialLine) (by omega)
    (by decide) (by decide) fun k hlow hhigh => factorialTurn_eq hlow (by omega) hn
  have hstart : forLoop (· ≤ 12) (factorialTurn n) n 1 1 =
      some (Int32.ofNat (Nat.factorial 12), (List.range' 1 12).flatMap factorialLine) := hloop
  have hfirst' : printfLiteral n "0! = %d\n" [(1 : Int32).toUInt32] = some (factorialLine 0) :=
    hfirst
  have hrange : List.range 13 = 0 :: List.range' 1 12 := by decide
  unfold factorialDemo factorialText
  rw [hrange, List.flatMap_cons]
  simp only [htitle, hwhat, hfirst', hstart, hnote, Option.bind_eq_bind, Option.bind_some,
    List.append_assoc]

theorem gcdTurn_eq {i : Nat} (hi : i < 5) (hn : 500 ≤ n) :
    gcdTurn n (Int32.ofNat i) = some (gcdLine (gcdExamples.getD i (0, 0))) := by
  have hpair : ∀ i < 5, pairs[(Int32.ofNat i).toInt.toNat]? =
      some (Int32.ofNat (gcdExamples.getD i (0, 0)).1,
        Int32.ofNat (gcdExamples.getD i (0, 0)).2) := by decide
  have hsmall : ∀ i < 5, (gcdExamples.getD i (0, 0)).1 < 2000 ∧
      0 < (gcdExamples.getD i (0, 0)).2 ∧ (gcdExamples.getD i (0, 0)).2 < 500 := by decide
  obtain ⟨ha, hpos, hb⟩ := hsmall i hi
  replace hpair := hpair i hi
  generalize gcdExamples.getD i (0, 0) = p at ha hpos hb hpair ⊢
  obtain ⟨a, b⟩ := p
  dsimp only at ha hpos hb hpair
  have hgcd := Nat.gcd_le_right a hpos
  have heuclid := euclid_eq (a := a) (b := b) (n := n) (by omega) (by omega) (by omega)
  have hprint := printfLiteral_numbers "GCD(%d, %d) = %d\n" (n := n)
    [(ascii "GCD(", a), (ascii ", ", b), (ascii ") = ", a.gcd b)] (z := ascii "\n") rfl rfl rfl
    (by simp; omega) (by decide) (by simp) (by omega)
  have hprint' : printfLiteral n "GCD(%d, %d) = %d\n" [(Int32.ofNat a).toUInt32,
      (Int32.ofNat b).toUInt32, (Int32.ofNat (a.gcd b)).toUInt32] = some (gcdLine (a, b)) := by
    simpa only [gcdLine, List.map_cons, List.map_nil, List.flatMap_cons, List.flatMap_nil,
      List.append_assoc, List.append_nil] using hprint
  unfold gcdTurn
  rw [hpair, Option.bind_eq_bind, Option.bind_some]
  dsimp only
  rw [heuclid, Option.bind_eq_bind, Option.bind_some, hprint']

theorem gcdDemo_eq (hn : 500 ≤ n) : gcdDemo n = some gcdText := by
  have hsmall : 200 ≤ n := by omega
  have htitle := printfLiteral_text "\n=== GCD (Greatest Common Divisor) ===\n" rfl hsmall
  have hwhat := printfLiteral_text "Examples of Euclidean algorithm:\n\n" rfl hsmall
  have hloop := forLoop_eq (c := (· < 5)) (b := fun i _ => (gcdTurn n i).map ((), ·))
    (n := n) (a := 0) (k := 5) (f := fun _ => ())
    (g := fun i => gcdLine (gcdExamples.getD i (0, 0))) (by omega) (by decide) (by decide)
    fun i _ hi => by rw [gcdTurn_eq (by omega) hn]; rfl
  have hstart : forLoop (· < 5) (fun i _ => (gcdTurn n i).map ((), ·)) n 0 () =
      some ((), gcdExamples.flatMap gcdLine) := hloop
  unfold gcdDemo gcdText
  simp only [htitle, hwhat, hstart, Option.bind_eq_bind, Option.bind_some]

end Demos

end MiniKvm.Os1k
