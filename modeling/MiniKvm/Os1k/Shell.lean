import MiniKvm.Os1k.CalculatorLine

/-!
# The shell

`main` of the shell (os-1k/shell.c): a menu, and demos that print or have a
prompt of their own. Two loops run inside the loop of `main`. Seen from the
keyboard there are no nested loops: each line that is typed is answered at
one of three prompts (`Mode.reply`), and takes the shell to another one or
ends it (`converse`). `shell_converses` is this for every input, read as lines
and characters behind the last end of a line.

The 1K OS gives a program no memory but its stack and its image: the buffers
and the one literal that is printed together with a buffer are in a `ShellLayout`.
-/
namespace MiniKvm.Os1k

open Vmm (ascii)

/-! ## The source -/

/-- Where the buffers and the format of `echo_demo` are. -/
structure ShellLayout where
  /-- `char input[8]` of `main`. -/
  input : Nat
  /-- `char line[64]` of `echo_demo`. -/
  echoLine : UInt32
  /-- `char line[64]` of `calculator_demo`. -/
  calculatorLine : Nat
  /-- `"Echo: %s\n"`. -/
  echoFormat : Nat
  apart : echoFormat + 10 ≤ echoLine.toNat ∨ echoLine.toNat + 64 ≤ echoFormat

/-- The two strings may be in different memories.
mirrors kvm-vmm-x86/os-1k/common.c:26-35 -/
def strcmpAt (m m' : Mem) : Nat → Nat → Nat → Option Int
  | 0, _, _ => none
  | n + 1, s1, s2 =>
    if m s1 ≠ 0 ∧ m' s2 ≠ 0 ∧ m s1 = m' s2 then strcmpAt m m' n (s1 + 1) (s2 + 1)
    else some ((m s1).toNat - (m' s2).toNat)

def Turn.after (out : List UInt8) (t : Turn) : Turn := { t with output := out ++ t.output }

/-- `while (1)`, until a turn leaves it; `k` bounds the turns. -/
def turns (turn : Mem → List Int → Option Turn) : Nat → Mem → List Int → Option Turn
  | 0, _, _ => none
  | k + 1, m, input =>
    (turn m input).bind fun t =>
      if t.status = .again then (turns turn k t.mem t.rest).map (Turn.after t.output) else some t

/-- What is done with the line in memory.
mirrors kvm-vmm-x86/os-1k/shell.c:50-59 -/
def echoAnswer (n : Nat) (L : ShellLayout) (m : Mem) (len : Int) :
    Option (Status × List UInt8) := do
  let warning ← printfIf n (len ≥ 63) "Warning: Input truncated to 63 characters\n"
  let difference ← strcmpAt m (literal "quit") n L.echoLine.toNat 0
  if difference = 0 then
    (printfLiteral n "Exiting echo program\n" []).map fun text => (.quit, warning ++ text)
  else
    (printf n (m.write L.echoFormat (ascii "Echo: %s\n" ++ [0])) L.echoFormat [L.echoLine]).map
      fun text => (.again, warning ++ text)

/-- mirrors kvm-vmm-x86/os-1k/shell.c:45-60 -/
def echoTurn (n : Nat) (L : ShellLayout) (m : Mem) (input : List Int) : Option Turn := do
  let prompt ← printfLiteral n "$ " []
  let r ← readline m L.echoLine.toNat 64 input
  let (status, text) ← echoAnswer n L r.mem r.value
  some ⟨status, r.mem, prompt ++ r.echo ++ text, r.rest⟩

/-- mirrors kvm-vmm-x86/os-1k/shell.c:43-62 -/
def echoDemo (n : Nat) (L : ShellLayout) (m : Mem) (input : List Int) : Option Turn := do
  let title ← printfLiteral n "\n=== Echo Program (type 'quit' to exit) ===\n" []
  let t ← turns (echoTurn n L) n m input
  some (t.after title)

/-- A demo that was left is behind; a divide error is the end of the program. -/
def Turn.returned (t : Turn) : Turn :=
  if t.status = .divideError then t else { t with status := .again }

/-- The branches of `main`. There is no `%c` in `printf`.
mirrors kvm-vmm-x86/os-1k/shell.c:269-293 -/
def choose (n : Nat) (L : ShellLayout) (m : Mem) (input : List Int) (choice : UInt8) :
    Option Turn :=
  let printed (text : Option (List UInt8)) : Option Turn :=
    text.map fun out => ⟨.again, m, out, input⟩
  if choice = '0'.toUInt8 then
    (printTexts n ["\nExiting shell...\n", "Thank you for using 1K OS!\n"]).map fun out =>
      ⟨.quit, m, out, input⟩
  else if choice = '1'.toUInt8 then printed (multiplicationDemo n)
  else if choice = '2'.toUInt8 then printed (counterDemo n)
  else if choice = '3'.toUInt8 then (echoDemo n L m input).map Turn.returned
  else if choice = '4'.toUInt8 then printed (fibonacciDemo n)
  else if choice = '5'.toUInt8 then printed (primeDemo n)
  else if choice = '6'.toUInt8 then
    (calculatorDemo n L.calculatorLine m input).map Turn.returned
  else if choice = '7'.toUInt8 then printed (factorialDemo n)
  else if choice = '8'.toUInt8 then printed (gcdDemo n)
  else if choice = '9'.toUInt8 then printed (aboutDemo n)
  else
    printed do
      let unknown ← printfLiteral n "Unknown option: %c\n" [choice.toInt8.toInt32.toUInt32]
      let select ← printfLiteral n "Please select 0-9\n" []
      some (unknown ++ select)

/-- mirrors kvm-vmm-x86/os-1k/shell.c:255-294 -/
def mainTurn (n : Nat) (L : ShellLayout) (m : Mem) (input : List Int) : Option Turn := do
  let menu ← showMenu n
  let r ← readline m L.input 8 input
  if r.value = 0 ∨ r.mem L.input = 0 then some ⟨.again, r.mem, menu ++ r.echo, r.rest⟩
  else (choose n L r.mem r.rest (r.mem L.input)).map (Turn.after (menu ++ r.echo))

def welcome : List String :=
  ["\n======================================\n",
    "   Welcome to 1K OS Shell!\n",
    "   Mini-KVM Educational Hypervisor\n",
    "======================================\n",
    "\nType '1-9' to run demos, '0' to exit\n"]

/-- mirrors kvm-vmm-x86/os-1k/shell.c:248-295 -/
def shell (n : Nat) (L : ShellLayout) (m : Mem) (input : List Int) : Option Turn := do
  let title ← printTexts n welcome
  let t ← turns (mainTurn n L) n m input
  some (t.after title)

/-! ## What is due -/

/-- A line as it is typed. -/
structure Typing where
  chars : List Int
  nl : Int
  inside : ∀ ch ∈ chars, ¬ EndsLine ch ∧ ch ≠ -1
  ends : EndsLine nl

namespace Typing

def keys (t : Typing) : List Int := t.chars ++ [t.nl]
/-- What is in a buffer for `cap` characters then. -/
def text (t : Typing) (cap : Nat) : List UInt8 := typed cap [] t.chars
def echo (t : Typing) (cap : Nat) : List UInt8 := echoed cap [] t.chars ++ [0x0A]

end Typing

/-- What the shell waits for. -/
inductive Mode where
  | menu
  | echo
  | calculator
  deriving DecidableEq, Repr

/-- An answer, and where the shell goes on, or how it ends. -/
structure Reply where
  text : List UInt8
  next : Except Status Mode

def menuReply : List UInt8 → Reply
  | [] => ⟨[], .ok .menu⟩
  | c :: _ =>
    if c = '0'.toUInt8 then
      ⟨ascii "\nExiting shell...\n" ++ ascii "Thank you for using 1K OS!\n", .error .quit⟩
    else if c = '1'.toUInt8 then ⟨tableText, .ok .menu⟩
    else if c = '2'.toUInt8 then ⟨counterText, .ok .menu⟩
    else if c = '3'.toUInt8 then
      ⟨ascii "\n=== Echo Program (type 'quit' to exit) ===\n", .ok .echo⟩
    else if c = '4'.toUInt8 then ⟨fibonacciText, .ok .menu⟩
    else if c = '5'.toUInt8 then ⟨primeText, .ok .menu⟩
    else if c = '6'.toUInt8 then ⟨banner, .ok .calculator⟩
    else if c = '7'.toUInt8 then ⟨factorialText, .ok .menu⟩
    else if c = '8'.toUInt8 then ⟨gcdText, .ok .menu⟩
    else if c = '9'.toUInt8 then ⟨aboutTexts.flatMap ascii, .ok .menu⟩
    else ⟨ascii "Unknown option: \n" ++ ascii "Please select 0-9\n", .ok .menu⟩

/-- A full line is said to be truncated, also when nothing was dropped. -/
def echoReply (bs : List UInt8) : Status × List UInt8 :=
  let warning := if 63 ≤ bs.length then ascii "Warning: Input truncated to 63 characters\n" else []
  if bs = ascii "quit" then (.quit, warning ++ ascii "Exiting echo program\n")
  else (.again, warning ++ (ascii "Echo: " ++ bs ++ ascii "\n"))

/-- The loop of a demo goes on, or is left for the menu. -/
def demoReply (q : Mode) (r : Status × List UInt8) : Reply where
  text := r.2
  next :=
    match r.1 with
    | .again => .ok q
    | .quit => .ok .menu
    | .divideError => .error .divideError

namespace Mode

/-- The characters there is room for. -/
def cap : Mode → Nat
  | menu => 7
  | echo => 63
  | calculator => 63

def prompt : Mode → List UInt8
  | menu => menuTexts.flatMap ascii
  | echo => ascii "$ "
  | calculator => ascii "Calculate: "

def reply : Mode → List UInt8 → Reply
  | menu, bs => menuReply bs
  | echo, bs => demoReply .echo (echoReply bs)
  | calculator, bs => demoReply .calculator (calculatorReply bs)

/-- The prompt, the echo of the line, and its answer. -/
def shows (q : Mode) (t : Typing) : List UInt8 :=
  q.prompt ++ t.echo q.cap ++ (q.reply (t.text q.cap)).text

end Mode

/-- A session that has ended, and the lines it has not read. -/
structure Conversation where
  ending : Status
  output : List UInt8
  unread : List Typing

/-- `none`: the shell still waits for a line. -/
def converse : Mode → List Typing → Option Conversation
  | _, [] => none
  | q, t :: ts =>
    match (q.reply (t.text q.cap)).next with
    | .error s => some ⟨s, q.shows t, ts⟩
    | .ok q' => (converse q' ts).map fun c => { c with output := q.shows t ++ c.output }

/-- What a user sees of a turn. -/
structure Seen where
  status : Status
  output : List UInt8
  rest : List Int
  deriving DecidableEq, Repr

def Turn.seen (t : Turn) : Seen := ⟨t.status, t.output, t.rest⟩

/-- Lines, and characters behind the last end of a line. -/
def inputOf (ts : List Typing) (tail : List Int) : List Int := ts.flatMap Typing.keys ++ tail

theorem inputOf_cons (t : Typing) (ts : List Typing) (tail : List Int) :
    inputOf (t :: ts) tail = t.chars ++ t.nl :: inputOf ts tail := by
  simp [inputOf, Typing.keys]

/-! ## The line in its buffer -/

section Lines

variable {m m' : Mem} {n : Nat} {bs cs : List UInt8}

theorem readline_typing (m : Mem) (buf cap : Nat) (t : Typing) (rest : List Int) :
    ∃ m', readline m buf (cap + 1) (t.chars ++ t.nl :: rest) =
        some ⟨m', t.echo cap, (t.text cap).length, rest⟩ ∧ m'.CStringAt buf (t.text cap) := by
  have hstart : Editing.Holds m buf cap ⟨m, 0, []⟩ [] :=
    ⟨rfl, Nat.zero_le _, rfl, List.not_mem_nil, fun _ _ => rfl⟩
  obtain ⟨r, hr, hreads⟩ := readlineLoop_eq rest hstart t.ends t.inside
  have hecho := readlineLoop_echo (show 0 = ([] : List UInt8).length from rfl) t.ends
    (fun ch hch => (t.inside ch hch).1) hr
  obtain ⟨m', echo, value, rest'⟩ := r
  obtain ⟨hrest, hstring, hvalue, -⟩ := hreads
  dsimp only at hrest hstring hvalue hecho
  refine ⟨m', ?_, hstring⟩
  rw [readline, hr, hrest, hvalue, hecho]
  rfl

theorem typed_length (cap : Nat) (chs : List Int) {line : List UInt8} (h : line.length ≤ cap) :
    (typed cap line chs).length ≤ cap := by
  induction chs generalizing line with
  | nil => exact h
  | cons ch chs ih =>
    refine ih ?_
    dsimp only
    split
    · rename_i hroom
      unfold edit
      split
      · rw [List.length_dropLast]
        omega
      · split
        · rw [List.length_append]
          exact hroom
        · exact h
    · exact h

theorem Typing.text_length (t : Typing) (cap : Nat) : (t.text cap).length ≤ cap :=
  typed_length cap t.chars (Nat.zero_le cap)

theorem strcmpAt_eq {s1 s2 : Nat} (h : m.CStringAt s1 bs) (h' : m'.CStringAt s2 cs)
    (hn : bs.length < n) : ∃ d, strcmpAt m m' n s1 s2 = some d ∧ (d = 0 ↔ bs = cs) := by
  induction bs generalizing n s1 s2 cs with
  | nil =>
    obtain ⟨n, rfl⟩ := Nat.exists_eq_succ_of_ne_zero (Nat.ne_of_gt hn)
    have hnul : m s1 = 0 := (Mem.cStringAt_nil m s1).1 h
    refine ⟨_, if_neg fun hgo => hgo.1 hnul, ?_⟩
    rw [hnul]
    obtain _ | ⟨c, cs⟩ := cs
    · rw [(Mem.cStringAt_nil m' s2).1 h']
      exact iff_of_true rfl rfl
    · obtain ⟨hc, hne, -⟩ := (Mem.cStringAt_cons m' s2 c cs).1 h'
      rw [hc]
      refine iff_of_false (fun h0 => hne (UInt8.toNat_inj.1 ?_)) (List.cons_ne_nil c cs).symm
      have hzero : (0 : UInt8).toNat = 0 := rfl
      omega
  | cons b bs ih =>
    obtain ⟨n, rfl⟩ := Nat.exists_eq_succ_of_ne_zero (show n ≠ 0 by omega)
    obtain ⟨hb, hbne, hrest⟩ := (Mem.cStringAt_cons m s1 b bs).1 h
    have hfirst : ∀ c : UInt8, (b.toNat : Int) - c.toNat = 0 ↔ b = c := fun c => by
      rw [← UInt8.toNat_inj]
      omega
    rw [strcmpAt, hb]
    obtain _ | ⟨c, cs⟩ := cs
    · have hnul := (Mem.cStringAt_nil m' s2).1 h'
      rw [hnul, if_neg fun hgo => hgo.2.1 rfl]
      exact ⟨_, rfl, iff_of_false (mt (hfirst 0).1 hbne) (List.cons_ne_nil b bs)⟩
    · obtain ⟨hc, hcne, hrest'⟩ := (Mem.cStringAt_cons m' s2 c cs).1 h'
      rw [hc]
      by_cases heq : b = c
      · obtain ⟨d, hd, hiff⟩ := ih hrest hrest' (Nat.lt_of_succ_lt_succ hn)
        rw [if_pos ⟨hbne, hcne, heq⟩, heq, List.cons_inj_right]
        exact ⟨d, hd, hiff⟩
      · rw [if_neg fun hgo => heq hgo.2.2]
        exact ⟨_, rfl, iff_of_false (mt (hfirst c).1 heq) fun h => heq (List.cons_eq_cons.1 h).1⟩

/-- The line is printed from its buffer. -/
theorem printf_echo (L : ShellLayout) (h : m.CStringAt L.echoLine.toNat bs) (hlen : bs.length ≤ 63)
    (hn : 200 ≤ n) :
    printf n (m.write L.echoFormat (ascii "Echo: %s\n" ++ [0])) L.echoFormat [L.echoLine] =
      some (ascii "Echo: " ++ bs ++ ascii "\n") := by
  have happ := L.apart
  have hfmt : (m.write L.echoFormat (ascii "Echo: %s\n" ++ [0])).CStringAt L.echoFormat
      (ascii "Echo: %s\n") := Mem.cStringAt_write m L.echoFormat (by decide)
  have hwidth : (ascii "Echo: %s\n" ++ [0]).length = 10 := rfl
  have hline : (m.write L.echoFormat (ascii "Echo: %s\n" ++ [0])).CStringAt L.echoLine.toNat bs :=
    h.congr fun x hlow hhigh => Mem.write_out m (by omega)
  have hrenders : Renders (m.write L.echoFormat (ascii "Echo: %s\n" ++ [0])) (ascii "Echo: %s\n")
      [L.echoLine] (ascii "Echo: " ++ bs ++ ascii "\n") :=
    ((Renders.plain (b := ascii "Echo: ") rfl).append
      (.of_piece (.str L.echoLine bs) hline)).append (.plain (b := ascii "\n") rfl)
  refine hrenders.printf_eq [] hfmt ?_
  have htext : (ascii "Echo: %s\n").length = 9 := rfl
  have hecho : (ascii "Echo: ").length = 6 := rfl
  have hnewline : (ascii "\n").length = 1 := rfl
  rw [List.length_append, List.length_append, htext, hecho, hnewline]
  omega

end Lines

/-! ## A turn -/

section Turns

variable {n : Nat} {L : ShellLayout}

theorem echoAnswer_eq {m : Mem} {bs : List UInt8} (h : m.CStringAt L.echoLine.toNat bs)
    (hlen : bs.length ≤ 63) (hn : 200 ≤ n) : echoAnswer n L m bs.length = some (echoReply bs) := by
  have hwarning := printfLiteral_text "Warning: Input truncated to 63 characters\n" rfl hn
  have hbye := printfLiteral_text "Exiting echo program\n" rfl hn
  have hif : printfIf n ((bs.length : Int) ≥ 63) "Warning: Input truncated to 63 characters\n" =
      some (if 63 ≤ bs.length then ascii "Warning: Input truncated to 63 characters\n"
        else []) := by
    unfold printfIf
    by_cases hfull : 63 ≤ bs.length
    · rw [if_pos (by omega), if_pos hfull, hwarning]
    · rw [if_neg (by omega), if_neg hfull]
  have hquit : (literal "quit").CStringAt 0 (ascii "quit") := Mem.cStringAt_write _ 0 (by decide)
  obtain ⟨d, hd, hsame⟩ := strcmpAt_eq (n := n) h hquit (by omega)
  unfold echoAnswer echoReply
  rw [hif, hd]
  simp only [Option.bind_eq_bind, Option.bind_some]
  by_cases hleave : bs = ascii "quit"
  · rw [if_pos (hsame.2 hleave), if_pos hleave, hbye]
    rfl
  · rw [if_neg (mt hsame.1 hleave), if_neg hleave, printf_echo L h hlen hn]
    rfl

theorem echoTurn_eq (m : Mem) (t : Typing) (rest : List Int) (hn : 200 ≤ n) :
    ∃ m', echoTurn n L m (t.chars ++ t.nl :: rest) =
      some ⟨(echoReply (t.text 63)).1, m', Mode.echo.shows t, rest⟩ := by
  have hprompt := printfLiteral_text "$ " rfl hn
  obtain ⟨m', hread, hstring⟩ := readline_typing m L.echoLine.toNat 63 t rest
  have hanswer := echoAnswer_eq hstring (t.text_length 63) hn
  refine ⟨m', ?_⟩
  have hread' : readline m L.echoLine.toNat 64 (t.chars ++ t.nl :: rest) = _ := hread
  unfold echoTurn
  rw [hprompt, hread']
  simp only [Option.bind_eq_bind, Option.bind_some, hanswer]
  rfl

theorem calculatorTurn_typing (m : Mem) (t : Typing) (rest : List Int) (hn : 200 ≤ n) :
    ∃ m', calculatorTurn n L.calculatorLine m (t.chars ++ t.nl :: rest) =
      some ⟨(calculatorReply (t.text 63)).1, m', Mode.calculator.shows t, rest⟩ := by
  have hprompt := printfLiteral_text "Calculate: " rfl hn
  obtain ⟨m', hread, hstring⟩ := readline_typing m L.calculatorLine 63 t rest
  have hlen := t.text_length 63
  have hanswer := answerLine_string (n := n) hstring (by omega) hn
  refine ⟨m', ?_⟩
  have hread' : readline m L.calculatorLine 64 (t.chars ++ t.nl :: rest) = _ := hread
  unfold calculatorTurn
  rw [hprompt, hread']
  simp only [Option.bind_eq_bind, Option.bind_some, hanswer]
  rfl

theorem calculatorLoop_eq_turns (k : Nat) (m : Mem) (input : List Int) :
    calculatorLoop n L.calculatorLine k m input =
      turns (calculatorTurn n L.calculatorLine) k m input := by
  induction k generalizing m input with
  | zero => rfl
  | succ k ih =>
    rw [calculatorLoop, turns]
    refine congrArg _ (funext fun t => ?_)
    rw [ih]
    rfl

end Turns

/-! ## The loops inside the loop -/

/-- What `main` does with the last turn of a demo; `j` turns are left. -/
def backInMain (n : Nat) (L : ShellLayout) (j : Nat) (t : Turn) : Option Turn :=
  if t.status = .again then (turns (mainTurn n L) j t.mem t.rest).map (Turn.after t.output)
  else some t

/-- The shell from a prompt on: `i` turns are left of the inner loop, `j` of the
outer one. -/
def resume (n : Nat) (L : ShellLayout) : Mode → Nat → Nat → Mem → List Int → Option Turn
  | .menu, _, j, m, input => turns (mainTurn n L) j m input
  | .echo, i, j, m, input =>
    (turns (echoTurn n L) i m input).bind fun t => backInMain n L j t.returned
  | .calculator, i, j, m, input =>
    (turns (calculatorTurn n L.calculatorLine) i m input).bind fun t => backInMain n L j t.returned

section Resume

variable {n : Nat} {L : ShellLayout} {i j : Nat}

theorem Turn.after_comp (out out' : List UInt8) :
    Turn.after out ∘ Turn.after out' = Turn.after (out ++ out') :=
  funext fun t => by simp [Turn.after]

theorem backInMain_after (out : List UInt8) (t : Turn) :
    backInMain n L j (t.after out) = (backInMain n L j t).map (Turn.after out) := by
  obtain ⟨status, m, text, rest⟩ := t
  by_cases hagain : status = .again
  · have hmore : ∀ text, backInMain n L j ⟨status, m, text, rest⟩ =
        (turns (mainTurn n L) j m rest).map (Turn.after text) := fun _ => if_pos hagain
    rw [hmore, Option.map_map, Turn.after_comp]
    exact hmore (out ++ text)
  · have hover : ∀ text, backInMain n L j ⟨status, m, text, rest⟩ =
        some ⟨status, m, text, rest⟩ := fun _ => if_neg hagain
    rw [hover]
    exact hover (out ++ text)

theorem Turn.returned_after (out : List UInt8) (t : Turn) :
    (t.after out).returned = t.returned.after out := by
  obtain ⟨status, m, text, rest⟩ := t
  cases status <;> rfl

/-- The shell behind a reply, with `out` shown so far. -/
def Reply.resumed (n : Nat) (L : ShellLayout) (i j : Nat) (m : Mem) (rest : List Int)
    (out : List UInt8) (r : Reply) : Option Turn :=
  match r.next with
  | .error s => some ⟨s, m, out, rest⟩
  | .ok q => (resume n L q i j m rest).map (Turn.after out)

/-- One line at the prompt of a demo. -/
theorem demo_step {turn : Mem → List Int → Option Turn} {q : Mode} {m m' : Mem} {t : Typing}
    {rest : List Int} {r : Status × List UInt8} {out : List UInt8}
    (hturn : turn m (t.chars ++ t.nl :: rest) = some ⟨r.1, m', out, rest⟩)
    (hresume : ∀ i j m input, resume n L q i j m input =
      (turns turn i m input).bind fun t => backInMain n L j t.returned) :
    resume n L q (i + 1) j m (t.chars ++ t.nl :: rest) =
      (demoReply q r).resumed n L i j m' rest out := by
  obtain ⟨status, text⟩ := r
  rw [hresume, turns, hturn, Option.bind_some]
  cases status with
  | again =>
    show ((turns turn i m' rest).map (Turn.after out)).bind _ =
      (resume n L q i j m' rest).map (Turn.after out)
    rw [hresume]
    cases turns turn i m' rest with
    | none => rfl
    | some t => exact (congrArg _ (t.returned_after out)).trans (backInMain_after out t.returned)
  | quit => rfl
  | divideError => rfl

/-- A demo that is left before the next prompt of the menu. -/
theorem printed_resumed {text : Option (List UInt8)} {out : List UInt8} (m : Mem) (rest : List Int)
    (h : text = some out) :
    (text.map fun out => (⟨.again, m, out, rest⟩ : Turn)).bind (backInMain n L j) =
      (Reply.mk out (.ok .menu)).resumed n L i j m rest out := by
  rw [h]
  rfl

/-- A demo with a prompt of its own. -/
theorem entered_resumed {turn : Mem → List Int → Option Turn} {q : Mode} {demo : Option Turn}
    (m : Mem) (rest : List Int) (title : List UInt8)
    (hdemo : demo = (turns turn i m rest).map (Turn.after title))
    (hresume : ∀ i j m input, resume n L q i j m input =
      (turns turn i m input).bind fun t => backInMain n L j t.returned) :
    (demo.map Turn.returned).bind (backInMain n L j) =
      (Reply.mk title (.ok q)).resumed n L i j m rest title := by
  show _ = (resume n L q i j m rest).map (Turn.after title)
  rw [hdemo, hresume]
  cases turns turn i m rest with
  | none => rfl
  | some t => exact (congrArg _ (t.returned_after title)).trans (backInMain_after title t.returned)

theorem echoDemo_eq (m : Mem) (rest : List Int) (hn : 200 ≤ n) :
    echoDemo n L m rest = (turns (echoTurn n L) n m rest).map
      (Turn.after (ascii "\n=== Echo Program (type 'quit' to exit) ===\n")) := by
  have htitle := printfLiteral_text "\n=== Echo Program (type 'quit' to exit) ===\n" rfl hn
  unfold echoDemo
  rw [htitle]
  cases turns (echoTurn n L) n m rest <;> rfl

theorem calculatorDemo_turns (m : Mem) (rest : List Int) (hn : 200 ≤ n) :
    calculatorDemo n L.calculatorLine m rest =
      (turns (calculatorTurn n L.calculatorLine) n m rest).map (Turn.after banner) := by
  rw [calculatorDemo_eq (by omega), calculatorLoop_eq_turns]
  rfl

theorem printf_unknown (c : UInt8) (hn : 200 ≤ n) :
    printfLiteral n "Unknown option: %c\n" [c.toInt8.toInt32.toUInt32] =
      some (ascii "Unknown option: \n") := by
  have hrenders : Renders (literal "Unknown option: %c\n") (ascii "Unknown option: %c\n") []
      (ascii "Unknown option: \n") :=
    ((Renders.plain (b := ascii "Unknown option: ") rfl).append
      (.of_piece (.other 'c'.toUInt8 (by decide) (by decide)) trivial)).append
        (.plain (b := ascii "\n") rfl)
  exact hrenders.printfLiteral_eq [_] (Nat.le_trans (by decide) hn)

/-- Every branch of `main`. -/
theorem choose_eq (m : Mem) (rest : List Int) (c : UInt8) (cs : List UInt8) (hn : 500 ≤ n) :
    (choose n L m rest c).bind (backInMain n L j) =
      (menuReply (c :: cs)).resumed n L n j m rest (menuReply (c :: cs)).text := by
  have hsmall : 200 ≤ n := by omega
  have hbye : printTexts n ["\nExiting shell...\n", "Thank you for using 1K OS!\n"] = some _ :=
    printTexts_eq rfl hsmall
  have hselect := printfLiteral_text "Please select 0-9\n" rfl hsmall
  unfold choose menuReply
  dsimp only
  by_cases h0 : c = '0'.toUInt8
  · rw [if_pos h0, if_pos h0, hbye]
    rfl
  rw [if_neg h0, if_neg h0]
  by_cases h1 : c = '1'.toUInt8
  · rw [if_pos h1, if_pos h1]
    exact printed_resumed m rest (multiplicationDemo_eq hsmall)
  rw [if_neg h1, if_neg h1]
  by_cases h2 : c = '2'.toUInt8
  · rw [if_pos h2, if_pos h2]
    exact printed_resumed m rest (counterDemo_eq hsmall)
  rw [if_neg h2, if_neg h2]
  by_cases h3 : c = '3'.toUInt8
  · rw [if_pos h3, if_pos h3]
    exact entered_resumed m rest _ (echoDemo_eq m rest hsmall) fun _ _ _ _ => rfl
  rw [if_neg h3, if_neg h3]
  by_cases h4 : c = '4'.toUInt8
  · rw [if_pos h4, if_pos h4]
    exact printed_resumed m rest (fibonacciDemo_eq hsmall)
  rw [if_neg h4, if_neg h4]
  by_cases h5 : c = '5'.toUInt8
  · rw [if_pos h5, if_pos h5]
    exact printed_resumed m rest (primeDemo_eq hsmall)
  rw [if_neg h5, if_neg h5]
  by_cases h6 : c = '6'.toUInt8
  · rw [if_pos h6, if_pos h6]
    exact entered_resumed m rest _ (calculatorDemo_turns m rest hsmall) fun _ _ _ _ => rfl
  rw [if_neg h6, if_neg h6]
  by_cases h7 : c = '7'.toUInt8
  · rw [if_pos h7, if_pos h7]
    exact printed_resumed m rest (factorialDemo_eq hsmall)
  rw [if_neg h7, if_neg h7]
  by_cases h8 : c = '8'.toUInt8
  · rw [if_pos h8, if_pos h8]
    exact printed_resumed m rest (gcdDemo_eq hn)
  rw [if_neg h8, if_neg h8]
  by_cases h9 : c = '9'.toUInt8
  · rw [if_pos h9, if_pos h9]
    exact printed_resumed m rest (aboutDemo_eq hsmall)
  rw [if_neg h9, if_neg h9]
  refine printed_resumed m rest ?_
  rw [printf_unknown c hsmall, hselect]
  rfl

theorem Reply.resumed_after (m : Mem) (rest : List Int) (out out' : List UInt8) (r : Reply) :
    (r.resumed n L i j m rest out').map (Turn.after out) =
      r.resumed n L i j m rest (out ++ out') := by
  obtain ⟨text, next⟩ := r
  cases next with
  | error s => rfl
  | ok q =>
    show ((resume n L q i j m rest).map _).map _ = (resume n L q i j m rest).map _
    rw [Option.map_map, Turn.after_comp]

/-- One line at the menu. -/
theorem menu_step (m : Mem) (t : Typing) (rest : List Int) (hn : 500 ≤ n) :
    ∃ m', resume n L .menu i (j + 1) m (t.chars ++ t.nl :: rest) =
      (menuReply (t.text 7)).resumed n L n j m' rest (Mode.menu.shows t) := by
  have hmenu := showMenu_eq (n := n) (by omega)
  obtain ⟨m', hread, hstring⟩ := readline_typing m L.input 7 t rest
  have hread' : readline m L.input 8 (t.chars ++ t.nl :: rest) =
    some ⟨m', t.echo 7, (t.text 7).length, rest⟩ := hread
  refine ⟨m', ?_⟩
  have hshows : Mode.menu.shows t =
    menuTexts.flatMap ascii ++ t.echo 7 ++ (menuReply (t.text 7)).text := rfl
  show (mainTurn n L m (t.chars ++ t.nl :: rest)).bind (backInMain n L j) = _
  unfold mainTurn
  rw [hmenu, hread', hshows]
  simp only [Option.bind_eq_bind, Option.bind_some]
  cases hbs : t.text 7 with
  | nil =>
    rw [if_pos (Or.inl (by rw [List.length_nil]; rfl)), Option.bind_some]
    have hnone : (menuReply []).text = [] := rfl
    rw [hnone, List.append_nil]
    rfl
  | cons c cs =>
    rw [hbs] at hstring
    obtain ⟨hc, hne, -⟩ := (Mem.cStringAt_cons m' L.input c cs).1 hstring
    have hsome : ¬ (((c :: cs).length : Int) = 0 ∨ m' L.input = 0) := by
      rw [hc, List.length_cons]
      exact fun h => h.elim (by omega) hne
    rw [if_neg hsome, hc, ← Reply.resumed_after, ← choose_eq m' rest c cs hn]
    cases choose n L m' rest c with
    | none => rfl
    | some u => exact backInMain_after _ u

/-- One line at any prompt; `k` are the lines behind it. -/
theorem line_step (q : Mode) (m : Mem) (t : Typing) (rest : List Int) {k : Nat} (hn : 500 ≤ n)
    (hk : k ≤ n) (hi : k < i) (hj : k < j) :
    ∃ m' i' j', k ≤ i' ∧ k ≤ j' ∧ resume n L q i j m (t.chars ++ t.nl :: rest) =
      (q.reply (t.text q.cap)).resumed n L i' j' m' rest (q.shows t) := by
  obtain ⟨i, rfl⟩ := Nat.exists_eq_succ_of_ne_zero (Nat.ne_zero_of_lt hi)
  cases q with
  | menu =>
    obtain ⟨j, rfl⟩ := Nat.exists_eq_succ_of_ne_zero (Nat.ne_zero_of_lt hj)
    obtain ⟨m', hm⟩ := menu_step (i := i + 1) (j := j) m t rest hn
    exact ⟨m', n, j, hk, Nat.le_of_lt_succ hj, hm⟩
  | echo =>
    obtain ⟨m', hm⟩ := echoTurn_eq m t rest (show 200 ≤ n by omega)
    exact ⟨m', i, j, Nat.le_of_lt_succ hi, Nat.le_of_lt hj, demo_step hm fun _ _ _ _ => rfl⟩
  | calculator =>
    obtain ⟨m', hm⟩ := calculatorTurn_typing m t rest (show 200 ≤ n by omega)
    exact ⟨m', i, j, Nat.le_of_lt_succ hi, Nat.le_of_lt hj, demo_step hm fun _ _ _ _ => rfl⟩

theorem turns_waits {turn : Mem → List Int → Option Turn} {m : Mem} {input : List Int} {k : Nat}
    (hk : 0 < k) (h : turn m input = none) : turns turn k m input = none := by
  obtain ⟨k, rfl⟩ := Nat.exists_eq_succ_of_ne_zero (Nat.ne_zero_of_lt hk)
  rw [turns, h]
  rfl

/-- Without the end of a line every prompt waits. -/
theorem resume_waits (q : Mode) (m : Mem) {tail : List Int}
    (htail : ∀ ch ∈ tail, ¬ EndsLine ch ∧ ch ≠ -1) (hn : 500 ≤ n) (hi : 0 < i) (hj : 0 < j) :
    resume n L q i j m tail = none := by
  have hread : ∀ buf bufsz, readline m buf bufsz tail = none := fun _ _ => readlineLoop_waits htail
  cases q with
  | menu =>
    refine turns_waits hj ?_
    unfold mainTurn
    rw [showMenu_eq (by omega), hread]
    rfl
  | echo =>
    have hprompt := printfLiteral_text "$ " (n := n) rfl (by omega)
    have hturn : echoTurn n L m tail = none := by
      unfold echoTurn
      rw [hprompt, hread]
      rfl
    rw [resume, turns_waits hi hturn]
    rfl
  | calculator =>
    have hprompt := printfLiteral_text "Calculate: " (n := n) rfl (by omega)
    have hturn : calculatorTurn n L.calculatorLine m tail = none := by
      unfold calculatorTurn
      rw [hprompt, hread]
      rfl
    rw [resume, turns_waits hi hturn]
    rfl

/-- The end of a conversation, as the shell shows it. -/
def Conversation.seen (tail : List Int) (c : Conversation) : Seen :=
  ⟨c.ending, c.output, inputOf c.unread tail⟩

/-- All the lines, from any prompt. -/
theorem resume_converses (m : Mem) (q : Mode) (ts : List Typing) {tail : List Int}
    (htail : ∀ ch ∈ tail, ¬ EndsLine ch ∧ ch ≠ -1) (hn : 500 ≤ n) (hlen : ts.length ≤ n)
    (hi : ts.length < i) (hj : ts.length < j) :
    (resume n L q i j m (inputOf ts tail)).map Turn.seen =
      (converse q ts).map (Conversation.seen tail) := by
  induction ts generalizing q i j m with
  | nil =>
    have hwaits : resume n L q i j m tail = none := resume_waits q m htail hn hi hj
    show (resume n L q i j m tail).map _ = _
    rw [hwaits]
    rfl
  | cons t ts ih =>
    rw [List.length_cons] at hlen hi hj
    obtain ⟨m', i', j', hi', hj', hstep⟩ := line_step (k := ts.length + 1) q m t
      (inputOf ts tail) hn hlen hi hj
    rw [inputOf_cons, hstep, converse, Reply.resumed]
    cases (q.reply (t.text q.cap)).next with
    | error s => rfl
    | ok q' =>
      have hrest := ih m' q' (by omega) (i := i') (j := j') (by omega) (by omega)
      have hmore := congrArg
        (Option.map fun s : Seen => { s with output := q.shows t ++ s.output }) hrest
      simp only [Option.map_map] at hmore ⊢
      exact hmore

end Resume

theorem exists_typings (input : List Int) (h : ∀ ch ∈ input, ch ≠ -1) :
    ∃ ts tail, input = inputOf ts tail ∧ ∀ ch ∈ tail, ¬ EndsLine ch ∧ ch ≠ -1 := by
  induction input with
  | nil => exact ⟨[], [], rfl, fun ch hch => absurd hch List.not_mem_nil⟩
  | cons ch input ih =>
    obtain ⟨ts, tail, hinput, htail⟩ := ih fun c hc => h c (List.mem_cons_of_mem _ hc)
    by_cases hend : EndsLine ch
    · refine ⟨⟨[], ch, fun c hc => absurd hc List.not_mem_nil, hend⟩ :: ts, tail, ?_, htail⟩
      rw [inputOf_cons, ← hinput]
      rfl
    · have hinside : ∀ chs : List Int, (∀ c ∈ chs, ¬ EndsLine c ∧ c ≠ -1) →
          ∀ c ∈ ch :: chs, ¬ EndsLine c ∧ c ≠ -1 := fun chs hchs c hc =>
        (List.mem_cons.1 hc).elim (fun heq => heq ▸ ⟨hend, h ch List.mem_cons_self⟩) (hchs c)
      obtain _ | ⟨t, ts⟩ := ts
      · exact ⟨[], ch :: tail, by rw [hinput]; rfl, hinside tail htail⟩
      · refine ⟨⟨ch :: t.chars, t.nl, hinside t.chars t.inside, t.ends⟩ :: ts, tail, ?_, htail⟩
        rw [hinput, inputOf_cons, inputOf_cons]
        rfl

theorem shell_typings (L : ShellLayout) (m : Mem) (ts : List Typing) {n : Nat} {tail : List Int}
    (htail : ∀ ch ∈ tail, ¬ EndsLine ch ∧ ch ≠ -1) (hn : 500 + ts.length ≤ n) :
    (shell n L m (inputOf ts tail)).map Turn.seen = (converse .menu ts).map fun c =>
      ⟨c.ending, welcome.flatMap ascii ++ c.output, inputOf c.unread tail⟩ := by
  have htitle : printTexts n welcome = some (welcome.flatMap ascii) :=
    printTexts_eq rfl (show 200 ≤ n by omega)
  have hsession : ((turns (mainTurn n L) n m (inputOf ts tail)).map Turn.seen) =
      (converse .menu ts).map (Conversation.seen tail) :=
    resume_converses (i := n) (j := n) m .menu ts htail (by omega) (by omega) (by omega) (by omega)
  have hmore := congrArg
    (Option.map fun s : Seen => { s with output := welcome.flatMap ascii ++ s.output }) hsession
  have hshell : shell n L m (inputOf ts tail) =
      (turns (mainTurn n L) n m (inputOf ts tail)).map (Turn.after (welcome.flatMap ascii)) := by
    unfold shell
    rw [htitle]
    cases turns (mainTurn n L) n m (inputOf ts tail) <;> rfl
  rw [hshell]
  simp only [Option.map_map] at hmore ⊢
  exact hmore

/-- Whatever is typed, the shell answers it line by line, and waits where no
line has ended it. -/
theorem shell_converses (L : ShellLayout) (m : Mem) (input : List Int) (h : ∀ ch ∈ input, ch ≠ -1) :
    ∃ ts tail, input = inputOf ts tail ∧ (∀ ch ∈ tail, ¬ EndsLine ch) ∧
      ∀ n, 500 + ts.length ≤ n →
        (shell n L m input).map Turn.seen = (converse .menu ts).map fun c =>
          ⟨c.ending, welcome.flatMap ascii ++ c.output, inputOf c.unread tail⟩ := by
  obtain ⟨ts, tail, rfl, htail⟩ := exists_typings input h
  exact ⟨ts, tail, rfl, fun ch hch => (htail ch hch).1, fun n hn => shell_typings L m ts htail hn⟩

def sampleLayout : ShellLayout := ⟨0x2000, 0x3000, 0x4000, 0x1000, by decide⟩

/-- An unknown choice, `3`, a line to echo, `quit` and `0`. -/
def sampleInput : List Int :=
  [120, 10, 51, 10, 104, 8, 105, 10, 113, 117, 105, 116, 13, 48, 10, 55]

theorem shell_converses_sample : ∃ ts tail, sampleInput = inputOf ts tail ∧
    (∀ ch ∈ tail, ¬ EndsLine ch) ∧ ∀ n, 500 + ts.length ≤ n →
      (shell n sampleLayout (fun _ => 0xAA) sampleInput).map Turn.seen =
        (converse .menu ts).map fun c =>
          ⟨c.ending, welcome.flatMap ascii ++ c.output, inputOf c.unread tail⟩ :=
  shell_converses sampleLayout (fun _ => 0xAA) sampleInput (by decide)

end MiniKvm.Os1k
