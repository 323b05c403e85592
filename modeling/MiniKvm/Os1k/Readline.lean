import Mathlib.Data.List.Basic
import Mathlib.Data.List.TakeWhile
import MiniKvm.Core.Bytes

/-!
# readline

`readline` of the user library (os-1k/user.c). The characters that `getchar`
will return are a list; a call that reads past its end still waits. A line is
edited (`edit`) until there is no room for another character, and from then on
only its end is looked for: `readline_reads_line`.
-/
namespace MiniKvm.Os1k

/-! ## The source -/

/-- The variables of the loop. -/
structure Editing where
  mem : Mem
  pos : Nat
  /-- The characters passed to `putchar`. -/
  echo : List UInt8

/-- The memory and the echo that `readline` leaves, its value, and what it has not read. -/
structure LineRead where
  mem : Mem
  echo : List UInt8
  value : Int
  rest : List Int

/-- A character that does not end the line.
mirrors kvm-vmm-x86/os-1k/user.c:94-107 -/
def Editing.key (buf : Nat) (s : Editing) (ch : Int) : Editing :=
  if ch = 0x08 ∨ ch = 0x7F then
    if s.pos > 0 then { s with pos := s.pos - 1, echo := s.echo ++ [0x08, 0x20, 0x08] } else s
  else if 0x20 ≤ ch ∧ ch < 0x7F then
    { mem := s.mem.write (buf + s.pos) [UInt8.ofInt ch]
      pos := s.pos + 1
      echo := s.echo ++ [UInt8.ofInt ch] }
  else s

/-- The second loop.
mirrors kvm-vmm-x86/os-1k/user.c:114-117 -/
def discard : List Int → Option (List Int)
  | [] => none
  | ch :: input => if ch ≠ 0x0A ∧ ch ≠ 0x0D ∧ ch ≠ -1 then discard input else some input

/-- The first loop, and what follows it.
mirrors kvm-vmm-x86/os-1k/user.c:86-120 -/
def readlineLoop (buf : Nat) (bufsz : Int) (input : List Int) (s : Editing) : Option LineRead :=
  if s.pos < bufsz - 1 then
    match input with
    | [] => none
    | ch :: input =>
      if ch = 0x0A ∨ ch = 0x0D then
        some ⟨s.mem.write (buf + s.pos) [0], s.echo ++ [0x0A], s.pos, input⟩
      else readlineLoop buf bufsz input (s.key buf ch)
  else
    (discard input).map fun rest =>
      ⟨s.mem.write (buf + (bufsz - 1)).toNat [0], s.echo ++ [0x0A], bufsz - 1, rest⟩

/-- mirrors kvm-vmm-x86/os-1k/user.c:83-121 -/
def readline (m : Mem) (buf : Nat) (bufsz : Int) (input : List Int) : Option LineRead :=
  readlineLoop buf bufsz input ⟨m, 0, []⟩

/-! ## What is wanted of it -/

def EndsLine (ch : Int) : Prop := ch = 0x0A ∨ ch = 0x0D

instance (ch : Int) : Decidable (EndsLine ch) := inferInstanceAs (Decidable (_ ∨ _))

/-- The first line of the input, without its end. -/
def lineOf (input : List Int) : List Int := input.takeWhile fun ch => ¬ EndsLine ch

/-- A character typed behind `line`. -/
def edit (line : List UInt8) (ch : Int) : List UInt8 :=
  if ch = 0x08 ∨ ch = 0x7F then line.dropLast
  else if 0x20 ≤ ch ∧ ch < 0x7F then line ++ [UInt8.ofInt ch]
  else line

/-- The characters of a line, typed until `cap` of them are there. -/
def typed (cap : Nat) (line : List UInt8) (chs : List Int) : List UInt8 :=
  chs.foldl (fun line ch => if line.length < cap then edit line ch else line) line

/-- The line is read up to its end, and is a string in the buffer. -/
structure ReadsLine (m : Mem) (buf : Nat) (bufsz : Int) (line : List UInt8) (rest : List Int)
    (r : LineRead) : Prop where
  rest : r.rest = rest
  string : r.mem.CStringAt buf line
  value : r.value = line.length
  frame : ∀ x : Nat, ¬ (buf ≤ x ∧ (x : Int) < buf + bufsz) → r.mem x = m x

/-! ## Editing -/

theorem ofInt_ne_zero {ch : Int} (h : 0x20 ≤ ch ∧ ch < 0x7F) : UInt8.ofInt ch ≠ 0 := by
  intro h0
  have hnat := congrArg UInt8.toNat h0
  rw [UInt8.ofInt, UInt8.toNat_ofNat'] at hnat
  simp only [UInt8.reduceToNat] at hnat
  omega

/-- What is in the buffer while a line is edited. -/
structure Editing.Holds (m : Mem) (buf cap : Nat) (s : Editing) (line : List UInt8) : Prop where
  pos : s.pos = line.length
  fits : line.length ≤ cap
  read : s.mem.read buf line.length = line
  noNul : 0 ∉ line
  frame : ∀ x, x < buf ∨ buf + cap < x → s.mem x = m x

section Edit

variable {m : Mem} {buf cap : Nat} {s : Editing} {line : List UInt8}

/-- The line loses its last character. -/
theorem Editing.Holds.erase (h : s.Holds m buf cap line) (echo : List UInt8) :
    Editing.Holds m buf cap ⟨s.mem, s.pos - 1, echo⟩ line.dropLast := by
  have hfits := h.fits
  refine ⟨by rw [h.pos, List.length_dropLast], by rw [List.length_dropLast]; omega, ?_,
    fun h0 => h.noNul (List.dropLast_subset line h0), h.frame⟩
  rcases line.eq_nil_or_concat' with rfl | ⟨l, c, rfl⟩
  · rfl
  · have hread := h.read
    rw [List.length_append, List.length_singleton, Mem.read_succ] at hread
    rw [List.dropLast_concat]
    exact List.append_inj_left' hread rfl

/-- The line gets another character. -/
theorem Editing.Holds.type (h : s.Holds m buf cap line) (hroom : line.length < cap) {c : UInt8}
    (hc : c ≠ 0) (echo : List UInt8) :
    Editing.Holds m buf cap ⟨s.mem.write (buf + s.pos) [c], s.pos + 1, echo⟩ (line ++ [c]) := by
  have hlen : (line ++ [c]).length = line.length + 1 := List.length_append
  rw [h.pos, Mem.write_singleton]
  refine ⟨hlen.symm, by omega, ?_, fun h0 => ?_, fun x hx => ?_⟩
  · have hkeep : Mem.read (Function.update s.mem (buf + line.length) c) buf line.length = line := by
      rw [Mem.read_congr fun x _ hx => Function.update_of_ne (Nat.ne_of_lt hx) c s.mem, h.read]
    rw [hlen, Mem.read_succ, hkeep]
    exact congrArg (fun c => line ++ [c]) (Function.update_self _ _ _)
  · rcases List.mem_append.1 h0 with h0 | h0
    · exact h.noNul h0
    · exact hc (List.mem_singleton.1 h0).symm
  · have hne : x ≠ buf + line.length := by omega
    exact (Function.update_of_ne hne c s.mem).trans (h.frame x hx)

theorem Editing.Holds.key (h : s.Holds m buf cap line) (hroom : line.length < cap) (ch : Int) :
    (s.key buf ch).Holds m buf cap (edit line ch) := by
  unfold Editing.key edit
  by_cases hdel : ch = 0x08 ∨ ch = 0x7F
  · rw [if_pos hdel, if_pos hdel]
    by_cases hpos : s.pos > 0
    · rw [if_pos hpos]
      exact h.erase _
    · have hlen : line.length = 0 := by
        rw [← h.pos]
        omega
      have hnil : line.dropLast = line := by rw [List.length_eq_zero_iff.1 hlen, List.dropLast_nil]
      rw [if_neg hpos, hnil]
      exact h
  · rw [if_neg hdel, if_neg hdel]
    by_cases hprint : 0x20 ≤ ch ∧ ch < 0x7F
    · rw [if_pos hprint, if_pos hprint]
      exact h.type hroom (ofInt_ne_zero hprint) _
    · rw [if_neg hprint, if_neg hprint]
      exact h

/-- The NUL behind the line. -/
theorem Editing.Holds.finish (h : s.Holds m buf cap line) (echo : List UInt8) (rest : List Int) :
    ReadsLine m buf (cap + 1) line rest
      ⟨s.mem.write (buf + line.length) [0], echo, line.length, rest⟩ := by
  have hfits := h.fits
  rw [Mem.write_singleton]
  refine ⟨rfl, ⟨?_, h.noNul, Function.update_self _ _ _⟩, rfl, fun x hx => ?_⟩
  · rw [Mem.read_congr fun x _ hx => Function.update_of_ne (Nat.ne_of_lt hx) 0 s.mem, h.read]
  · have hne : x ≠ buf + line.length := by omega
    exact (Function.update_of_ne hne 0 s.mem).trans (h.frame x (by omega))

end Edit

/-! ## The loops -/

section Loops

variable {m : Mem} {buf cap : Nat} {nl : Int} {chs : List Int}

theorem discard_eq (rest : List Int) (hnl : EndsLine nl)
    (hchs : ∀ ch ∈ chs, ¬ EndsLine ch ∧ ch ≠ -1) :
    discard (chs ++ nl :: rest) = some rest := by
  induction chs with
  | nil =>
    have hstop : ¬ (nl ≠ 0x0A ∧ nl ≠ 0x0D ∧ nl ≠ -1) := fun h => hnl.elim h.1 h.2.1
    exact if_neg hstop
  | cons ch chs ih =>
    obtain ⟨hend, hneg⟩ := hchs ch List.mem_cons_self
    obtain ⟨hlf, hcr⟩ := not_or.1 hend
    rw [List.cons_append, discard, if_pos ⟨hlf, hcr, hneg⟩]
    exact ih fun ch hch => hchs ch (List.mem_cons_of_mem _ hch)

/-- A full line stays as it is. -/
theorem typed_full {line : List UInt8} (h : ¬ line.length < cap) (chs : List Int) :
    typed cap line chs = line := by
  induction chs with
  | nil => rfl
  | cons ch chs ih =>
    rw [typed, List.foldl_cons, if_neg h]
    exact ih

/-- Without room the rest of the line is dropped. -/
theorem readlineLoop_full (rest : List Int) {s : Editing} {line : List UInt8}
    (h : s.Holds m buf cap line) (hfull : ¬ line.length < cap) (hnl : EndsLine nl)
    (hchs : ∀ ch ∈ chs, ¬ EndsLine ch ∧ ch ≠ -1) :
    ∃ r, readlineLoop buf (cap + 1) (chs ++ nl :: rest) s = some r ∧
      ReadsLine m buf (cap + 1) (typed cap line chs) rest r := by
  have hfits := h.fits
  have hpos := h.pos
  have hcond : ¬ (s.pos : Int) < cap + 1 - 1 := by omega
  have haddr : ((buf : Int) + (cap + 1 - 1)).toNat = buf + line.length := by omega
  have hvalue : ((cap : Int) + 1 - 1) = line.length := by omega
  rw [typed_full hfull]
  refine ⟨_, ?_, h.finish (s.echo ++ [0x0A]) rest⟩
  unfold readlineLoop
  rw [if_neg hcond, discard_eq rest hnl hchs, haddr, hvalue]
  rfl

/-- Both loops together read one line. -/
theorem readlineLoop_eq (rest : List Int) {s : Editing} {line : List UInt8}
    (h : s.Holds m buf cap line) (hnl : EndsLine nl) (hchs : ∀ ch ∈ chs, ¬ EndsLine ch ∧ ch ≠ -1) :
    ∃ r, readlineLoop buf (cap + 1) (chs ++ nl :: rest) s = some r ∧
      ReadsLine m buf (cap + 1) (typed cap line chs) rest r := by
  induction chs generalizing s line with
  | nil =>
    by_cases hroom : line.length < cap
    · have hpos := h.pos
      have hcond : (s.pos : Int) < cap + 1 - 1 := by omega
      refine ⟨_, ?_, h.finish (s.echo ++ [0x0A]) rest⟩
      rw [List.nil_append, readlineLoop, if_pos hcond, hpos]
      exact if_pos hnl
    · exact readlineLoop_full rest h hroom hnl hchs
  | cons ch chs ih =>
    by_cases hroom : line.length < cap
    · have hpos := h.pos
      have hcond : (s.pos : Int) < cap + 1 - 1 := by omega
      have hend := (hchs ch List.mem_cons_self).1
      have htyped : typed cap line (ch :: chs) = typed cap (edit line ch) chs := by
        rw [typed, List.foldl_cons, if_pos hroom, typed]
      obtain ⟨r, hr, hline⟩ :=
        ih (h.key hroom ch) fun ch hch => hchs ch (List.mem_cons_of_mem _ hch)
      refine ⟨r, ?_, htyped ▸ hline⟩
      rw [List.cons_append, readlineLoop, if_pos hcond]
      exact (if_neg hend).trans hr
    · exact readlineLoop_full rest h hroom hnl hchs

/-- Printable characters that fit are echoed one by one, and the end of the line as a newline. -/
theorem readlineLoop_printable (rest : List Int) {s : Editing} {line : List UInt8}
    (hfit : s.pos + line.length ≤ cap) (hline : ∀ c ∈ line, 0x20 ≤ c.toNat ∧ c.toNat < 0x7F)
    (hnl : EndsLine nl) :
    readlineLoop buf (cap + 1) (line.map (fun c => (c.toNat : Int)) ++ nl :: rest) s =
      some ⟨s.mem.write (buf + s.pos) (line ++ [0]), s.echo ++ line ++ [0x0A],
        (s.pos + line.length : Nat), rest⟩ := by
  induction line generalizing s with
  | nil =>
    rw [List.length_nil, Nat.add_zero] at hfit
    rw [List.map_nil, List.nil_append, List.nil_append, List.append_nil, readlineLoop]
    by_cases hroom : (s.pos : Int) < cap + 1 - 1
    · rw [if_pos hroom]
      exact if_pos hnl
    · have haddr : ((buf : Int) + (cap + 1 - 1)).toNat = buf + s.pos := by omega
      have hvalue : (cap : Int) + 1 - 1 = s.pos := by omega
      have hdiscard : discard (nl :: rest) = some rest :=
        discard_eq rest hnl fun ch hch => absurd hch List.not_mem_nil
      rw [if_neg hroom, hdiscard, haddr, hvalue]
      rfl
  | cons c line ih =>
    rw [List.length_cons] at hfit
    obtain ⟨hlow, hhigh⟩ := hline c List.mem_cons_self
    have hroom : (s.pos : Int) < cap + 1 - 1 := by omega
    have hend : ¬ EndsLine (c.toNat : Int) := by
      rintro (h | h) <;> omega
    have hdel : ¬ ((c.toNat : Int) = 0x08 ∨ (c.toNat : Int) = 0x7F) := by omega
    have hprint : (0x20 : Int) ≤ c.toNat ∧ (c.toNat : Int) < 0x7F := by omega
    have hbyte : UInt8.ofInt (c.toNat : Int) = c := by
      apply UInt8.toNat_inj.1
      rw [UInt8.ofInt, UInt8.toNat_ofNat']
      omega
    have hkey : s.key buf c.toNat = ⟨s.mem.write (buf + s.pos) [c], s.pos + 1, s.echo ++ [c]⟩ := by
      rw [Editing.key, if_neg hdel, if_pos hprint, hbyte]
    have hwrite : (s.mem.write (buf + s.pos) [c]).write (buf + (s.pos + 1)) (line ++ [0]) =
        s.mem.write (buf + s.pos) (c :: line ++ [0]) :=
      Mem.write_append s.mem (buf + s.pos) [c] (line ++ [0])
    have hpos : s.pos + 1 + line.length = s.pos + (line.length + 1) := by omega
    rw [List.map_cons, List.cons_append, readlineLoop, if_pos hroom]
    refine (if_neg hend).trans ?_
    rw [hkey, ih (by dsimp only; omega) fun c hc => hline c (List.mem_cons_of_mem _ hc)]
    dsimp only
    rw [hwrite, hpos, List.append_assoc s.echo [c] line]
    rfl

end Loops

/-- The first line, its end, and what is behind it. -/
theorem lineOf_split {input : List Int} (h : ∃ ch ∈ input, EndsLine ch) :
    ∃ nl, EndsLine nl ∧
      input = lineOf input ++ nl :: input.drop ((lineOf input).length + 1) := by
  obtain ⟨ch, hmem, hch⟩ := h
  induction input with
  | nil => exact absurd hmem List.not_mem_nil
  | cons c input ih =>
    by_cases hc : EndsLine c
    · have hline : lineOf (c :: input) = [] := List.takeWhile_cons_of_neg (by simpa using hc)
      exact ⟨c, hc, by rw [hline]; rfl⟩
    · have hline : lineOf (c :: input) = c :: lineOf input :=
        List.takeWhile_cons_of_pos (by simpa using hc)
      obtain rfl | hmem := List.mem_cons.1 hmem
      · exact absurd hch hc
      obtain ⟨nl, hend, hsplit⟩ := ih hmem
      refine ⟨nl, hend, ?_⟩
      rw [hline, List.length_cons, List.drop_succ_cons, List.cons_append, ← hsplit]

theorem not_endsLine_of_mem {input : List Int} {ch : Int} (h : ch ∈ lineOf input) :
    ¬ EndsLine ch := by
  have hch := List.mem_takeWhile_imp h
  simpa using hch

/-- `readline` reads its input up to the first end of a line, and leaves in the
buffer the line as it was typed. -/
theorem readline_reads_line (m : Mem) (buf : Nat) (bufsz : Int) (input : List Int)
    (hsize : 1 ≤ bufsz) (hneg : ∀ ch ∈ input, ch ≠ -1) (hnl : ∃ ch ∈ input, EndsLine ch) :
    ∃ r, readline m buf bufsz input = some r ∧
      ReadsLine m buf bufsz (typed (bufsz - 1).toNat [] (lineOf input))
        (input.drop ((lineOf input).length + 1)) r := by
  obtain ⟨nl, hend, hinput⟩ := lineOf_split hnl
  obtain ⟨cap, rfl⟩ : ∃ cap : Nat, bufsz = cap + 1 := ⟨(bufsz - 1).toNat, by omega⟩
  have hcap : ((cap : Int) + 1 - 1).toNat = cap := by omega
  have hstart : Editing.Holds m buf cap ⟨m, 0, []⟩ [] :=
    ⟨rfl, Nat.zero_le _, rfl, List.not_mem_nil, fun _ _ => rfl⟩
  have hline : ∀ ch ∈ lineOf input, ¬ EndsLine ch ∧ ch ≠ -1 := fun ch hch =>
    ⟨not_endsLine_of_mem hch, hneg ch (hinput ▸ List.mem_append_left _ hch)⟩
  obtain ⟨r, hr, hreads⟩ := readlineLoop_eq (input.drop ((lineOf input).length + 1)) hstart hend
    hline
  rw [← hinput] at hr
  rw [hcap]
  exact ⟨r, hr, hreads⟩

/-- `ab`, a backspace, `cde` and another backspace into a buffer of four. -/
theorem readline_reads_line_sample :
    ∃ r, readline (fun _ => 0xFF) 100 4 [97, 98, 8, 99, 100, 101, 127, -56, 13, 122] = some r ∧
      ReadsLine (fun _ => 0xFF) 100 4 [97, 99, 100] [122] r :=
  readline_reads_line (fun _ => 0xFF) 100 4 [97, 98, 8, 99, 100, 101, 127, -56, 13, 122]
    (by decide) (by decide) ⟨13, by decide, by decide⟩

/-! ## The echo -/

/-- What is shown for a character typed behind `line`. -/
def shown (line : List UInt8) (ch : Int) : List UInt8 :=
  if ch = 0x08 ∨ ch = 0x7F then if line = [] then [] else [0x08, 0x20, 0x08]
  else if 0x20 ≤ ch ∧ ch < 0x7F then [UInt8.ofInt ch]
  else []

/-- What is shown for the characters of a line; nothing once there is no room. -/
def echoed (cap : Nat) (line : List UInt8) : List Int → List UInt8
  | [] => []
  | ch :: chs =>
    if line.length < cap then shown line ch ++ echoed cap (edit line ch) chs
    else echoed cap line chs

section Echo

variable {buf cap : Nat} {nl : Int} {chs : List Int}

theorem echoed_full {line : List UInt8} (h : ¬ line.length < cap) (chs : List Int) :
    echoed cap line chs = [] := by
  induction chs with
  | nil => rfl
  | cons ch chs ih => rwa [echoed, if_neg h]

theorem Editing.key_echo (buf : Nat) {s : Editing} {line : List UInt8} (h : s.pos = line.length)
    (ch : Int) :
    (s.key buf ch).echo = s.echo ++ shown line ch ∧
      (s.key buf ch).pos = (edit line ch).length := by
  unfold Editing.key shown edit
  by_cases hdel : ch = 0x08 ∨ ch = 0x7F
  · rw [if_pos hdel, if_pos hdel, if_pos hdel]
    by_cases hnil : line = []
    · have hpos : ¬ s.pos > 0 := by
        rw [h, hnil]
        exact Nat.lt_irrefl 0
      rw [if_neg hpos, if_pos hnil, h, hnil]
      exact ⟨(List.append_nil _).symm, rfl⟩
    · have hpos : s.pos > 0 := h ▸ List.length_pos_iff.2 hnil
      rw [if_pos hpos, if_neg hnil, List.length_dropLast, ← h]
      exact ⟨rfl, rfl⟩
  · rw [if_neg hdel, if_neg hdel, if_neg hdel]
    by_cases hprint : 0x20 ≤ ch ∧ ch < 0x7F
    · rw [if_pos hprint, if_pos hprint, if_pos hprint, List.length_append, ← h]
      exact ⟨rfl, rfl⟩
    · rw [if_neg hprint, if_neg hprint, if_neg hprint, h]
      exact ⟨(List.append_nil _).symm, rfl⟩

/-- What `readline` has shown when it returns. -/
theorem readlineLoop_echo {rest : List Int} {s : Editing} {line : List UInt8} {r : LineRead}
    (h : s.pos = line.length) (hnl : EndsLine nl) (hchs : ∀ ch ∈ chs, ¬ EndsLine ch)
    (hr : readlineLoop buf (cap + 1) (chs ++ nl :: rest) s = some r) :
    r.echo = s.echo ++ echoed cap line chs ++ [0x0A] := by
  induction chs generalizing s line with
  | nil =>
    rw [List.nil_append, readlineLoop] at hr
    rw [echoed, List.append_nil]
    split at hr
    · obtain rfl := Option.some.inj ((if_pos hnl).symm.trans hr)
      rfl
    · obtain ⟨rest', -, rfl⟩ := Option.map_eq_some_iff.1 hr
      rfl
  | cons ch chs ih =>
    rw [List.cons_append, readlineLoop] at hr
    by_cases hroom : line.length < cap
    · have hcond : (s.pos : Int) < cap + 1 - 1 := by omega
      obtain ⟨hecho, hpos⟩ := Editing.key_echo buf h ch
      rw [if_pos hcond] at hr
      have hnext := ih hpos (fun ch hch => hchs ch (List.mem_cons_of_mem _ hch))
        ((if_neg (hchs ch List.mem_cons_self)).symm.trans hr)
      rw [hnext, hecho, echoed, if_pos hroom, List.append_assoc s.echo]
    · have hcond : ¬ (s.pos : Int) < cap + 1 - 1 := by omega
      rw [if_neg hcond] at hr
      obtain ⟨rest', -, rfl⟩ := Option.map_eq_some_iff.1 hr
      rw [echoed_full hroom, List.append_nil]

/-- Without the end of a line it goes on waiting. -/
theorem readlineLoop_waits {bufsz : Int} {s : Editing}
    (hchs : ∀ ch ∈ chs, ¬ EndsLine ch ∧ ch ≠ -1) : readlineLoop buf bufsz chs s = none := by
  have hdiscard : ∀ chs : List Int, (∀ ch ∈ chs, ¬ EndsLine ch ∧ ch ≠ -1) → discard chs = none := by
    intro chs hchs
    induction chs with
    | nil => rfl
    | cons ch chs ih =>
      obtain ⟨hend, hneg⟩ := hchs ch List.mem_cons_self
      obtain ⟨hlf, hcr⟩ := not_or.1 hend
      rw [discard, if_pos ⟨hlf, hcr, hneg⟩]
      exact ih fun ch hch => hchs ch (List.mem_cons_of_mem _ hch)
  induction chs generalizing s with
  | nil =>
    unfold readlineLoop
    split <;> rfl
  | cons ch chs ih =>
    unfold readlineLoop
    split
    · exact (if_neg (hchs ch List.mem_cons_self).1).trans
        (ih fun ch hch => hchs ch (List.mem_cons_of_mem _ hch))
    · rw [hdiscard (ch :: chs) hchs]
      rfl

end Echo

end MiniKvm.Os1k
