import Mathlib.Data.List.Basic
import MiniKvm.Core.Bytes
import MiniKvm.Core.Trace

/-!
# The text screen

`VgaHandle` of HLeOs (hleos/vga.rs) and the job that types on it
(`getch_main`, hleos/thread/jobs.rs). The screen is 25 rows of 80 cells, a
character and an attribute each; an empty cell has neither. Each call runs as a
whole: what the handle does with interrupts disabled is one step, and so is
`print_char`.

The handler of the timer blinks a bar behind the text (`cursor_visible`,
`cursor_invisible`). What is on the screen is a page, the rows above and the
row that is typed (`Shows`). `typing_shown_iff` says when screen and page part.
-/
namespace MiniKvm.Hleos

/-! ## The source -/

/-- The handle, the memory and the interrupt flag.
mirrors experimental/HLeOs/HLeOs/src/hleos/vga.rs:1-7 -/
structure Vga where
  x : Nat
  y : Nat
  curAttr : UInt8
  cursor : Bool
  mem : Mem
  interrupts : Bool

/-- The address of a cell. -/
def cellAt (x y : Nat) : Nat := 0xb8000 + x * 2 + y * 160

/-- Both bytes of a cell. -/
def putCell (m : Mem) (x y : Nat) (c : UInt8 × UInt8) : Mem :=
  (m.write (cellAt x y) [c.1]).write (cellAt x y + 1) [c.2]

/-- `for i in (0..=i).rev()`: the last cell of a row that is in use. -/
def lastUsed (m : Mem) (y : Nat) : Nat → Nat
  | 0 => 0
  | i + 1 => if m (cellAt (i + 1) y) ≠ 0 then i + 1 else lastUsed m y i

/-- `for y in 0..n`. -/
def clearColumn (x : Nat) (m : Mem) : Nat → Mem
  | 0 => m
  | y + 1 => putCell (clearColumn x m y) x y (0, 0)

/-- `for x in 0..n`. -/
def clearColumns (m : Mem) : Nat → Mem
  | 0 => m
  | x + 1 => clearColumn x (clearColumns m x) 25

namespace Vga

/-- mirrors experimental/HLeOs/HLeOs/src/hleos/interrupt.rs:246-258 -/
def setInterruptFlag (s : Vga) (iF : Bool) : Bool × Vga :=
  (s.interrupts, { s with interrupts := iF })

/-- The pair of `set_interrupt_flag` around most of the calls. -/
def masked {α : Type} (f : Vga → α × Vga) (s : Vga) : α × Vga :=
  let (old, s) := s.setInterruptFlag false
  let (r, s) := f s
  (r, (s.setInterruptFlag old).2)

/-- mirrors experimental/HLeOs/HLeOs/src/hleos/vga.rs:122-132 -/
def validCursor (s : Vga) : Bool := s.x < 80 ∧ s.y < 25

/-- mirrors experimental/HLeOs/HLeOs/src/hleos/vga.rs:40-60 -/
def moveRightCursor : Vga → Bool × Vga := masked fun s =>
  if s.x + 1 < 80 then (true, { s with x := s.x + 1 })
  else if s.y + 1 < 25 then (true, { s with y := s.y + 1, x := 0 })
  else (false, s)

/-- mirrors experimental/HLeOs/HLeOs/src/hleos/vga.rs:62-87 -/
def moveLeftCursor : Vga → Bool × Vga := masked fun s =>
  if s.x > 0 then (true, { s with x := s.x - 1 })
  else if s.y > 0 then (true, { s with y := s.y - 1, x := lastUsed s.mem (s.y - 1) 79 })
  else (false, s)

/-- mirrors experimental/HLeOs/HLeOs/src/hleos/vga.rs:89-99 -/
def moveDownCursor : Vga → Bool × Vga := masked fun s =>
  if s.y + 1 < 25 then (true, { s with y := s.y + 1 }) else (false, s)

/-- mirrors experimental/HLeOs/HLeOs/src/hleos/vga.rs:113-120 -/
def nextLine (s : Vga) : Bool × Vga :=
  let (moved, s) := s.moveDownCursor
  if moved then (true, { s with x := 0 }) else (false, s)

/-- mirrors experimental/HLeOs/HLeOs/src/hleos/vga.rs:218-231 -/
def deleteChar (s : Vga) : Vga :=
  if s.validCursor then
    let (moved, s) := s.moveLeftCursor
    if moved then { s with mem := putCell s.mem s.x s.y (0, 0) } else s
  else s

/-- mirrors experimental/HLeOs/HLeOs/src/hleos/vga.rs:32-39 -/
def cursorInvisible (s : Vga) : Vga :=
  (masked (fun s => ((), { s.deleteChar with cursor := false })) s).2

/-- `if is_cursor_visible() { cursor_invisible() }`. -/
def hideBar (s : Vga) : Vga := if s.cursor then s.cursorInvisible else s

/-- mirrors experimental/HLeOs/HLeOs/src/hleos/vga.rs:134-157 -/
def printChar (ch : UInt8) (s : Vga) : Vga :=
  let s := s.hideBar
  if s.validCursor then
    if ch = '\n'.toUInt8 then s.nextLine.2
    else { s with mem := putCell s.mem s.x s.y (ch, s.curAttr) }.moveRightCursor.2
  else s

/-- mirrors experimental/HLeOs/HLeOs/src/hleos/vga.rs:13-20 -/
def cursorVisible (s : Vga) : Vga :=
  (masked (fun s => ((), { s.printChar '|'.toUInt8 with cursor := true })) s).2

/-- mirrors experimental/HLeOs/HLeOs/src/hleos/vga.rs:233-249 -/
def clear (s : Vga) : Vga := { s with mem := clearColumns s.mem 80, x := 0, y := 0 }

end Vga

/-- The character of a scan code; for other codes `getch` asks again.
mirrors experimental/HLeOs/HLeOs/src/hleos/iostream.rs:116-159 -/
def getch (key : Nat) : Option UInt8 :=
  if (key ≥ 0x10 ∧ key ≤ 0x32) ∨ key = 0x39 ∨ key = 0x0E then
    some <| Char.toUInt8 <|
      match key with
      | 0x0E => '*'
      | 0x10 => 'Q'
      | 0x11 => 'W'
      | 0x12 => 'E'
      | 0x13 => 'R'
      | 0x14 => 'T'
      | 0x15 => 'Y'
      | 0x16 => 'U'
      | 0x17 => 'I'
      | 0x18 => 'O'
      | 0x19 => 'P'
      | 0x1c => '\n'
      | 0x1e => 'A'
      | 0x1f => 'S'
      | 0x20 => 'D'
      | 0x21 => 'F'
      | 0x22 => 'G'
      | 0x23 => 'H'
      | 0x24 => 'J'
      | 0x25 => 'K'
      | 0x26 => 'L'
      | 0x27 => ';'
      | 0x28 => '\''
      | 0x2C => 'Z'
      | 0x2D => 'X'
      | 0x2E => 'C'
      | 0x2F => 'V'
      | 0x30 => 'B'
      | 0x31 => 'N'
      | 0x32 => 'M'
      | 0x39 => ' '
      | _ => '/'
  else none

/-- What `getch_main` does with a character.
mirrors experimental/HLeOs/HLeOs/src/hleos/thread/jobs.rs:43-49 -/
def typeChar (ch : UInt8) (s : Vga) : Vga :=
  if ch = '*'.toUInt8 then s.deleteChar else s.printChar ch

/-! ## Cells -/

/-- A cell as it is read. -/
def cell (m : Mem) (x y : Nat) : UInt8 × UInt8 := (m (cellAt x y), m (cellAt x y + 1))

/-- The memory of the screen. -/
def OnScreen (a : Nat) : Prop := 0xb8000 ≤ a ∧ a < 0xb8000 + 4000

section Cells

variable {m : Mem} {x y x' y' a : Nat}

theorem cellAt_inj (hx : x < 80) (hx' : x' < 80) : cellAt x y = cellAt x' y' ↔ x = x' ∧ y = y' := by
  unfold cellAt
  omega

theorem putCell_apply (m : Mem) (x y : Nat) (c : UInt8 × UInt8) (a : Nat) :
    putCell m x y c a =
      if a = cellAt x y + 1 then c.2 else if a = cellAt x y then c.1 else m a := by
  rw [putCell, Mem.write_singleton, Mem.write_singleton, Function.update_apply,
    Function.update_apply]

theorem cell_putCell (hx : x < 80) (hx' : x' < 80) (c : UInt8 × UInt8) :
    cell (putCell m x' y' c) x y = if x = x' ∧ y = y' then c else cell m x y := by
  have hodd : cellAt x y ≠ cellAt x' y' + 1 := by
    unfold cellAt
    omega
  have heven : cellAt x y + 1 ≠ cellAt x' y' := by
    unfold cellAt
    omega
  rw [cell, putCell_apply, putCell_apply, if_neg hodd, if_neg heven]
  simp only [Nat.add_right_cancel_iff, cellAt_inj hx hx']
  split <;> rfl

theorem putCell_out (hx : x < 80) (hy : y < 25) (ha : ¬ OnScreen a) (c : UInt8 × UInt8) :
    putCell m x y c a = m a := by
  unfold OnScreen at ha
  rw [putCell_apply, if_neg, if_neg]
  · unfold cellAt
    omega
  · unfold cellAt
    omega

theorem lastUsed_le (m : Mem) (y n : Nat) : lastUsed m y n ≤ n := by
  induction n with
  | zero => exact Nat.le_refl 0
  | succ n ih =>
    unfold lastUsed
    split
    · exact Nat.le_refl _
    · exact Nat.le_succ_of_le ih

/-- Of a row with `k` characters and nothing behind them. -/
theorem lastUsed_eq {k n : Nat} (hk : k ≤ n + 1) (hin : ∀ i < k, m (cellAt i y) ≠ 0)
    (hout : ∀ i, k ≤ i → i ≤ n → m (cellAt i y) = 0) : lastUsed m y n = k - 1 := by
  induction n with
  | zero =>
    rw [lastUsed]
    omega
  | succ n ih =>
    rw [lastUsed]
    by_cases hfull : k = n + 2
    · rw [if_pos (hin (n + 1) (by omega)), hfull]
      rfl
    · rw [if_neg (not_not_intro (hout (n + 1) (by omega) (Nat.le_refl _)))]
      exact ih (by omega) fun i h1 h2 => hout i h1 (by omega)

theorem clearColumn_cell (hx : x < 80) (hx' : x' < 80) (n : Nat) :
    cell (clearColumn x' m n) x y = if x = x' ∧ y < n then (0, 0) else cell m x y := by
  induction n with
  | zero => rw [clearColumn, if_neg (by omega)]
  | succ n ih =>
    rw [clearColumn, cell_putCell hx hx', ih]
    by_cases hhere : x = x' ∧ y = n
    · rw [if_pos hhere, if_pos (by omega)]
    · rw [if_neg hhere]
      by_cases hbefore : x = x' ∧ y < n
      · rw [if_pos hbefore, if_pos (by omega)]
      · rw [if_neg hbefore, if_neg (by omega)]

theorem clearColumns_cell (hx : x < 80) (hy : y < 25) {n : Nat} (hn : n ≤ 80) :
    cell (clearColumns m n) x y = if x < n then (0, 0) else cell m x y := by
  induction n with
  | zero => rfl
  | succ n ih =>
    rw [clearColumns, clearColumn_cell hx (by omega), ih (by omega)]
    by_cases hhere : x = n
    · rw [if_pos ⟨hhere, hy⟩, if_pos (by omega)]
    · rw [if_neg fun h => hhere h.1]
      by_cases hbefore : x < n
      · rw [if_pos hbefore, if_pos (by omega)]
      · rw [if_neg hbefore, if_neg (by omega)]

theorem clearColumn_out (hx : x < 80) (ha : ¬ OnScreen a) {n : Nat} (hn : n ≤ 25) :
    clearColumn x m n a = m a := by
  induction n with
  | zero => rfl
  | succ n ih => rw [clearColumn, putCell_out hx (by omega) ha, ih (by omega)]

theorem clearColumns_out (ha : ¬ OnScreen a) {n : Nat} (hn : n ≤ 80) :
    clearColumns m n a = m a := by
  induction n with
  | zero => rfl
  | succ n ih =>
    rw [clearColumns, clearColumn_out (by omega) ha (Nat.le_refl 25), ih (by omega)]

end Cells

/-! ## Pages -/

/-- The rows above, the nearest first, and the row that is typed. -/
structure Page where
  above : List (List UInt8)
  cur : List UInt8
  deriving DecidableEq, Repr

namespace Page

def empty : Page := ⟨[], []⟩

/-- A character behind the others; a full row is left for the next. -/
def type (p : Page) (c : UInt8) : Page :=
  if p.cur.length + 1 < 80 then ⟨p.above, p.cur ++ [c]⟩ else ⟨(p.cur ++ [c]) :: p.above, []⟩

/-- Another row, while the screen has one. -/
def newline (p : Page) : Page :=
  if p.above.length + 1 < 25 then ⟨p.cur :: p.above, []⟩ else p

/-- The last character goes; without one on its row, that of the row above. -/
def delete (p : Page) : Page :=
  match p.cur, p.above with
  | [], [] => p
  | [], r :: rs => ⟨rs, r.dropLast⟩
  | _ :: _, _ => ⟨p.above, p.cur.dropLast⟩

/-- The last cell of the screen is next. -/
def Corner (p : Page) : Prop := p.cur.length = 79 ∧ p.above.length = 24

instance (p : Page) : Decidable p.Corner := inferInstanceAs (Decidable (_ ∧ _))

/-- A row by its number; the lowest comes first in the list. -/
def rowOf : List (List UInt8) → Nat → List UInt8
  | [], _ => []
  | r :: rs, y => if y = rs.length then r else rowOf rs y

def row (p : Page) : Nat → List UInt8 := rowOf (p.cur :: p.above)

/-- The page fits the screen, with room behind the text. -/
structure Fits (p : Page) : Prop where
  cur : p.cur.length < 80
  rows : ∀ r ∈ p.above, r.length ≤ 80
  height : p.above.length < 25
  chars : ∀ r ∈ p.cur :: p.above, 0 ∉ r

end Page

/-- A character with its attribute; an empty cell has neither. -/
def charCell (attr : UInt8) (r : List UInt8) (x : Nat) : UInt8 × UInt8 :=
  match r[x]? with
  | some c => (c, attr)
  | none => (0, 0)

/-- The page is on the screen, and the cursor behind its text. -/
structure Shows (s0 : Vga) (p : Page) (s : Vga) : Prop where
  fits : p.Fits
  x : s.x = p.cur.length
  y : s.y = p.above.length
  cells : ∀ x < 80, ∀ y < 25, cell s.mem x y = charCell s0.curAttr (p.row y) x
  frame : ∀ a, ¬ OnScreen a → s.mem a = s0.mem a
  attr : s.curAttr = s0.curAttr
  interrupts : s.interrupts = s0.interrupts

section Pages

variable {p : Page} {c : UInt8}

namespace Page

theorem rowOf_of_le {rs : List (List UInt8)} {y : Nat} (h : rs.length ≤ y) : rowOf rs y = [] := by
  induction rs with
  | nil => rfl
  | cons r rs ih =>
    rw [List.length_cons] at h
    rw [rowOf, if_neg (by omega), ih (by omega)]

/-- Any row but the top one. -/
theorem row_of_ne {y : Nat} (h : y ≠ p.above.length) : p.row y = rowOf p.above y := if_neg h

theorem row_top (p : Page) : p.row p.above.length = p.cur := if_pos rfl

theorem row_mem (p : Page) (y : Nat) : p.row y = [] ∨ p.row y ∈ p.cur :: p.above := by
  unfold row
  generalize p.cur :: p.above = rs
  induction rs with
  | nil => exact Or.inl rfl
  | cons r rs ih =>
    unfold rowOf
    split
    · exact Or.inr List.mem_cons_self
    · exact ih.imp_right (List.mem_cons_of_mem r)

theorem row_type (p : Page) (c : UInt8) (y : Nat) :
    (p.type c).row y = if y = p.above.length then p.cur ++ [c] else p.row y := by
  unfold type
  split
  · by_cases hy : y = p.above.length
    · rw [if_pos hy, hy]
      exact row_top _
    · rw [if_neg hy, row_of_ne hy]
      exact row_of_ne hy
  · by_cases htop : y = p.above.length + 1
    · rw [htop, if_neg (Nat.succ_ne_self _), row_of_ne (Nat.succ_ne_self _), rowOf_of_le (by omega)]
      exact row_top ⟨(p.cur ++ [c]) :: p.above, []⟩
    · rw [row_of_ne htop, rowOf]
      by_cases hy : y = p.above.length
      · rw [if_pos hy, if_pos hy]
      · rw [if_neg hy, if_neg hy, row_of_ne hy]

theorem row_newline (p : Page) (y : Nat) : p.newline.row y = p.row y := by
  unfold newline
  split
  · by_cases htop : y = p.above.length + 1
    · rw [htop, row_of_ne (Nat.succ_ne_self _), rowOf_of_le (by omega)]
      exact row_top ⟨p.cur :: p.above, []⟩
    · exact row_of_ne htop
  · rfl

/-- One row loses its last character, and becomes the top one. -/
theorem row_delete (hp : p ≠ empty) (y : Nat) :
    p.delete.cur = (p.row p.delete.above.length).dropLast ∧
      p.delete.row y = if y = p.delete.above.length then p.delete.cur else p.row y := by
  obtain ⟨above, cur⟩ := p
  cases cur with
  | nil =>
    cases above with
    | nil => exact absurd rfl hp
    | cons r rs =>
      have hrow : row ⟨r :: rs, []⟩ rs.length = r :=
        (row_of_ne (p := ⟨r :: rs, []⟩) (Nat.ne_of_lt (Nat.lt_succ_self _))).trans (if_pos rfl)
      refine ⟨congrArg List.dropLast hrow.symm, ?_⟩
      show rowOf (r.dropLast :: rs) y = if y = rs.length then r.dropLast else row ⟨r :: rs, []⟩ y
      rw [rowOf]
      by_cases hy : y = rs.length
      · rw [if_pos hy, if_pos hy]
      · rw [if_neg hy, if_neg hy]
        by_cases htop : y = rs.length + 1
        · rw [htop, rowOf_of_le (Nat.le_succ _)]
          exact (row_top ⟨r :: rs, []⟩).symm
        · exact ((row_of_ne (p := ⟨r :: rs, []⟩) htop).trans (if_neg hy)).symm
  | cons d cur =>
    refine ⟨congrArg List.dropLast (row_top ⟨above, d :: cur⟩).symm, ?_⟩
    show rowOf ((d :: cur).dropLast :: above) y =
      if y = above.length then (d :: cur).dropLast else row ⟨above, d :: cur⟩ y
    rw [rowOf]
    by_cases hy : y = above.length
    · rw [if_pos hy, if_pos hy]
    · rw [if_neg hy, if_neg hy]
      exact (row_of_ne (p := ⟨above, d :: cur⟩) hy).symm

/-- A character that was typed is deleted. -/
theorem delete_type (p : Page) (c : UInt8) : (p.type c).delete = p := by
  obtain ⟨above, cur⟩ := p
  unfold type
  split
  · cases cur with
    | nil => rfl
    | cons d cur =>
      have hlast : (d :: cur ++ [c]).dropLast = d :: cur := List.dropLast_concat
      simp only [delete, List.cons_append]
      rw [← List.cons_append, hlast]
  · simp only [delete, List.dropLast_concat]

theorem Fits.type (h : p.Fits) (hcorner : ¬ p.Corner) (hc : c ≠ 0) : (p.type c).Fits := by
  obtain ⟨hcur, hrows, hheight, hchars⟩ := h
  have hnew : 0 ∉ p.cur ++ [c] := fun h0 => by
    rcases List.mem_append.1 h0 with h0 | h0
    · exact hchars p.cur List.mem_cons_self h0
    · exact hc (List.mem_singleton.1 h0).symm
  have hlen : (p.cur ++ [c]).length = p.cur.length + 1 := List.length_append
  unfold Page.type
  split
  · refine ⟨by dsimp only; omega, hrows, hheight, fun r hr => ?_⟩
    rcases List.mem_cons.1 hr with rfl | hr
    · exact hnew
    · exact hchars r (List.mem_cons_of_mem _ hr)
  · unfold Corner at hcorner
    refine ⟨by simp, fun r hr => ?_, by rw [List.length_cons]; omega, fun r hr => ?_⟩
    · rcases List.mem_cons.1 hr with rfl | hr
      · omega
      · exact hrows r hr
    · rcases List.mem_cons.1 hr with rfl | hr
      · exact List.not_mem_nil
      · rcases List.mem_cons.1 hr with rfl | hr
        · exact hnew
        · exact hchars r (List.mem_cons_of_mem _ hr)

theorem Fits.newline (h : p.Fits) : p.newline.Fits := by
  unfold Page.newline
  split
  · obtain ⟨hcur, hrows, hheight, hchars⟩ := h
    refine ⟨by simp, fun r hr => ?_, by rw [List.length_cons]; omega, fun r hr => ?_⟩
    · rcases List.mem_cons.1 hr with rfl | hr
      · omega
      · exact hrows r hr
    · rcases List.mem_cons.1 hr with rfl | hr
      · exact List.not_mem_nil
      · exact hchars r hr
  · exact h

theorem Fits.delete (h : p.Fits) : p.delete.Fits := by
  obtain ⟨above, cur⟩ := p
  obtain ⟨hcur, hrows, hheight, hchars⟩ := h
  cases cur with
  | nil =>
    cases above with
    | nil => exact ⟨hcur, hrows, hheight, hchars⟩
    | cons r rs =>
      have hlen := hrows r List.mem_cons_self
      refine ⟨by dsimp only [Page.delete]; rw [List.length_dropLast]; omega,
        fun q hq => hrows q (List.mem_cons_of_mem r hq),
        by dsimp only [Page.delete]; rw [List.length_cons] at hheight; omega, fun q hq => ?_⟩
      rcases List.mem_cons.1 hq with rfl | hq
      · exact fun h0 => hchars r (by simp) (List.dropLast_subset r h0)
      · exact hchars q (List.mem_cons_of_mem _ (List.mem_cons_of_mem r hq))
  | cons d cur =>
    have hlen : (d :: cur).length < 80 := hcur
    refine ⟨?_, hrows, hheight, fun q hq => ?_⟩
    · dsimp only [Page.delete]
      rw [List.length_dropLast]
      omega
    · rcases List.mem_cons.1 hq with rfl | hq
      · exact fun h0 => hchars (d :: cur) List.mem_cons_self (List.dropLast_subset _ h0)
      · exact hchars q (List.mem_cons_of_mem _ hq)

end Page

/-- A character changes one cell of its row. -/
theorem charCell_concat (attr : UInt8) (r : List UInt8) (c : UInt8) (x : Nat) :
    charCell attr (r ++ [c]) x = if x = r.length then (c, attr) else charCell attr r x := by
  unfold charCell
  rcases Nat.lt_trichotomy x r.length with hlt | rfl | hgt
  · rw [List.getElem?_append_left hlt, if_neg (Nat.ne_of_lt hlt)]
  · rw [List.getElem?_concat_length, if_pos rfl]
  · have hlen : (r ++ [c]).length ≤ x := by
      rw [List.length_append, List.length_singleton]
      omega
    rw [List.getElem?_eq_none hlen, List.getElem?_eq_none (Nat.le_of_lt hgt),
      if_neg (Nat.ne_of_gt hgt)]

theorem charCell_dropLast (attr : UInt8) (r : List UInt8) (x : Nat) :
    charCell attr r.dropLast x = if x = r.length - 1 then (0, 0) else charCell attr r x := by
  rcases r.eq_nil_or_concat' with rfl | ⟨l, c, rfl⟩
  · split <;> rfl
  · have hlen : (l ++ [c]).length - 1 = l.length := by simp
    rw [List.dropLast_concat, hlen, charCell_concat]
    split
    · rename_i hx
      rw [charCell, List.getElem?_eq_none (Nat.le_of_eq hx.symm)]
    · rfl

/-- The characters of a row are those of its cells. -/
theorem charCell_ne_zero {attr : UInt8} {r : List UInt8} (h : 0 ∉ r) {x : Nat} (hx : x < r.length) :
    (charCell attr r x).1 ≠ 0 := by
  rw [charCell, List.getElem?_eq_getElem hx]
  intro h0
  exact h (h0 ▸ List.getElem_mem hx)

theorem charCell_eq_zero {attr : UInt8} {r : List UInt8} {x : Nat} (hx : r.length ≤ x) :
    charCell attr r x = (0, 0) := by
  rw [charCell, List.getElem?_eq_none hx]

end Pages

/-! ## The handle and the page -/

section Shows

variable {s0 s : Vga} {p : Page} {c : UInt8}

theorem Shows.valid (h : Shows s0 p s) : s.validCursor = true :=
  decide_eq_true ⟨h.x ▸ h.fits.cur, h.y ▸ h.fits.height⟩

/-- The parts of the handle that a page says nothing about. -/
theorem Shows.cursor (h : Shows s0 p s) (b : Bool) : Shows s0 p { s with cursor := b } :=
  ⟨h.fits, h.x, h.y, h.cells, h.frame, h.attr, h.interrupts⟩

theorem Shows.mask (h : Shows s0 p s) (b : Bool) :
    Shows { s0 with interrupts := b } p { s with interrupts := b } :=
  ⟨h.fits, h.x, h.y, h.cells, h.frame, h.attr, rfl⟩

theorem Shows.unmask {t : Vga} {q : Page} (h : Shows s0 p s)
    (ht : Shows { s0 with interrupts := false } q t) :
    Shows s0 q { t with interrupts := s.interrupts } :=
  ⟨ht.fits, ht.x, ht.y, ht.cells, ht.frame, ht.attr, h.interrupts⟩

theorem moveRightCursor_eq (s : Vga) :
    s.moveRightCursor =
      if s.x + 1 < 80 then (true, { s with x := s.x + 1 })
      else if s.y + 1 < 25 then (true, { s with y := s.y + 1, x := 0 })
      else (false, s) := by
  unfold Vga.moveRightCursor Vga.masked Vga.setInterruptFlag
  dsimp only
  split
  · rfl
  · split <;> rfl

theorem moveLeftCursor_eq (s : Vga) :
    s.moveLeftCursor =
      if s.x > 0 then (true, { s with x := s.x - 1 })
      else if s.y > 0 then (true, { s with y := s.y - 1, x := lastUsed s.mem (s.y - 1) 79 })
      else (false, s) := by
  unfold Vga.moveLeftCursor Vga.masked Vga.setInterruptFlag
  dsimp only
  split
  · rfl
  · split <;> rfl

theorem nextLine_eq (s : Vga) :
    s.nextLine = if s.y + 1 < 25 then (true, { s with y := s.y + 1, x := 0 }) else (false, s) := by
  unfold Vga.nextLine Vga.moveDownCursor Vga.masked Vga.setInterruptFlag
  dsimp only
  split <;> rfl

theorem cursorInvisible_eq (s : Vga) :
    s.cursorInvisible =
      { ({ s with interrupts := false } : Vga).deleteChar with
        cursor := false, interrupts := s.interrupts } := rfl

theorem cursorVisible_eq (s : Vga) :
    s.cursorVisible =
      { ({ s with interrupts := false } : Vga).printChar '|'.toUInt8 with
        cursor := true, interrupts := s.interrupts } := rfl

/-- Wherever the cursor is, only the screen is written. -/
theorem deleteChar_out (s : Vga) {a : Nat} (ha : ¬ OnScreen a) : s.deleteChar.mem a = s.mem a := by
  rw [Vga.deleteChar]
  split
  · rename_i hvalid
    obtain ⟨hx, hy⟩ := of_decide_eq_true hvalid
    rw [moveLeftCursor_eq]
    by_cases hleft : s.x > 0
    · rw [if_pos hleft]
      exact putCell_out (Nat.lt_of_le_of_lt (Nat.sub_le s.x 1) hx) hy ha _
    · rw [if_neg hleft]
      by_cases hup : s.y > 0
      · rw [if_pos hup]
        exact putCell_out (Nat.lt_succ_of_le (lastUsed_le _ _ _))
          (Nat.lt_of_le_of_lt (Nat.sub_le s.y 1) hy) ha _
      · rw [if_neg hup]
        rfl
  · rfl

theorem hideBar_out (s : Vga) {a : Nat} (ha : ¬ OnScreen a) : s.hideBar.mem a = s.mem a := by
  rw [Vga.hideBar]
  split
  · rw [cursorInvisible_eq]
    exact deleteChar_out { s with interrupts := false } ha
  · rfl

theorem printChar_out (c : UInt8) (s : Vga) {a : Nat} (ha : ¬ OnScreen a) :
    (s.printChar c).mem a = s.mem a := by
  have hhide := hideBar_out s ha
  rw [Vga.printChar]
  generalize s.hideBar = t at hhide
  split
  · rename_i hvalid
    obtain ⟨hx, hy⟩ := of_decide_eq_true hvalid
    split
    · rw [nextLine_eq]
      split
      · exact hhide
      · exact hhide
    · have hput : putCell t.mem t.x t.y (c, t.curAttr) a = t.mem a := putCell_out hx hy ha _
      rw [moveRightCursor_eq]
      dsimp only
      split
      · exact hput.trans hhide
      · split
        · exact hput.trans hhide
        · exact hput.trans hhide
  · exact hhide

theorem cursorVisible_out (s : Vga) {a : Nat} (ha : ¬ OnScreen a) :
    s.cursorVisible.mem a = s.mem a := by
  rw [cursorVisible_eq]
  exact printChar_out _ { s with interrupts := false } ha

/-- A character behind the text. -/
theorem Shows.put (h : Shows s0 p s) (hcorner : ¬ p.Corner) (hc : c ≠ 0) :
    Shows s0 (p.type c)
      { s with mem := putCell s.mem s.x s.y (c, s.curAttr) }.moveRightCursor.2 := by
  have hfits := h.fits
  have hx := h.x
  have hy := h.y
  have hcells : ∀ x < 80, ∀ y < 25, cell (putCell s.mem s.x s.y (c, s.curAttr)) x y =
      charCell s0.curAttr ((p.type c).row y) x := by
    intro x hx80 y hy25
    rw [cell_putCell hx80 (by have := hfits.cur; omega), Page.row_type, hx, hy, h.attr]
    by_cases hrow : y = p.above.length
    · rw [if_pos hrow, charCell_concat]
      by_cases hcol : x = p.cur.length
      · rw [if_pos ⟨hcol, hrow⟩, if_pos hcol]
      · rw [if_neg fun hh => hcol hh.1, if_neg hcol, h.cells x hx80 y hy25, hrow, Page.row_top]
    · rw [if_neg fun hh => hrow hh.2, if_neg hrow, h.cells x hx80 y hy25]
  have hframe : ∀ a, ¬ OnScreen a → putCell s.mem s.x s.y (c, s.curAttr) a = s0.mem a :=
    fun a ha => (putCell_out (hx ▸ hfits.cur) (hy ▸ hfits.height) ha _).trans (h.frame a ha)
  rw [moveRightCursor_eq]
  dsimp only
  have hfits' := hfits.type hcorner hc
  unfold Page.Corner at hcorner
  by_cases hroom : p.cur.length + 1 < 80
  · have htype : p.type c = ⟨p.above, p.cur ++ [c]⟩ := if_pos hroom
    rw [if_pos (by omega)]
    refine ⟨hfits', ?_, ?_, hcells, hframe, h.attr, h.interrupts⟩
    · rw [htype, List.length_append, List.length_singleton, hx]
    · rw [htype, hy]
  · have htype : p.type c = ⟨(p.cur ++ [c]) :: p.above, []⟩ := if_neg hroom
    have hcur := hfits.cur
    have hheight := hfits.height
    rw [if_neg (by omega), if_pos (by omega)]
    refine ⟨hfits', ?_, ?_, hcells, hframe, h.attr, h.interrupts⟩
    · rw [htype]
      rfl
    · rw [htype, List.length_cons, hy]

theorem Shows.nextLine (h : Shows s0 p s) : Shows s0 p.newline s.nextLine.2 := by
  have hcells : ∀ x < 80, ∀ y < 25, cell s.mem x y = charCell s0.curAttr (p.newline.row y) x :=
    fun x hx y hy => by rw [Page.row_newline, h.cells x hx y hy]
  rw [nextLine_eq]
  by_cases hroom : p.above.length + 1 < 25
  · have hpage : p.newline = ⟨p.cur :: p.above, []⟩ := if_pos hroom
    rw [if_pos (by rw [h.y]; exact hroom)]
    refine ⟨h.fits.newline, ?_, ?_, hcells, h.frame, h.attr, h.interrupts⟩
    · rw [hpage]
      rfl
    · rw [hpage, List.length_cons, h.y]
  · have hpage : p.newline = p := if_neg hroom
    rw [if_neg (by rw [h.y]; exact hroom), hpage]
    exact h

theorem Page.Fits.row (h : p.Fits) (y : Nat) : (p.row y).length ≤ 80 := by
  rcases p.row_mem y with hnil | hmem
  · rw [hnil]
    exact Nat.zero_le _
  · rcases List.mem_cons.1 hmem with hcur | habove
    · rw [hcur]
      exact Nat.le_of_lt h.cur
    · exact h.rows _ habove

/-- Where the cursor moves to the left, there is the last character. -/
theorem Shows.moveLeft (h : Shows s0 p s) (hp : p ≠ Page.empty) :
    s.moveLeftCursor = (true, { s with
      x := (p.row p.delete.above.length).length - 1, y := p.delete.above.length }) := by
  have hx := h.x
  have hy := h.y
  have hfits := h.fits
  obtain ⟨above, cur⟩ := p
  rw [moveLeftCursor_eq]
  cases cur with
  | cons d cur =>
    have hrow : (Page.row ⟨above, d :: cur⟩ above.length) = d :: cur := Page.row_top _
    rw [if_pos (by rw [hx, List.length_cons]; omega)]
    show (true, { s with x := s.x - 1 }) = (true, { s with
      x := (Page.row ⟨above, d :: cur⟩ above.length).length - 1, y := above.length })
    rw [hrow, hx, ← hy]
  | nil =>
    cases above with
    | nil => exact absurd rfl hp
    | cons r rs =>
      have hrow : Page.row ⟨r :: rs, []⟩ rs.length = r :=
        (Page.row_of_ne (p := ⟨r :: rs, []⟩) (Nat.ne_of_lt (Nat.lt_succ_self _))).trans (if_pos rfl)
      have hy1 : s.y - 1 = rs.length := by
        rw [hy, List.length_cons, Nat.add_sub_cancel]
      have hlen := hfits.rows r List.mem_cons_self
      have hheight := hfits.height
      rw [List.length_cons] at hheight
      have hcell : ∀ i < 80, s.mem (cellAt i rs.length) = (charCell s0.curAttr r i).1 :=
        fun i hi => by
          have hc := h.cells i hi rs.length (by omega)
          rw [hrow] at hc
          exact congrArg Prod.fst hc
      have hlast : lastUsed s.mem rs.length 79 = r.length - 1 := by
        refine lastUsed_eq hlen (fun i hi => ?_) fun i h1 h2 => ?_
        · rw [hcell i (by omega)]
          exact charCell_ne_zero (hfits.chars r (List.mem_cons_of_mem _ List.mem_cons_self)) hi
        · rw [hcell i (by omega), charCell_eq_zero h1]
      rw [if_neg (by rw [hx]; exact Nat.lt_irrefl 0), if_pos (by rw [hy]; exact Nat.succ_pos _),
        hy1, hlast]
      show _ = (true, { s with
        x := (Page.row ⟨r :: rs, []⟩ rs.length).length - 1, y := rs.length })
      rw [hrow]

/-- The cell of the last character is cleared. -/
theorem Shows.deleteChar (h : Shows s0 p s) : Shows s0 p.delete s.deleteChar := by
  rw [Vga.deleteChar, if_pos h.valid]
  by_cases hp : p = Page.empty
  · subst hp
    have hstay : s.moveLeftCursor = (false, s) := by
      rw [moveLeftCursor_eq, if_neg (by rw [h.x]; exact Nat.lt_irrefl 0),
        if_neg (by rw [h.y]; exact Nat.lt_irrefl 0)]
    rw [hstay]
    exact h
  · rw [h.moveLeft hp]
    dsimp only
    rw [if_pos rfl]
    have hfits := h.fits.delete
    obtain ⟨hcur, -⟩ := Page.row_delete hp 0
    have hrow80 := h.fits.row p.delete.above.length
    refine ⟨hfits, ?_, rfl, fun x hx y hy => ?_, fun a ha => ?_, h.attr, h.interrupts⟩
    · rw [hcur, List.length_dropLast]
    · rw [cell_putCell hx (by omega), (Page.row_delete hp y).2]
      by_cases hyy : y = p.delete.above.length
      · rw [if_pos hyy, hcur, charCell_dropLast]
        by_cases hxx : x = (p.row p.delete.above.length).length - 1
        · rw [if_pos ⟨hxx, hyy⟩, if_pos hxx]
        · rw [if_neg fun hh => hxx hh.1, if_neg hxx, h.cells x hx y hy, hyy]
      · rw [if_neg fun hh => hyy hh.2, if_neg hyy, h.cells x hx y hy]
    · exact (putCell_out (by omega) hfits.height ha _).trans (h.frame a ha)

theorem Page.row_empty (y : Nat) : Page.row Page.empty y = [] := by
  unfold Page.row Page.empty Page.rowOf
  split <;> rfl

/-- A cleared screen is empty, whatever was on it. -/
theorem shows_clear (s : Vga) : Shows s Page.empty s.clear := by
  refine ⟨⟨by decide, fun r hr => absurd hr List.not_mem_nil, by decide, fun r hr => ?_⟩, rfl, rfl,
    fun x hx y hy => ?_, fun a ha => clearColumns_out ha (Nat.le_refl 80), rfl, rfl⟩
  · rw [List.mem_singleton.1 hr]
    exact List.not_mem_nil
  · rw [Page.row_empty, charCell_eq_zero (Nat.zero_le x)]
    exact (clearColumns_cell hx hy (Nat.le_refl 80)).trans (if_pos hx)

theorem Shows.clear (h : Shows s0 p s) : Shows s0 Page.empty s.clear := by
  obtain ⟨hfits, hx, hy, hcells, hframe, -, -⟩ := shows_clear s
  exact ⟨hfits, hx, hy, h.attr ▸ hcells, fun a ha => (hframe a ha).trans (h.frame a ha), h.attr,
    h.interrupts⟩

/-- The handle without its bar. -/
theorem Shows.cursorInvisible (h : Shows s0 p s) : Shows s0 p.delete s.cursorInvisible :=
  h.unmask ((h.mask false).deleteChar.cursor false)

end Shows

/-! ## Typing while the bar blinks -/

inductive VgaOp where
  /-- A key is pressed, with its scan code. -/
  | key (code : Nat)
  | cursorVisible
  /-- As the timer has it: only of a bar that is there. -/
  | cursorInvisible
  | clear

def Vga.step (s : Vga) : VgaOp → Vga
  | .key code => match getch code with
    | some ch => typeChar ch s
    | none => s
  | .cursorVisible => s.cursorVisible
  | .cursorInvisible => s.hideBar
  | .clear => s.clear

/-- The page that was typed. -/
def Page.step (p : Page) : VgaOp → Page
  | .key code => match getch code with
    | some ch =>
      if ch = '*'.toUInt8 then p.delete else if ch = '\n'.toUInt8 then p.newline else p.type ch
    | none => p
  | .cursorVisible => p
  | .cursorInvisible => p
  | .clear => Page.empty

/-- The page is on the screen, with a bar behind it when the handle says so. After `clear` there
is none for the moment. -/
def Displays (s0 : Vga) (t : Vga × Page) : Prop :=
  if t.1.cursor then
    Shows s0 (t.2.type '|'.toUInt8) t.1 ∨ t.2 = Page.empty ∧ Shows s0 Page.empty t.1
  else Shows s0 t.2 t.1

/-- A character is not typed, and the bar not shown, in the last cell of the screen; and the
last character is not deleted while the bar is behind it. -/
def Harmless (t : Vga × Page) : VgaOp → Prop
  | .key code => match getch code with
    | some ch =>
      if ch = '*'.toUInt8 then t.1.cursor = false ∨ t.2 = Page.empty
      else if ch = '\n'.toUInt8 then True else ¬ t.2.Corner
    | none => True
  | .cursorVisible => ¬ t.2.Corner
  | .cursorInvisible => True
  | .clear => True

/-- Without a bar in the text. -/
def NoBar (p : Page) : Prop := ∀ r ∈ p.cur :: p.above, '|'.toUInt8 ∉ r

section Blink

variable {s0 s : Vga} {p : Page} {c : UInt8}

/-- The characters of the keyboard. -/
theorem getch_ne {key : Nat} {ch : UInt8} (h : getch key = some ch) :
    ch ≠ 0 ∧ ch ≠ '|'.toUInt8 := by
  unfold getch at h
  split at h
  · obtain rfl := Option.some.inj h
    split <;> decide
  · cases h

theorem moveLeftCursor_cursor (s : Vga) : s.moveLeftCursor.2.cursor = s.cursor := by
  rw [moveLeftCursor_eq]
  split
  · rfl
  · split <;> rfl

theorem moveRightCursor_cursor (s : Vga) : s.moveRightCursor.2.cursor = s.cursor := by
  rw [moveRightCursor_eq]
  split
  · rfl
  · split <;> rfl

theorem nextLine_cursor (s : Vga) : s.nextLine.2.cursor = s.cursor := by
  rw [nextLine_eq]
  split <;> rfl

theorem deleteChar_cursor (s : Vga) : s.deleteChar.cursor = s.cursor := by
  have hmove := moveLeftCursor_cursor s
  unfold Vga.deleteChar
  split
  · dsimp only
    split
    · exact hmove
    · exact hmove
  · rfl

theorem hideBar_cursor (s : Vga) : s.hideBar.cursor = false := by
  unfold Vga.hideBar
  split
  · rfl
  · rename_i h
    exact Bool.eq_false_iff.2 h

/-- The bar is gone before a character is printed. -/
theorem printChar_cursor (s : Vga) (c : UInt8) : (s.printChar c).cursor = false := by
  have hoff := hideBar_cursor s
  unfold Vga.printChar
  dsimp only
  split
  · split
    · exact (nextLine_cursor _).trans hoff
    · exact (moveRightCursor_cursor _).trans hoff
  · exact hoff

theorem NoBar.empty : NoBar Page.empty := fun r hr => by
  rw [List.mem_singleton.1 hr]
  exact List.not_mem_nil

theorem NoBar.delete (h : NoBar p) : NoBar p.delete := by
  obtain ⟨above, cur⟩ := p
  intro r hr hbar
  cases cur with
  | nil =>
    cases above with
    | nil => exact h r hr hbar
    | cons q rs =>
      rcases List.mem_cons.1 hr with rfl | hr
      · exact h q (by simp) (List.dropLast_subset q hbar)
      · exact h r (List.mem_cons_of_mem _ (List.mem_cons_of_mem q hr)) hbar
  | cons d cur =>
    rcases List.mem_cons.1 hr with rfl | hr
    · exact h (d :: cur) List.mem_cons_self (List.dropLast_subset _ hbar)
    · exact h r (List.mem_cons_of_mem _ hr) hbar

theorem NoBar.newline (h : NoBar p) : NoBar p.newline := by
  unfold Page.newline
  split
  · intro r hr hbar
    rcases List.mem_cons.1 hr with rfl | hr
    · exact absurd hbar List.not_mem_nil
    · exact h r hr hbar
  · exact h

theorem NoBar.type (h : NoBar p) (hc : c ≠ '|'.toUInt8) : NoBar (p.type c) := by
  have hnew : '|'.toUInt8 ∉ p.cur ++ [c] := fun hbar => by
    rcases List.mem_append.1 hbar with hbar | hbar
    · exact h p.cur List.mem_cons_self hbar
    · exact hc (List.mem_singleton.1 hbar).symm
  unfold Page.type
  split
  · intro r hr hbar
    rcases List.mem_cons.1 hr with rfl | hr
    · exact hnew hbar
    · exact h r (List.mem_cons_of_mem _ hr) hbar
  · intro r hr hbar
    rcases List.mem_cons.1 hr with rfl | hr
    · exact absurd hbar List.not_mem_nil
    · rcases List.mem_cons.1 hr with rfl | hr
      · exact hnew hbar
      · exact h r (List.mem_cons_of_mem _ hr) hbar

theorem NoBar.step (h : NoBar p) (o : VgaOp) : NoBar (p.step o) := by
  cases o with
  | key code =>
    cases hch : getch code with
    | none =>
      simp only [Page.step, hch]
      exact h
    | some ch =>
      simp only [Page.step, hch]
      split
      · exact h.delete
      · split
        · exact h.newline
        · exact h.type (getch_ne hch).2
  | cursorVisible => exact h
  | cursorInvisible => exact h
  | clear => exact NoBar.empty

/-- Behind the text of a full page there is no room. -/
theorem not_shows_type (hcorner : p.Corner) (c : UInt8) : ¬ Shows s0 (p.type c) s := by
  intro h
  have hheight := h.fits.height
  unfold Page.Corner at hcorner
  have htype : p.type c = ⟨(p.cur ++ [c]) :: p.above, []⟩ := if_neg (by omega)
  rw [htype, List.length_cons] at hheight
  omega

/-- What `print_char` starts with: the bar goes. -/
theorem Displays.bare (h : Displays s0 (s, p)) : Shows s0 p s.hideBar := by
  unfold Displays at h
  unfold Vga.hideBar
  split
  · rename_i hcur
    rw [if_pos hcur] at h
    rcases h with h | ⟨rfl, h⟩
    · have hdel := h.cursorInvisible
      rwa [Page.delete_type] at hdel
    · exact h.cursorInvisible
  · rename_i hcur
    rwa [if_neg hcur] at h

theorem Displays.printChar (h : Displays s0 (s, p)) (hc : c ≠ 0) (hnl : c ≠ '\n'.toUInt8)
    (hcorner : ¬ p.Corner) : Shows s0 (p.type c) (s.printChar c) := by
  have hbare := h.bare
  unfold Vga.printChar
  dsimp only
  rw [if_pos hbare.valid, if_neg hnl]
  exact hbare.put hcorner hc

theorem Displays.printNewline (h : Displays s0 (s, p)) :
    Shows s0 p.newline (s.printChar '\n'.toUInt8) := by
  have hbare := h.bare
  unfold Vga.printChar
  dsimp only
  rw [if_pos hbare.valid, if_pos rfl]
  exact hbare.nextLine

/-- A bar that is on the screen is not in the text. -/
theorem NoBar.not_shown {q : Page} (h : NoBar p) (hp : Shows s0 p s) :
    ¬ Shows s0 (q.type '|'.toUInt8) s := by
  intro hq
  have hcur : q.cur.length < 80 := by
    have hx := hq.fits.rows
    have hc := hq.fits.cur
    unfold Page.type at hx hc
    split at hc
    · rename_i hroom
      omega
    · rename_i hfull
      rw [if_neg hfull] at hx
      have hlen := hx (q.cur ++ ['|'.toUInt8]) List.mem_cons_self
      rw [List.length_append, List.length_singleton] at hlen
      omega
  have hheight : q.above.length < 25 := by
    have hh := hq.fits.height
    unfold Page.type at hh
    split at hh
    · exact hh
    · rw [List.length_cons] at hh
      omega
  have hbar := hq.cells q.cur.length hcur q.above.length hheight
  rw [Page.row_type, if_pos rfl, charCell_concat, if_pos rfl,
    hp.cells q.cur.length hcur q.above.length hheight, charCell] at hbar
  split at hbar
  · rename_i c hc
    obtain rfl : c = '|'.toUInt8 := congrArg Prod.fst hbar
    obtain ⟨hlt, hget⟩ := List.getElem?_eq_some_iff.1 hc
    have hmem : '|'.toUInt8 ∈ p.row q.above.length := hget ▸ List.getElem_mem hlt
    rcases Page.row_mem p q.above.length with hnil | hrow
    · rw [hnil] at hmem
      exact List.not_mem_nil hmem
    · exact h _ hrow hmem
  · have hne : (0 : UInt8) ≠ '|'.toUInt8 := by decide
    exact hne (congrArg Prod.fst hbar)

theorem displays_of_cursor (hcur : s.cursor = false) : Displays s0 (s, p) ↔ Shows s0 p s := by
  rw [Displays, hcur]
  exact Iff.rfl

theorem displays_of_bar (hcur : s.cursor = true) :
    Displays s0 (s, p) ↔
      Shows s0 (p.type '|'.toUInt8) s ∨ p = Page.empty ∧ Shows s0 Page.empty s := by
  rw [Displays, if_pos hcur]

theorem Displays.mask (h : Displays s0 (s, p)) (b : Bool) :
    Displays { s0 with interrupts := b } ({ s with interrupts := b }, p) := by
  unfold Displays at h ⊢
  dsimp only at h ⊢
  split
  · rename_i hcur
    rw [if_pos hcur] at h
    exact h.imp (fun h => h.mask b) fun h => ⟨h.1, h.2.mask b⟩
  · rename_i hcur
    rw [if_neg hcur] at h
    exact h.mask b

theorem Displays.interrupts (h : Displays s0 (s, p)) : s.interrupts = s0.interrupts := by
  unfold Displays at h
  split at h
  · exact h.elim Shows.interrupts fun h => h.2.interrupts
  · exact Shows.interrupts h

theorem Displays.cursorVisible (h : Displays s0 (s, p)) (hcorner : ¬ p.Corner) :
    Displays s0 (s.cursorVisible, p) := by
  have hbar : '|'.toUInt8 ≠ 0 ∧ '|'.toUInt8 ≠ '\n'.toUInt8 := by decide
  obtain ⟨hfits, hx, hy, hcells, hframe, hattr, -⟩ :=
    (h.mask false).printChar hbar.1 hbar.2 hcorner
  exact (displays_of_bar rfl).2 (Or.inl ⟨hfits, hx, hy, hcells, hframe, hattr, h.interrupts⟩)

/-- A delete takes the bar for the last character. -/
theorem Displays.delete_iff (h : Displays s0 (s, p)) (hbar : NoBar p) :
    Displays s0 (s.deleteChar, p.delete) ↔ s.cursor = false ∨ p = Page.empty := by
  have hcur := deleteChar_cursor s
  cases hs : s.cursor with
  | false =>
    rw [displays_of_cursor (hcur.trans hs)]
    exact iff_of_true ((displays_of_cursor hs).1 h).deleteChar (Or.inl rfl)
  | true =>
    rw [displays_of_bar (hcur.trans hs)]
    rcases (displays_of_bar hs).1 h with hshow | ⟨rfl, hshow⟩
    · have hdel : Shows s0 p s.deleteChar := Page.delete_type p '|'.toUInt8 ▸ hshow.deleteChar
      constructor
      · rintro (hno | ⟨hempty, hshows⟩)
        · exact absurd hno (hbar.not_shown hdel)
        · refine Or.inr ?_
          have hcur : p.cur = [] := List.length_eq_zero_iff.1 (hdel.x.symm.trans hshows.x)
          have habove : p.above = [] := List.length_eq_zero_iff.1 (hdel.y.symm.trans hshows.y)
          obtain ⟨above, cur⟩ := p
          exact congrArg₂ Page.mk habove hcur
      · rintro (hno | rfl)
        · cases hno
        · exact Or.inr ⟨rfl, hdel⟩
    · exact iff_of_true (Or.inr ⟨rfl, hshow.deleteChar⟩) (Or.inr rfl)

/-- One operation. -/
theorem displays_step (hbar : NoBar p) (h : Displays s0 (s, p)) (o : VgaOp) :
    Displays s0 (s.step o, p.step o) ↔ Harmless (s, p) o := by
  cases o with
  | key code =>
    cases hch : getch code with
    | none =>
      simp only [Vga.step, Page.step, Harmless, hch]
      exact iff_of_true h trivial
    | some ch =>
      obtain ⟨hzero, hne⟩ := getch_ne hch
      simp only [Vga.step, Page.step, Harmless, hch, typeChar]
      by_cases hdel : ch = '*'.toUInt8
      · rw [if_pos hdel, if_pos hdel, if_pos hdel]
        exact h.delete_iff hbar
      · rw [if_neg hdel, if_neg hdel, if_neg hdel, displays_of_cursor (printChar_cursor s ch)]
        by_cases hnl : ch = '\n'.toUInt8
        · rw [if_pos hnl, if_pos hnl, hnl]
          exact iff_of_true h.printNewline trivial
        · rw [if_neg hnl, if_neg hnl]
          exact ⟨fun hs hcorner => not_shows_type hcorner ch hs, h.printChar hzero hnl⟩
  | cursorVisible =>
    refine ⟨fun hs hcorner => ?_, h.cursorVisible⟩
    rcases (displays_of_bar (p := p) rfl).1 hs with hs | ⟨rfl, -⟩
    · exact not_shows_type hcorner _ hs
    · have hno : ¬ Page.empty.Corner := by decide
      exact hno hcorner
  | cursorInvisible =>
    exact iff_of_true ((displays_of_cursor (hideBar_cursor s)).2 h.bare) trivial
  | clear =>
    refine iff_of_true ?_ trivial
    show Displays s0 (s.clear, Page.empty)
    cases hcur : s.cursor with
    | true =>
      rcases (displays_of_bar hcur).1 h with hs | ⟨-, hs⟩
      · exact (displays_of_bar (s := s.clear) hcur).2 (Or.inr ⟨rfl, hs.clear⟩)
      · exact (displays_of_bar (s := s.clear) hcur).2 (Or.inr ⟨rfl, hs.clear⟩)
    | false =>
      exact (displays_of_cursor (s := s.clear) hcur).2 ((displays_of_cursor hcur).1 h).clear

end Blink

/-- The screen and the page together. -/
def typing (t : Vga × Page) (o : VgaOp) : Vga × Page := (t.1.step o, t.2.step o)

/-- From a cleared screen, keys are typed and the bar blinks: the screen shows the typed page all
along exactly when each operation is harmless where it happens. -/
theorem typing_shown_iff (s : Vga) (os : List VgaOp) :
    Throughout typing (Displays s) (s.clear, Page.empty) os ↔
      Along typing Harmless (s.clear, Page.empty) os := by
  have hstart : Displays s (s.clear, Page.empty) := by
    cases hcur : s.cursor with
    | true => exact (displays_of_bar (s := s.clear) hcur).2 (Or.inr ⟨rfl, shows_clear s⟩)
    | false => exact (displays_of_cursor (s := s.clear) hcur).2 (shows_clear s)
  exact throughout_iff_along (I := fun t : Vga × Page => NoBar t.2) (fun t o h => h.step o)
    (fun t o hbar h => displays_step hbar h o) NoBar.empty hstart os

end MiniKvm.Hleos
