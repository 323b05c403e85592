import Mathlib.Data.Finset.Basic
import Mathlib.Data.List.FinRange
import Mathlib.Data.Nat.Bitwise
import MiniKvm.Core.Answers
import MiniKvm.Core.Bytes

/-!
# BitMap

`BitMap` of HLeOs (std/bit_map.rs): `len` bits in the qwords from `bits` on.
A bit behind the last is never set.

A bitmap is a set of numbers below `len`: every run of operations answers as
the set does, and no byte outside the qwords changes (`BitMap.refines_set`).
-/
namespace MiniKvm.Hleos

/-! ## The source -/

/-- mirrors experimental/HLeOs/HLeOs/src/std/bit_map.rs:1-4 -/
structure BitMap where
  bits : Nat
  len : Nat

namespace BitMap

def qword (b : BitMap) (offset : Nat) : Nat := b.bits + 8 * (offset / 64)

/-- mirrors experimental/HLeOs/HLeOs/src/std/bit_map.rs:16-29 -/
def setBit (b : BitMap) (offset : Nat) (m : Mem) : Bool × Mem :=
  if b.len ≤ offset then (false, m)
  else
    let qword := b.qword offset
    (true, m.store 8 qword (m.load 8 qword ||| 1 <<< (offset % 64)))

/-- `!` flips the 64 bits.
mirrors experimental/HLeOs/HLeOs/src/std/bit_map.rs:30-43 -/
def unsetBit (b : BitMap) (offset : Nat) (m : Mem) : Bool × Mem :=
  if b.len ≤ offset then (false, m)
  else
    let qword := b.qword offset
    (true, m.store 8 qword (m.load 8 qword &&& (2 ^ 64 - 1 - 1 <<< (offset % 64))))

/-- mirrors experimental/HLeOs/HLeOs/src/std/bit_map.rs:44-59 -/
def isSet (b : BitMap) (offset : Nat) (m : Mem) : Bool :=
  if b.len ≤ offset then false
  else m.load 8 (b.qword offset) &&& 1 <<< (offset % 64) ≠ 0

/-- The loop, with `n` turns left. -/
def findFirstFrom (b : BitMap) (tf : Bool) (m : Mem) : Nat → Nat → Nat
  | 0, _ => b.len
  | n + 1, i => if b.isSet i m = tf then i else findFirstFrom b tf m n (i + 1)

/-- mirrors experimental/HLeOs/HLeOs/src/std/bit_map.rs:60-69 -/
def findFirst (b : BitMap) (tf : Bool) (m : Mem) : Nat := b.findFirstFrom tf m b.len 0

/-! ## The bits -/

/-- The memory behind the map. -/
def Within (b : BitMap) (x : Nat) : Prop := b.bits ≤ x ∧ x < b.bits + 8 * ((b.len + 63) / 64)

section Bits

variable {b : BitMap} {m : Mem} {o i : Nat}

theorem isSet_eq (h : i < b.len) : b.isSet i m = (m.load 8 (b.qword i)).testBit (i % 64) := by
  rw [isSet, if_neg (Nat.not_le.2 h), Nat.one_shiftLeft, Nat.and_two_pow]
  cases (m.load 8 (b.qword i)).testBit (i % 64) with
  | false => simp
  | true => simp

theorem isSet_of_le (h : b.len ≤ i) : b.isSet i m = false := if_pos h

theorem isSet_congr {m' : Mem} (h : ∀ x, b.Within x → m' x = m x) :
    b.isSet i m' = b.isSet i m := by
  rcases Nat.lt_or_ge i b.len with hi | hi
  · rw [isSet_eq hi, isSet_eq hi, Mem.load_congr fun x h1 h2 => h x ?_]
    unfold qword at h1 h2
    unfold Within
    omega
  · rw [isSet_of_le hi, isSet_of_le hi]

/-- A qword gets another value. -/
theorem isSet_store {v : Nat} (hv : v < 2 ^ 64) (hi : i < b.len) :
    b.isSet i (m.store 8 (b.qword o) v) =
      if o / 64 = i / 64 then v.testBit (i % 64) else b.isSet i m := by
  rw [isSet_eq hi, isSet_eq hi]
  split
  · rename_i h
    have hq : b.qword o = b.qword i := by rw [qword, qword, h]
    rw [hq, Mem.load_store_of_lt m _ hv]
  · rename_i h
    rw [Mem.load_store_out m v]
    unfold qword
    omega

theorem bit_lt (o : Nat) : 2 ^ (o % 64) < 2 ^ 64 :=
  Nat.pow_lt_pow_right (by decide) (Nat.mod_lt o (by decide))

theorem same_bit (h : o / 64 = i / 64) : o % 64 = i % 64 ↔ i = o := by omega

theorem setBit_isSet (ho : o < b.len) (i : Nat) :
    b.isSet i (b.setBit o m).2 = (decide (i = o) || b.isSet i m) := by
  have hset : (b.setBit o m).2 =
      m.store 8 (b.qword o) (m.load 8 (b.qword o) ||| 2 ^ (o % 64)) := by
    rw [setBit, if_neg (Nat.not_le.2 ho), Nat.one_shiftLeft]
  rw [hset]
  rcases Nat.lt_or_ge i b.len with hi | hi
  · rw [isSet_store (Nat.or_lt_two_pow (m.load_lt 8 _) (bit_lt o)) hi]
    split
    · rename_i h
      have hq : b.qword o = b.qword i := by rw [qword, qword, h]
      rw [Nat.testBit_or, Nat.testBit_two_pow, hq, ← isSet_eq hi, Bool.or_comm,
        decide_eq_decide.2 (same_bit h)]
    · rename_i h
      have hne : i ≠ o := fun he => h (by rw [he])
      rw [decide_eq_false hne, Bool.false_or]
  · have hne : i ≠ o := by omega
    rw [isSet_of_le hi, isSet_of_le hi, decide_eq_false hne, Bool.or_self]

theorem unsetBit_isSet (o i : Nat) :
    b.isSet i (b.unsetBit o m).2 = (decide (i ≠ o) && b.isSet i m) := by
  rcases Nat.lt_or_ge i b.len with hi | hi
  · rcases Nat.lt_or_ge o b.len with ho | ho
    · have hunset : (b.unsetBit o m).2 =
          m.store 8 (b.qword o) (m.load 8 (b.qword o) &&& (2 ^ 64 - (2 ^ (o % 64) + 1))) := by
        rw [unsetBit, if_neg (Nat.not_le.2 ho), Nat.one_shiftLeft, Nat.sub_sub, Nat.add_comm 1]
      rw [hunset, isSet_store (Nat.lt_of_le_of_lt Nat.and_le_left (m.load_lt 8 _)) hi]
      split
      · rename_i h
        have hq : b.qword o = b.qword i := by rw [qword, qword, h]
        have hlt : i % 64 < 64 := Nat.mod_lt i (by decide)
        rw [Nat.testBit_and, Nat.testBit_two_pow_sub_succ (bit_lt o), Nat.testBit_two_pow, hq,
          ← isSet_eq hi, Bool.and_comm, decide_eq_true hlt, Bool.true_and,
          decide_eq_decide.2 (same_bit h), ← decide_not]
      · rename_i h
        have hne : i ≠ o := fun he => h (by rw [he])
        rw [decide_eq_true hne, Bool.true_and]
    · have hne : i ≠ o := by omega
      rw [unsetBit, if_pos ho, decide_eq_true hne, Bool.true_and]
  · rw [isSet_of_le hi, isSet_of_le hi, Bool.and_false]

theorem setBit_out {x : Nat} (hx : ¬ b.Within x) : (b.setBit o m).2 x = m x := by
  unfold setBit
  split
  · rfl
  · refine Mem.store_out m _ ?_
    unfold Within at hx
    unfold qword
    omega

theorem unsetBit_out {x : Nat} (hx : ¬ b.Within x) : (b.unsetBit o m).2 x = m x := by
  unfold unsetBit
  split
  · rfl
  · refine Mem.store_out m _ ?_
    unfold Within at hx
    unfold qword
    omega

end Bits

/-! ## A set of numbers -/

inductive Op where
  | setBit (offset : Nat)
  | unsetBit (offset : Nat)
  | isSet (offset : Nat)
  | findFirst (tf : Bool)

inductive Answer where
  | done (ok : Bool)
  | found (offset : Nat)
  deriving DecidableEq, Repr

/-- The operations on memory. -/
def step (b : BitMap) (m : Mem) : Op → Answer × Mem
  | .setBit o => (.done (b.setBit o m).1, (b.setBit o m).2)
  | .unsetBit o => (.done (b.unsetBit o m).1, (b.unsetBit o m).2)
  | .isSet o => (.done (b.isSet o m), m)
  | .findFirst tf => (.found (b.findFirst tf m), m)

/-- The operations on a set of numbers below `n`. -/
def setStep (n : Nat) (s : Finset Nat) : Op → Answer × Finset Nat
  | .setBit o => if o < n then (.done true, insert o s) else (.done false, s)
  | .unsetBit o => if o < n then (.done true, s.erase o) else (.done false, s)
  | .isSet o => (.done (o ∈ s), s)
  | .findFirst tf => (.found (((List.range n).find? fun i => decide (i ∈ s) = tf).getD n), s)

/-- The bits are the members, and the memory around the map is that of `m0`. -/
structure Holds (b : BitMap) (m0 m : Mem) (s : Finset Nat) : Prop where
  bits : ∀ i, b.isSet i m = decide (i ∈ s)
  frame : ∀ x, ¬ b.Within x → m x = m0 x

section Refinement

variable {b : BitMap} {m0 m : Mem} {s : Finset Nat}

theorem findFirstFrom_eq (tf : Bool) (m : Mem) (n i : Nat) :
    b.findFirstFrom tf m n i =
      ((List.range' i n).find? fun i => decide (b.isSet i m = tf)).getD b.len := by
  induction n generalizing i with
  | zero => rfl
  | succ n ih =>
    rw [findFirstFrom, List.range'_succ, List.find?_cons]
    by_cases h : b.isSet i m = tf
    · rw [if_pos h, decide_eq_true h]
      rfl
    · rw [if_neg h, decide_eq_false h]
      exact ih (i + 1)

theorem findFirst_eq (tf : Bool) (m : Mem) :
    b.findFirst tf m =
      ((List.range b.len).find? fun i => decide (b.isSet i m = tf)).getD b.len := by
  rw [findFirst, findFirstFrom_eq, List.range_eq_range']

theorem Holds.set (h : b.Holds m0 m s) {o : Nat} (ho : o < b.len) :
    b.Holds m0 (b.setBit o m).2 (insert o s) := by
  refine ⟨fun i => ?_, fun x hx => (setBit_out hx).trans (h.frame x hx)⟩
  rw [setBit_isSet ho, h.bits i, ← Bool.decide_or, decide_eq_decide, Finset.mem_insert]

theorem Holds.unset (h : b.Holds m0 m s) (o : Nat) :
    b.Holds m0 (b.unsetBit o m).2 (s.erase o) := by
  refine ⟨fun i => ?_, fun x hx => (unsetBit_out hx).trans (h.frame x hx)⟩
  rw [unsetBit_isSet, h.bits i, ← Bool.decide_and, decide_eq_decide, Finset.mem_erase]

theorem simulates_set (b : BitMap) (m0 : Mem) :
    Simulation b.step (setStep b.len) id id (b.Holds m0) where
  answer := by
    intro m s h o
    cases o with
    | setBit o =>
      by_cases ho : o < b.len
      · simp [step, setStep, setBit, ho, Nat.not_le.2 ho]
      · simp [step, setStep, setBit, ho, Nat.not_lt.1 ho]
    | unsetBit o =>
      by_cases ho : o < b.len
      · simp [step, setStep, unsetBit, ho, Nat.not_le.2 ho]
      · simp [step, setStep, unsetBit, ho, Nat.not_lt.1 ho]
    | isSet o => exact congrArg Answer.done (h.bits o)
    | findFirst tf =>
      simp only [step, setStep, findFirst_eq, h.bits, id_eq]
  keep := by
    intro m s h o
    cases o with
    | setBit o =>
      by_cases ho : o < b.len
      · simp only [step, setStep, id_eq, if_pos ho]
        exact h.set ho
      · simp only [step, setStep, id_eq, if_neg ho, setBit, if_pos (Nat.not_lt.1 ho)]
        exact h
    | unsetBit o =>
      by_cases ho : o < b.len
      · simp only [step, setStep, id_eq, if_pos ho]
        exact h.unset o
      · simp only [step, setStep, id_eq, if_neg ho, unsetBit, if_pos (Nat.not_lt.1 ho)]
        exact h
    | isSet _ => exact h
    | findFirst _ => exact h

/-- The numbers whose bits are set. -/
def members (b : BitMap) (m : Mem) : Finset Nat := (Finset.range b.len).filter fun i => b.isSet i m

theorem holds_members (b : BitMap) (m : Mem) : b.Holds m m (b.members m) := by
  refine ⟨fun i => ?_, fun _ _ => rfl⟩
  rw [Bool.eq_iff_iff, decide_eq_true_eq, members, Finset.mem_filter, Finset.mem_range]
  constructor
  · intro hset
    refine ⟨?_, hset⟩
    by_contra hi
    rw [isSet_of_le (Nat.not_lt.1 hi)] at hset
    exact Bool.false_ne_true hset
  · exact And.right

end Refinement

/-- From any memory the map answers every run of operations as the set of the bits in it, keeps
to be that set, and leaves the memory around it alone. -/
theorem refines_set (b : BitMap) (m : Mem) (os : List Op) :
    answers b.step m os = answers (setStep b.len) (b.members m) os ∧
      (∀ i, b.isSet i (final b.step m os) =
        decide (i ∈ final (setStep b.len) (b.members m) os)) ∧
      ∀ x, ¬ b.Within x → final b.step m os x = m x := by
  obtain ⟨hans, hfin⟩ := (simulates_set b m).run (holds_members b m) os
  rw [List.map_id, List.map_id] at hans
  rw [List.map_id] at hfin
  exact ⟨hans, hfin.bits, hfin.frame⟩

end BitMap

end MiniKvm.Hleos
