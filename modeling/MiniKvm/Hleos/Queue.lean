import MiniKvm.Core.Bytes
import MiniKvm.Core.Fifo

/-!
# Queue

`Queue` of HLeOs (std/queue.rs): a ring of `max + 1` units in a buffer of the
caller, with `head` the oldest unit and `tail` the one to fill next. An empty
queue answers with a number of its own, `EMPTY`, and a unit keeps only the low
bytes of what is put into it.

The queue is a bounded queue of at most `max` entries in every run
(`Queue.refines_fifo`).
-/
namespace MiniKvm.Hleos

/-! ## The source -/

/-- mirrors experimental/HLeOs/HLeOs/src/std/queue.rs:3-10 -/
structure Queue where
  qBuffer : Nat
  dataUnitSize : Nat
  maxLen : Nat
  head : Nat
  tail : Nat
  deriving DecidableEq, Repr

namespace Queue

/-- What `dequeue` returns without an entry. -/
def EMPTY : Nat := 0xdeadbeafcafebabe

/-- mirrors experimental/HLeOs/HLeOs/src/std/queue.rs:13-22 -/
def new (ptr unitSize max : Nat) : Option Queue :=
  if unitSize > 8 then none
  else if max + 1 < 2 ^ 64 then some ⟨ptr, unitSize, max + 1, 0, 0⟩
  else none

/-- mirrors experimental/HLeOs/HLeOs/src/std/queue.rs:63-69 -/
def isEmpty (q : Queue) : Bool := q.head = q.tail

/-- mirrors experimental/HLeOs/HLeOs/src/std/queue.rs:70-76 -/
def isFull (q : Queue) : Bool := (q.tail + 1) % q.maxLen = q.head

/-- The loop over the bytes of a unit. -/
def putUnit (ptr data : Nat) (m : Mem) : Nat → Mem
  | 0 => m
  | i + 1 => (putUnit ptr data m i).write (ptr + i) [UInt8.ofNat (data >>> (8 * i) &&& 0xff)]

def getUnit (ptr : Nat) (m : Mem) : Nat → Nat
  | 0 => 0
  | i + 1 => getUnit ptr m i ||| (m (ptr + i)).toNat <<< (8 * i)

/-- mirrors experimental/HLeOs/HLeOs/src/std/queue.rs:24-41 -/
def enqueue (q : Queue) (data : Nat) (m : Mem) : Bool × Queue × Mem :=
  if q.isFull then (false, q, m)
  else
    let ptr := q.qBuffer + q.tail * q.dataUnitSize
    (true, { q with tail := (q.tail + 1) % q.maxLen }, putUnit ptr data m q.dataUnitSize)

/-- mirrors experimental/HLeOs/HLeOs/src/std/queue.rs:42-62 -/
def dequeue (q : Queue) (m : Mem) : Nat × Queue :=
  if q.isEmpty then (EMPTY, q)
  else
    let ptr := q.qBuffer + q.head * q.dataUnitSize
    (getUnit ptr m q.dataUnitSize, { q with head := (q.head + 1) % q.maxLen })

/-! ## Units -/

theorem putUnit_eq (ptr data : Nat) (m : Mem) (n : Nat) :
    putUnit ptr data m n = m.store n ptr data := by
  induction n with
  | zero =>
    funext x
    exact (Mem.store_out m data (by omega)).symm
  | succ n ih =>
    have hbyte : UInt8.ofNat (data >>> (8 * n) &&& 0xff) = UInt8.ofNat (data / 256 ^ n) := by
      apply UInt8.toNat_inj.1
      rw [UInt8.toNat_ofNat', UInt8.toNat_ofNat', Nat.shiftRight_eq_div_pow, Nat.pow_mul]
      exact congrArg (· % 2 ^ 8) (Nat.and_two_pow_sub_one_eq_mod (n := 8) _) |>.trans
        (Nat.mod_mod _ _)
    rw [putUnit, ih, hbyte, Mem.write_singleton]
    funext x
    by_cases hx : x = ptr + n
    · rw [hx, Function.update_self, Mem.store_byte m data (Nat.lt_succ_self n)]
    · rw [Function.update_of_ne hx]
      by_cases hin : ptr ≤ x ∧ x < ptr + n
      · obtain ⟨i, rfl⟩ := Nat.exists_eq_add_of_le hin.1
        rw [Mem.store_byte m data (by omega), Mem.store_byte m data (by omega)]
      · rw [Mem.store_out m data (by omega), Mem.store_out m data (by omega)]

theorem getUnit_eq (ptr : Nat) (m : Mem) (n : Nat) : getUnit ptr m n = m.load n ptr := by
  induction n with
  | zero => rfl
  | succ n ih =>
    have hpow : 256 ^ n = 2 ^ (8 * n) := by rw [Nat.pow_mul]
    have hlow : m.load n ptr < 2 ^ (8 * n) := hpow ▸ m.load_lt n ptr
    rw [getUnit, ih, Nat.or_comm, Nat.shiftLeft_eq, or_low_bits _ hlow, ← hpow, Mem.load_succ,
      Nat.mul_comm, Nat.add_comm]

theorem enqueue_eq (q : Queue) (data : Nat) (m : Mem) :
    q.enqueue data m =
      if (q.tail + 1) % q.maxLen = q.head then (false, q, m)
      else (true, { q with tail := (q.tail + 1) % q.maxLen },
        m.store q.dataUnitSize (q.qBuffer + q.tail * q.dataUnitSize) data) := by
  simp only [enqueue, isFull, decide_eq_true_eq, putUnit_eq]

theorem dequeue_eq (q : Queue) (m : Mem) :
    q.dequeue m =
      if q.head = q.tail then (EMPTY, q)
      else (m.load q.dataUnitSize (q.qBuffer + q.head * q.dataUnitSize),
        { q with head := (q.head + 1) % q.maxLen }) := by
  simp only [dequeue, isEmpty, decide_eq_true_eq, getUnit_eq]

/-! ## A ring of words -/

/-- The queue holds the cells and the indices of a ring, whose write index is its `tail`. -/
structure Rep {cap : Nat} (m0 : Mem) (q : Queue) (m : Mem) (r : Ring Nat (cap + 1)) : Prop where
  maxLen : q.maxLen = cap + 1
  tail : q.tail = r.head.val
  head : q.head = r.tail.val
  cells : ∀ i : Fin (cap + 1),
    m.load q.dataUnitSize (q.qBuffer + i.val * q.dataUnitSize) = r.buffer i
  frame : ∀ x, ¬ (q.qBuffer ≤ x ∧ x < q.qBuffer + (cap + 1) * q.dataUnitSize) → m x = m0 x

section Rep

variable {cap : Nat} {q : Queue} {m m0 : Mem} {r : Ring Nat (cap + 1)}

/-- An index in range, and the next one. -/
theorem next_index (hq : q.maxLen = cap + 1) (i : Fin (cap + 1)) :
    (i.val + 1) % q.maxLen = (Ring.next i).val := by
  rw [hq]
  rfl

theorem Rep.full_iff (h : Rep m0 q m r) :
    (q.tail + 1) % q.maxLen = q.head ↔ Ring.next r.head = r.tail := by
  rw [h.tail, h.head, next_index h.maxLen, Fin.ext_iff]

theorem Rep.empty_iff (h : Rep m0 q m r) : q.head = q.tail ↔ r.head = r.tail := by
  rw [h.tail, h.head, eq_comm, Fin.ext_iff]

theorem Rep.full_iff_length (h : Rep m0 q m r) :
    (q.tail + 1) % q.maxLen = q.head ↔ r.toFifo.content.length = cap := by
  have hlen : r.toFifo.content.length = r.count := Ring.toList_length r
  rw [h.full_iff, Ring.next_head_eq_tail, hlen]
  omega

theorem Rep.empty_iff_nil (h : Rep m0 q m r) : q.head = q.tail ↔ r.toFifo.content = [] :=
  h.empty_iff.trans (Ring.toList_eq_nil r).symm

/-- Cells of different indices are apart. -/
theorem cell_apart (buf u : Nat) {i j : Nat} (h : i < j) : buf + i * u + u ≤ buf + j * u := by
  have hmul : (i + 1) * u ≤ j * u := Nat.mul_le_mul_right u h
  rw [Nat.succ_mul] at hmul
  omega

theorem Rep.enqueue (h : Rep m0 q m r) (data : Nat) :
    Rep m0 (q.enqueue data m).2.1 (q.enqueue data m).2.2
      (r.push (data % 256 ^ q.dataUnitSize)) := by
  rw [enqueue_eq, Ring.push]
  by_cases hfull : (q.tail + 1) % q.maxLen = q.head
  · rw [if_pos hfull, if_pos (h.full_iff.1 hfull)]
    exact h
  · rw [if_neg hfull, if_neg (mt h.full_iff.2 hfull)]
    refine ⟨h.maxLen, ?_, h.head, fun i => ?_, fun x hx => ?_⟩
    · rw [← next_index h.maxLen, ← h.tail]
    · dsimp only
      by_cases hi : i = r.head
      · rw [hi, Function.update_self, h.tail, Mem.load_store]
      · rw [Function.update_of_ne hi, ← h.cells i, h.tail]
        refine Mem.load_store_out m data ?_
        rcases Nat.lt_or_gt_of_ne (Fin.val_ne_of_ne hi) with hlt | hgt
        · exact Or.inl (cell_apart _ _ hlt)
        · exact Or.inr (cell_apart _ _ hgt)
    · dsimp only at hx ⊢
      rw [← h.frame x hx, h.tail]
      have hend := cell_apart q.qBuffer q.dataUnitSize r.head.isLt
      refine Mem.store_out m data ?_
      omega

theorem Rep.dequeue (h : Rep m0 q m r) :
    (q.dequeue m).1 = r.pop.1.getD EMPTY ∧ Rep m0 (q.dequeue m).2 m r.pop.2 := by
  rw [dequeue_eq, Ring.pop]
  by_cases hempty : q.head = q.tail
  · rw [if_pos hempty, if_pos (h.empty_iff.1 hempty)]
    exact ⟨rfl, h⟩
  · rw [if_neg hempty, if_neg (mt h.empty_iff.2 hempty)]
    refine ⟨?_, h.maxLen, h.tail, ?_, h.cells, h.frame⟩
    · rw [h.head]
      exact h.cells r.tail
    · rw [← next_index h.maxLen, ← h.head]

end Rep

/-! ## Runs -/

inductive Op where
  | enqueue (data : Nat)
  | dequeue
  | isEmpty
  | isFull

inductive Answer where
  | ok (b : Bool)
  | value (v : Nat)
  deriving DecidableEq, Repr

def step (s : Queue × Mem) : Op → Answer × Queue × Mem
  | .enqueue data => (.ok (s.1.enqueue data s.2).1, (s.1.enqueue data s.2).2)
  | .dequeue => (.value (s.1.dequeue s.2).1, (s.1.dequeue s.2).2, s.2)
  | .isEmpty => (.ok s.1.isEmpty, s)
  | .isFull => (.ok s.1.isFull, s)

/-- The operations on a bounded queue of units of `u` bytes. -/
def fifoStep {cap : Nat} (u : Nat) (f : Fifo Nat cap) : Op → Answer × Fifo Nat cap
  | .enqueue data => (.ok (f.content.length < cap), f.push (data % 256 ^ u))
  | .dequeue => (.value (f.content.headD EMPTY), f.pop.2)
  | .isEmpty => (.ok (f.content = []), f)
  | .isFull => (.ok (f.content.length = cap), f)

/-- What a queue and its memory stand for. -/
def Holds (cap buf u : Nat) (m0 : Mem) (s : Queue × Mem) (f : Fifo Nat cap) : Prop :=
  s.1.qBuffer = buf ∧ s.1.dataUnitSize = u ∧ ∃ r, Rep m0 s.1 s.2 r ∧ r.toFifo = f

section Runs

variable {cap buf u : Nat} {m0 m : Mem} {q : Queue} {f : Fifo Nat cap}

theorem enqueue_unit (q : Queue) (data : Nat) (m : Mem) :
    (q.enqueue data m).2.1.qBuffer = q.qBuffer ∧
      (q.enqueue data m).2.1.dataUnitSize = q.dataUnitSize := by
  rw [enqueue_eq]
  split
  · exact ⟨rfl, rfl⟩
  · exact ⟨rfl, rfl⟩

theorem dequeue_unit (q : Queue) (m : Mem) :
    (q.dequeue m).2.qBuffer = q.qBuffer ∧ (q.dequeue m).2.dataUnitSize = q.dataUnitSize := by
  rw [dequeue_eq]
  split
  · exact ⟨rfl, rfl⟩
  · exact ⟨rfl, rfl⟩

/-- The same cells in another memory. -/
theorem Holds.move {m' : Mem} {s : Queue × Mem} (h : Holds cap buf u m0 s f)
    (hm : ∀ x, buf ≤ x → x < buf + (cap + 1) * u → m' x = s.2 x) :
    Holds cap buf u m' (s.1, m') f := by
  obtain ⟨q, m⟩ := s
  obtain ⟨hbuf, hunit, r, hrep, rfl⟩ := h
  dsimp only at hbuf hunit
  subst hbuf hunit
  refine ⟨rfl, rfl, r, ⟨hrep.maxLen, hrep.tail, hrep.head, fun i => ?_, fun _ _ => rfl⟩, rfl⟩
  have hend := cell_apart q.qBuffer q.dataUnitSize i.isLt
  rw [← hrep.cells i]
  exact Mem.load_congr fun x h1 h2 => hm x (Nat.le_trans (Nat.le_add_right _ _) h1)
    (Nat.lt_of_lt_of_le h2 hend)

/-- The indices are in range. -/
theorem Holds.indices {s : Queue × Mem} (h : Holds cap buf u m0 s f) :
    s.1.maxLen = cap + 1 ∧ s.1.head < cap + 1 ∧ s.1.tail < cap + 1 := by
  obtain ⟨-, -, r, hrep, -⟩ := h
  exact ⟨hrep.maxLen, hrep.head ▸ r.tail.isLt, hrep.tail ▸ r.head.isLt⟩

/-- Outside of the buffer nothing changes. -/
theorem Holds.frame {s : Queue × Mem} (h : Holds cap buf u m0 s f) {x : Nat}
    (hx : ¬ (buf ≤ x ∧ x < buf + (cap + 1) * u)) : s.2 x = m0 x := by
  obtain ⟨hbuf, hunit, r, hrep, -⟩ := h
  refine hrep.frame x ?_
  rwa [hbuf, hunit]

theorem Holds.enqueue (h : Holds cap buf u m0 (q, m) f) (data : Nat) :
    (q.enqueue data m).1 = decide (f.content.length < cap) ∧
      Holds cap buf u m0 (q.enqueue data m).2 (f.push (data % 256 ^ u)) := by
  obtain ⟨rfl, rfl, r, hrep, rfl⟩ := h
  obtain ⟨hbuf, hunit⟩ := enqueue_unit q data m
  refine ⟨?_, hbuf, hunit, _, hrep.enqueue data, Ring.toFifo_push r _⟩
  have hle := r.toFifo.bounded
  rw [enqueue_eq]
  split
  · rename_i hfull
    have hlen := hrep.full_iff_length.1 hfull
    exact (decide_eq_false (by omega)).symm
  · rename_i hfull
    have hlen := mt hrep.full_iff_length.2 hfull
    exact (decide_eq_true (by omega)).symm

theorem Holds.dequeue (h : Holds cap buf u m0 (q, m) f) :
    (q.dequeue m).1 = f.content.headD EMPTY ∧
      Holds cap buf u m0 ((q.dequeue m).2, m) f.pop.2 := by
  obtain ⟨rfl, rfl, r, hrep, rfl⟩ := h
  obtain ⟨hbuf, hunit⟩ := dequeue_unit q m
  obtain ⟨hvalue, hnext⟩ := hrep.dequeue
  obtain ⟨hhead, hpop⟩ := Ring.toFifo_pop r
  refine ⟨?_, hbuf, hunit, _, hnext, hpop⟩
  rw [hvalue, hhead, List.headD_eq_head?_getD]
  rfl

theorem Holds.isEmpty (h : Holds cap buf u m0 (q, m) f) :
    q.isEmpty = decide (f.content = []) := by
  obtain ⟨-, -, r, hrep, rfl⟩ := h
  exact decide_eq_decide.2 hrep.empty_iff_nil

theorem Holds.isFull (h : Holds cap buf u m0 (q, m) f) :
    q.isFull = decide (f.content.length = cap) := by
  obtain ⟨-, -, r, hrep, rfl⟩ := h
  exact decide_eq_decide.2 hrep.full_iff_length

theorem simulates_fifo (cap buf u : Nat) (m0 : Mem) :
    Simulation step (fifoStep u) id id (Holds cap buf u m0) where
  answer := by
    rintro ⟨q, m⟩ f h o
    cases o with
    | enqueue data => exact congrArg Answer.ok (h.enqueue data).1
    | dequeue => exact congrArg Answer.value h.dequeue.1
    | isEmpty => exact congrArg Answer.ok h.isEmpty
    | isFull => exact congrArg Answer.ok h.isFull
  keep := by
    rintro ⟨q, m⟩ f h o
    cases o with
    | enqueue data => exact (h.enqueue data).2
    | dequeue => exact h.dequeue.2
    | isEmpty => exact h
    | isFull => exact h

/-- A new queue is empty, whatever its buffer holds. -/
theorem holds_new {unitSize max : Nat} {q : Queue} (h : new buf unitSize max = some q) (m : Mem) :
    Holds max buf unitSize m (q, m) Fifo.empty := by
  unfold new at h
  split at h
  · cases h
  split at h
  · obtain rfl := Option.some.inj h
    refine ⟨rfl, rfl, ⟨fun i => m.load unitSize (buf + i.val * unitSize), 0, 0⟩,
      ⟨rfl, rfl, rfl, fun _ => rfl, fun _ _ => rfl⟩, Fifo.ext ?_⟩
    exact (Ring.toList_eq_nil _).2 rfl
  · cases h

/-- A new queue answers every run of operations as a bounded queue of `max` units does, and
leaves the memory around its buffer alone. -/
theorem refines_fifo {unitSize max : Nat} {q : Queue} (h : new buf unitSize max = some q) (m : Mem)
    (os : List Op) :
    answers step (q, m) os = answers (fifoStep unitSize) (Fifo.empty : Fifo Nat max) os ∧
      ∀ x, ¬ (buf ≤ x ∧ x < buf + (max + 1) * unitSize) → (final step (q, m) os).2 x = m x := by
  obtain ⟨hans, hfin⟩ := (simulates_fifo max buf unitSize m).run (holds_new h m) os
  rw [List.map_id, List.map_id] at hans
  exact ⟨hans, fun x hx => hfin.frame hx⟩

/-- A queue of three bytes that is filled over. -/
theorem refines_fifo_sample :
    answers step (⟨0x16b00, 1, 4, 0, 0⟩, fun _ => 0xFF)
        [.enqueue 65, .enqueue 0x142, .enqueue 67, .enqueue 68, .dequeue, .isFull, .dequeue] =
      [.ok true, .ok true, .ok true, .ok false, .value 65, .ok false, .value 0x42] := by
  have h : new 0x16b00 1 3 = some ⟨0x16b00, 1, 4, 0, 0⟩ := rfl
  rw [(refines_fifo h _ _).1]
  decide

end Runs

end Queue

end MiniKvm.Hleos
