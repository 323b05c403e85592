import MiniKvm.Core.Fifo
import MiniKvm.Vmm.Devices

/-!
# The keyboard buffer in C

`keyboard_buffer_t` with the types the source gives it: an array of `char`,
which is signed, and two `int` indices that wrap with `%`
(kvm-vmm-x86/src/main.c:60-73, 332-364). Every function holds the lock of the
buffer from its first access to its last, so a run is the calls of all threads
in the order in which they take the lock.

`keyboard_refines_fifo`: in every run the buffer answers as a queue of at most
255 bytes. `Rep` relates it to the ring that the devices use.
-/
namespace MiniKvm.Vmm

/-! ## The source -/

structure KeyboardBufferT where
  /-- The array, with the index an `int`. -/
  buffer : Int → Int8 := fun _ => 0
  head : Int := 0
  tail : Int := 0

namespace KeyboardBufferT

/-- mirrors kvm-vmm-x86/src/main.c:332-342 -/
def push (k : KeyboardBufferT) (ch : Int8) : KeyboardBufferT :=
  let nextHead := (k.head + 1).tmod KEYBOARD_BUFFER_SIZE
  if nextHead ≠ k.tail then
    { k with buffer := Function.update k.buffer k.head ch, head := nextHead }
  else k

/-- mirrors kvm-vmm-x86/src/main.c:344-356 -/
def pop (k : KeyboardBufferT) : Int × KeyboardBufferT :=
  if k.head = k.tail then (-1, k)
  else
    let ch := k.buffer k.tail
    (ch.toUInt8.toNat, { k with tail := (k.tail + 1).tmod KEYBOARD_BUFFER_SIZE })

/-- mirrors kvm-vmm-x86/src/main.c:358-364 -/
def hasData (k : KeyboardBufferT) : Bool := decide (k.head ≠ k.tail)

end KeyboardBufferT

/-- What a call returns in C. -/
inductive CValue where
  | void
  | int (v : Int)
  | bool (b : Bool)
  deriving DecidableEq, Repr

def KeyboardBufferT.step (k : KeyboardBufferT) : QueueOp Int8 → CValue × KeyboardBufferT
  | .push ch => (.void, k.push ch)
  | .pop => (.int k.pop.1, k.pop.2)
  | .hasData => (.bool k.hasData, k)

/-! ## What it stands for -/

namespace KeyboardBufferT

/-- Both indices lie in the array. -/
structure InRange (k : KeyboardBufferT) : Prop where
  head : 0 ≤ k.head ∧ k.head < KEYBOARD_BUFFER_SIZE
  tail : 0 ≤ k.tail ∧ k.tail < KEYBOARD_BUFFER_SIZE

/-- The bytes from `tail` on, up to `head`, oldest first. -/
def content (k : KeyboardBufferT) : List UInt8 :=
  (List.range ((k.head - k.tail) % KEYBOARD_BUFFER_SIZE).toNat).map fun i : Nat =>
    (k.buffer ((k.tail + i) % KEYBOARD_BUFFER_SIZE)).toUInt8

end KeyboardBufferT

/-- The C buffer holds the cells and the indices of a ring. -/
structure Rep (k : KeyboardBufferT) (r : KeyboardBuffer) : Prop where
  buffer : ∀ i : Fin KEYBOARD_BUFFER_SIZE, (k.buffer i.val).toUInt8 = r.buffer i
  head : k.head = r.head.val
  tail : k.tail = r.tail.val

/-- `%` of an index in range is the next cell of the ring. -/
theorem tmod_next (i : Fin KEYBOARD_BUFFER_SIZE) :
    ((i.val : Int) + 1).tmod KEYBOARD_BUFFER_SIZE = (Ring.next i).val := by
  rw [Int.tmod_eq_emod_of_nonneg (by omega)]
  rfl

namespace Rep

variable {k : KeyboardBufferT} {r : KeyboardBuffer}

theorem initial : Rep {} ⟨fun _ => 0, 0, 0⟩ := ⟨fun _ => rfl, rfl, rfl⟩

theorem inRange (h : Rep k r) : k.InRange := by
  have hh := r.head.isLt
  have ht := r.tail.isLt
  have h1 := h.head
  have h2 := h.tail
  constructor <;> omega

/-- The bytes between the indices are the unread entries. -/
theorem content (h : Rep k r) : k.content = r.toList := by
  have hh := r.head.isLt
  have ht := r.tail.isLt
  have hc : ((k.head - k.tail) % KEYBOARD_BUFFER_SIZE).toNat = r.count := by
    have hs : KEYBOARD_BUFFER_SIZE = 256 := rfl
    show ((k.head - k.tail) % 256).toNat = _
    rw [h.head, h.tail]
    unfold Ring.count
    split <;> omega
  unfold KeyboardBufferT.content Ring.toList
  rw [hc]
  refine List.map_congr_left fun i _ => ?_
  rw [h.tail, ← h.buffer]
  rfl

theorem push (h : Rep k r) (ch : Int8) : Rep (k.push ch) (r.push ch.toUInt8) := by
  have hnext : (k.head + 1).tmod KEYBOARD_BUFFER_SIZE = (Ring.next r.head).val := by
    rw [h.head, tmod_next]
  have hfull : (k.head + 1).tmod KEYBOARD_BUFFER_SIZE = k.tail ↔ Ring.next r.head = r.tail := by
    rw [hnext, h.tail, Int.natCast_inj, Fin.ext_iff]
  unfold KeyboardBufferT.push Ring.push
  by_cases hf : Ring.next r.head = r.tail
  · rw [if_neg (not_not.2 (hfull.2 hf)), if_pos hf]
    exact h
  · rw [if_pos (mt hfull.1 hf), if_neg hf]
    refine ⟨fun i => ?_, hnext, h.tail⟩
    show (Function.update k.buffer k.head ch i.val).toUInt8 =
      Function.update r.buffer r.head ch.toUInt8 i
    by_cases hi : i = r.head
    · rw [hi, h.head, Function.update_self, Function.update_self]
    · have hne : (i.val : Int) ≠ k.head := by
        rw [h.head, Ne, Int.natCast_inj, ← Fin.ext_iff]
        exact hi
      rw [Function.update_of_ne hne, Function.update_of_ne hi, h.buffer]

theorem push_full (h : Rep k r) (hf : k.content.length = 255) (ch : Int8) : k.push ch = k := by
  rw [h.content, Ring.toList_length] at hf
  refine if_neg (not_not.2 ?_)
  rw [h.head, tmod_next, h.tail, Int.natCast_inj, ← Fin.ext_iff, Ring.next_head_eq_tail, hf]

theorem empty_iff (h : Rep k r) : k.head = k.tail ↔ r.head = r.tail := by
  rw [h.head, h.tail, Fin.ext_iff, Int.natCast_inj]

/-- -1 when there is no byte, and the byte as an `unsigned char` when there is one. -/
def popValue : Option UInt8 → Int
  | none => -1
  | some ch => ch.toNat

theorem pop (h : Rep k r) : k.pop.1 = popValue r.pop.1 ∧ Rep k.pop.2 r.pop.2 := by
  unfold KeyboardBufferT.pop Ring.pop
  by_cases he : r.head = r.tail
  · rw [if_pos (h.empty_iff.2 he), if_pos he]
    exact ⟨rfl, h⟩
  · rw [if_neg fun hk => he (h.empty_iff.1 hk), if_neg he]
    refine ⟨?_, h.buffer, h.head, ?_⟩
    · show ((k.buffer k.tail).toUInt8.toNat : Int) = (r.buffer r.tail).toNat
      rw [h.tail, h.buffer]
    · show (k.tail + 1).tmod KEYBOARD_BUFFER_SIZE = _
      rw [h.tail, tmod_next]

theorem pop_content (h : Rep k r) : k.pop.1 = popValue k.content.head? ∧
    k.pop.2.content = k.content.tail := by
  obtain ⟨h1, h2⟩ := h.pop
  obtain ⟨s1, s2⟩ := Ring.pop_spec r
  rw [h1, h2.content, h.content, s1, s2]
  exact ⟨rfl, rfl⟩

theorem hasData (h : Rep k r) : k.hasData = r.hasData := by
  unfold KeyboardBufferT.hasData Ring.hasData
  rw [decide_eq_decide, Ne, h.empty_iff]

end Rep

/-! ## The queue -/

/-- A call, with its argument as a byte. -/
def queueOp : QueueOp Int8 → QueueOp UInt8
  | .push ch => .push ch.toUInt8
  | .pop => .pop
  | .hasData => .hasData

/-- What a queue's answer is in C. -/
def cValue : QueueAnswer UInt8 → CValue
  | .pushed => .void
  | .popped ch => .int (Rep.popValue ch)
  | .has b => .bool b

theorem keyboard_simulates_ring :
    Simulation KeyboardBufferT.step (fun (r : KeyboardBuffer) o => r.step o) queueOp cValue
      Rep where
  answer := by
    intro k r h o
    cases o with
    | push ch => rfl
    | pop => exact congrArg CValue.int h.pop.1
    | hasData => exact congrArg CValue.bool h.hasData
  keep := by
    intro k r h o
    cases o with
    | push ch => exact h.push ch
    | pop => exact h.pop.2
    | hasData => exact h

theorem initial_toFifo : (⟨fun _ => 0, 0, 0⟩ : KeyboardBuffer).toFifo = Fifo.empty := rfl

theorem keyboard_simulates_fifo :
    Simulation KeyboardBufferT.step (fun (q : Fifo UInt8 255) o => q.step o) queueOp cValue
      fun k q => ∃ r : KeyboardBuffer, Rep k r ∧ r.toFifo = q :=
  keyboard_simulates_ring.comp Ring.simulates_fifo

/-- After every sequence of calls from the empty buffer: the indices lie in the
array; the bytes between them are those of a queue of at most 255 entries that
gets the same calls, and every call so far returned what the queue answered. A
push appends its byte when fewer than 255 are unread and changes nothing
otherwise; a pop returns -1 exactly when nothing is unread, and otherwise takes
the oldest byte and returns it as a value from 0 to 255; has_data tells whether
a byte is unread. -/
theorem keyboard_refines_fifo (os : List (QueueOp Int8)) :
    let k := final KeyboardBufferT.step {} os
    let q : Fifo UInt8 255 := final Fifo.step Fifo.empty (os.map queueOp)
    k.InRange ∧ k.content = q.content ∧ k.content.length ≤ 255 ∧
      answers KeyboardBufferT.step {} os =
        (answers Fifo.step (Fifo.empty : Fifo UInt8 255) (os.map queueOp)).map cValue ∧
      (∀ ch, k.content.length < 255 → (k.push ch).content = k.content ++ [ch.toUInt8]) ∧
      (∀ ch, k.content.length = 255 → k.push ch = k) ∧
      (k.pop.1 = -1 ↔ k.content = []) ∧
      (k.content = [] → k.pop.2 = k) ∧
      (∀ b bs, k.content = b :: bs → k.pop.1 = b.toNat ∧ k.pop.2.content = bs) ∧
      (k.hasData = true ↔ k.content ≠ []) := by
  intro k q
  obtain ⟨hans, r, hrep, hfifo⟩ := keyboard_simulates_fifo.run ⟨_, Rep.initial, initial_toFifo⟩ os
  have hc : k.content = r.toList := hrep.content
  have hq : r.toList = q.content := congrArg Fifo.content hfifo
  have hlen : k.content.length ≤ 255 := by
    rw [hc, hq]
    exact q.bounded
  obtain ⟨hpop, hrest⟩ := hrep.pop_content
  refine ⟨hrep.inRange, hc.trans hq, hlen, hans, fun ch hlt => ?_,
    fun ch hf => hrep.push_full hf ch, ?_, fun he => ?_, fun b bs hb => ?_, ?_⟩
  · rw [(hrep.push ch).content, Ring.toList_push, ← hc, if_pos (Nat.succ_lt_succ hlt)]
  · show k.pop.1 = -1 ↔ _
    rw [show k.pop.1 = Rep.popValue k.content.head? from hpop]
    cases k.content with
    | nil => exact ⟨fun _ => rfl, fun _ => rfl⟩
    | cons b bs =>
      refine ⟨fun hb => ?_, fun hn => by cases hn⟩
      have hb : (b.toNat : Int) = -1 := hb
      omega
  · refine congrArg Prod.snd (if_pos (hrep.empty_iff.2 ((Ring.toList_eq_nil r).1 ?_)))
    rw [← hc, he]
  · rw [show k.pop.1 = Rep.popValue k.content.head? from hpop,
      show k.pop.2.content = k.content.tail from hrest, hb]
    exact ⟨rfl, rfl⟩
  · rw [show k.hasData = r.hasData from hrep.hasData, Ring.hasData_iff, hc]

end MiniKvm.Vmm
