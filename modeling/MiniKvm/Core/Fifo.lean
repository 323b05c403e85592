import MiniKvm.Core.Answers
import MiniKvm.Core.Ring

/-!
# Bounded queues

A queue of at most `cap` entries: a push appends, or does nothing when `cap`
entries are in the queue; a pop takes the oldest. A ring of `cap + 1` cells
behaves as such a queue in every run (`Ring.simulates_fifo`).
-/
namespace MiniKvm

structure Fifo (α : Type) (cap : Nat) where
  content : List α
  bounded : content.length ≤ cap

inductive QueueOp (α : Type) where
  | push (x : α)
  | pop
  | hasData

inductive QueueAnswer (α : Type) where
  | pushed
  | popped (x : Option α)
  | has (b : Bool)

variable {α : Type} {cap : Nat}

namespace Fifo

@[ext] theorem ext {q q' : Fifo α cap} (h : q.content = q'.content) : q = q' := by
  cases q
  cases q'
  cases h
  rfl

def empty : Fifo α cap := ⟨[], Nat.zero_le _⟩

def push (q : Fifo α cap) (x : α) : Fifo α cap :=
  if h : q.content.length < cap then
    ⟨q.content ++ [x], by rw [List.length_append, List.length_singleton]; exact h⟩
  else q

def pop (q : Fifo α cap) : Option α × Fifo α cap :=
  (q.content.head?, ⟨q.content.tail, by
    rw [List.length_tail]
    exact Nat.le_trans (Nat.sub_le _ _) q.bounded⟩)

def step (q : Fifo α cap) : QueueOp α → QueueAnswer α × Fifo α cap
  | .push x => (.pushed, q.push x)
  | .pop => (.popped q.pop.1, q.pop.2)
  | .hasData => (.has (!q.content.isEmpty), q)

@[simp] theorem content_push (q : Fifo α cap) (x : α) :
    (q.push x).content = if q.content.length < cap then q.content ++ [x] else q.content := by
  unfold push
  split <;> rfl

theorem push_full {q : Fifo α cap} (h : q.content.length = cap) (x : α) : q.push x = q :=
  dif_neg (by omega)

end Fifo

namespace Ring

def step {n : Nat} (r : Ring α n) : QueueOp α → QueueAnswer α × Ring α n
  | .push x => (.pushed, r.push x)
  | .pop => (.popped r.pop.1, r.pop.2)
  | .hasData => (.has r.hasData, r)

/-- The unread entries, as a queue. -/
def toFifo (r : Ring α (cap + 1)) : Fifo α cap :=
  ⟨r.toList, by rw [toList_length]; exact Nat.le_of_lt_succ r.count_lt⟩

theorem toFifo_push (r : Ring α (cap + 1)) (x : α) : (r.push x).toFifo = r.toFifo.push x := by
  apply Fifo.ext
  show (r.push x).toList = _
  rw [toList_push, Fifo.content_push]
  simp only [Nat.add_lt_add_iff_right]
  rfl

theorem toFifo_pop (r : Ring α (cap + 1)) :
    r.pop.1 = r.toFifo.pop.1 ∧ r.pop.2.toFifo = r.toFifo.pop.2 :=
  ⟨(pop_spec r).1, Fifo.ext (pop_spec r).2⟩

theorem hasData_eq (r : Ring α (cap + 1)) : r.hasData = !r.toFifo.content.isEmpty := by
  rw [Bool.eq_iff_iff, hasData_iff, Bool.not_eq_true', List.isEmpty_eq_false_iff]
  rfl

/-- A ring of `cap + 1` cells is a queue of `cap` entries. -/
theorem simulates_fifo :
    Simulation (fun (r : Ring α (cap + 1)) o => r.step o) (fun (q : Fifo α cap) o => q.step o) id id
      fun r q => r.toFifo = q where
  answer := by
    rintro r q rfl o
    cases o with
    | push x => rfl
    | pop => exact congrArg _ (toFifo_pop r).1
    | hasData => exact congrArg _ (hasData_eq r)
  keep := by
    rintro r q rfl o
    cases o with
    | push x => exact toFifo_push r x
    | pop => exact (toFifo_pop r).2
    | hasData => rfl

end Ring

end MiniKvm
