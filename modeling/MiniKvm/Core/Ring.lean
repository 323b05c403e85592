import Mathlib.Logic.Function.Basic

/-!
# Ring buffers

A ring of `n` cells with a write index `head` and a read index `tail`. One
cell stays free, so that `head = tail` means empty: the ring holds at most
`n - 1` unread entries, and a push that finds them all in use is dropped.

`toList` is what the ring is for, the queue of unread entries, oldest first;
`toList_push` and `toList_pop` say that the operations are those of a queue
bounded by `n - 1`.
-/
namespace MiniKvm

structure Ring (α : Type) (n : Nat) where
  buffer : Fin n → α
  /-- The cell the next push fills. -/
  head : Fin n
  /-- The oldest unread cell. -/
  tail : Fin n

namespace Ring

variable {α : Type} {n : Nat}

def next (i : Fin n) : Fin n := ⟨(i.val + 1) % n, Nat.mod_lt _ (Nat.zero_lt_of_lt i.isLt)⟩

def push (r : Ring α n) (x : α) : Ring α n :=
  if next r.head = r.tail then r
  else { r with buffer := Function.update r.buffer r.head x, head := next r.head }

def pop (r : Ring α n) : Option α × Ring α n :=
  if r.head = r.tail then (none, r)
  else (some (r.buffer r.tail), { r with tail := next r.tail })

def hasData (r : Ring α n) : Bool := decide (r.head ≠ r.tail)

/-- The number of unread entries. -/
def count (r : Ring α n) : Nat :=
  if r.tail.val ≤ r.head.val then r.head.val - r.tail.val else r.head.val + n - r.tail.val

/-- The `k`-th cell from `i` on. -/
def cell (i : Fin n) (k : Nat) : Fin n :=
  ⟨(i.val + k) % n, Nat.mod_lt _ (Nat.zero_lt_of_lt i.isLt)⟩

def toList (r : Ring α n) : List α := (List.range r.count).map fun k => r.buffer (cell r.tail k)

/-! ## Indices -/

theorem next_val (i : Fin n) : (next i).val = if i.val + 1 < n then i.val + 1 else 0 := by
  have hi := i.isLt
  unfold next
  split
  · rename_i h
    exact Nat.mod_eq_of_lt h
  · have : i.val + 1 = n := by omega
    simp [this]

theorem cell_val (i : Fin n) {k : Nat} (hk : k ≤ n) :
    (cell i k).val = if i.val + k < n then i.val + k else i.val + k - n := by
  have hi := i.isLt
  unfold cell
  split
  · rename_i h
    exact Nat.mod_eq_of_lt h
  · show (i.val + k) % n = _
    rw [Nat.mod_eq_sub_mod (by omega), Nat.mod_eq_of_lt (by omega)]

theorem count_lt (r : Ring α n) : r.count < n := by
  have hh := r.head.isLt
  have ht := r.tail.isLt
  unfold count
  split <;> omega

theorem count_eq_zero (r : Ring α n) : r.count = 0 ↔ r.head = r.tail := by
  have hh := r.head.isLt
  have ht := r.tail.isLt
  rw [Fin.ext_iff]
  unfold count
  split <;> omega

/-- The ring is full exactly when the next write index meets the read index. -/
theorem next_head_eq_tail (r : Ring α n) : next r.head = r.tail ↔ r.count + 1 = n := by
  have hh := r.head.isLt
  have ht := r.tail.isLt
  rw [Fin.ext_iff, next_val]
  unfold count
  split <;> split <;> omega

theorem cell_count (r : Ring α n) : cell r.tail r.count = r.head := by
  have hh := r.head.isLt
  have ht := r.tail.isLt
  apply Fin.ext
  rw [cell_val _ (Nat.le_of_lt r.count_lt)]
  unfold count
  split <;> split <;> omega

theorem cell_ne_head (r : Ring α n) {k : Nat} (hk : k < r.count) : cell r.tail k ≠ r.head := by
  have hh := r.head.isLt
  have ht := r.tail.isLt
  have hc := r.count_lt
  intro h
  rw [Fin.ext_iff, cell_val _ (by omega)] at h
  unfold count at hk
  split at hk <;> split at h <;> omega

theorem cell_next (i : Fin n) {k : Nat} (hk : k < n) : cell (next i) k = cell i (k + 1) := by
  have hi := i.isLt
  apply Fin.ext
  rw [cell_val _ (by omega), cell_val _ (by omega), next_val]
  split <;> split <;> split <;> omega

/-! ## The queue -/

@[simp] theorem toList_length (r : Ring α n) : r.toList.length = r.count := by simp [toList]

theorem toList_eq_nil (r : Ring α n) : r.toList = [] ↔ r.head = r.tail := by
  rw [← List.length_eq_zero_iff, toList_length, count_eq_zero]

@[simp] theorem hasData_iff (r : Ring α n) : r.hasData = true ↔ r.toList ≠ [] := by
  rw [Ne, toList_eq_nil, hasData, decide_eq_true_eq]

theorem count_push (r : Ring α n) (x : α) (h : r.count + 1 ≠ n) :
    (r.push x).count = r.count + 1 := by
  have hh := r.head.isLt
  have ht := r.tail.isLt
  have hf : next r.head ≠ r.tail := fun he => h ((next_head_eq_tail r).1 he)
  rw [push, if_neg hf]
  unfold count at h ⊢
  simp only [next_val]
  split at h <;> split <;> split <;> omega

theorem push_full (r : Ring α n) (x : α) (h : r.count + 1 = n) : r.push x = r :=
  if_pos ((next_head_eq_tail r).2 h)

theorem toList_push_of_free (r : Ring α n) (x : α) (h : r.count + 1 ≠ n) :
    (r.push x).toList = r.toList ++ [x] := by
  have hf : next r.head ≠ r.tail := fun he => h ((next_head_eq_tail r).1 he)
  have hc := count_push r x h
  unfold toList
  rw [hc, List.range_succ, List.map_append]
  simp only [push, if_neg hf, List.map_cons, List.map_nil, cell_count, Function.update_self]
  congr 1
  apply List.map_congr_left
  intro k hk
  rw [Function.update_of_ne (cell_ne_head r (List.mem_range.1 hk))]

/-- A push appends, unless `n - 1` entries are unread; then it is dropped. -/
theorem toList_push (r : Ring α n) (x : α) :
    (r.push x).toList = if r.toList.length + 1 < n then r.toList ++ [x] else r.toList := by
  have hc := r.count_lt
  rw [toList_length]
  split
  · exact toList_push_of_free r x (by omega)
  · rw [push_full r x (by omega)]

theorem count_pop (r : Ring α n) (h : r.head ≠ r.tail) :
    ({ r with tail := next r.tail } : Ring α n).count + 1 = r.count := by
  have hh := r.head.isLt
  have ht := r.tail.isLt
  rw [Ne, Fin.ext_iff] at h
  unfold count
  simp only [next_val]
  split <;> split <;> split <;> omega

/-- A pop takes the oldest unread entry. -/
theorem pop_spec (r : Ring α n) : r.pop.1 = r.toList.head? ∧ r.pop.2.toList = r.toList.tail := by
  unfold pop
  split
  · rename_i h
    rw [(toList_eq_nil r).2 h]
    simp
  · rename_i h
    have hc := count_pop r h
    have hlt := r.count_lt
    have hl : r.toList
        = r.buffer r.tail :: ({ r with tail := next r.tail } : Ring α n).toList := by
      unfold toList
      rw [← hc, List.range_succ_eq_map, List.map_cons, List.map_map]
      congr 1
      · have : cell r.tail 0 = r.tail := Fin.ext (by rw [cell_val _ (by omega)]; simp)
        rw [this]
      · apply List.map_congr_left
        intro k hk
        have := List.mem_range.1 hk
        simp only [Function.comp_apply, Nat.succ_eq_add_one]
        rw [cell_next _ (by omega)]
    rw [hl]
    simp

end Ring

end MiniKvm
