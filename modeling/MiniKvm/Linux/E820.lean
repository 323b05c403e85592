import MiniKvm.Linux.ZeroPage

/-!
# Appends to the memory map

`add_e820_entry` (kvm-vmm-x86/src/linux_boot.c:27-46) called over and over, for
lists of any length. The count is one byte, the array has room for 128 records
of 20 bytes, and behind it the page goes on: a call on a full table is a
warning and nothing else.
-/
namespace MiniKvm.Linux

open Vmm

/-- The arguments of one call. -/
structure E820Args where
  addr : UInt64
  size : UInt64
  type : UInt32
  deriving DecidableEq, Repr

/-- The record they make. -/
def E820Args.entry (t : E820Args) : E820Entry := ⟨t.addr.toNat, t.size.toNat, t.type.toNat⟩

/-- The calls, in order. -/
def addE820Entries (bp : Nat) (m : Mem) (ts : List E820Args) : Mem :=
  ts.foldl (fun m t => addE820Entry m bp t.addr.toNat t.size.toNat t.type.toNat) m

@[simp] theorem addE820Entries_nil (bp : Nat) (m : Mem) : addE820Entries bp m [] = m := rfl

@[simp] theorem addE820Entries_cons (bp : Nat) (m : Mem) (t : E820Args) (ts : List E820Args) :
    addE820Entries bp m (t :: ts) =
      addE820Entries bp (addE820Entry m bp t.addr.toNat t.size.toNat t.type.toNat) ts := rfl

theorem addE820Entries_append (bp : Nat) (m : Mem) (ts us : List E820Args) :
    addE820Entries bp m (ts ++ us) = addE820Entries bp (addE820Entries bp m ts) us :=
  List.foldl_append

/-! ## A full table -/

theorem addE820Entry_full {bp : Nat} {m : Mem} (h : 128 ≤ (m (bp + E820_ENTRIES_OFF)).toNat)
    (addr size type : Nat) : addE820Entry m bp addr size type = m := if_pos h

theorem addE820Entries_full {bp : Nat} {m : Mem} (h : 128 ≤ (m (bp + E820_ENTRIES_OFF)).toNat)
    (ts : List E820Args) : addE820Entries bp m ts = m := by
  induction ts with
  | nil => rfl
  | cons t ts ih => rw [addE820Entries_cons, addE820Entry_full h, ih]

/-! ## Any table -/

theorem take_take_append {α : Type} (n : Nat) (l r : List α) :
    (l.take n ++ r).take n = (l ++ r).take n := by
  rcases Nat.le_total l.length n with h | h
  · rw [List.take_of_length_le h]
  · rw [List.take_append_of_le_length (by rw [List.length_take]; omega), List.take_take,
      Nat.min_self, List.take_append_of_le_length h]

theorem E820Built.count {bp : Nat} {m m' : Mem} {rs : List E820Entry} (h : E820Built bp m m' rs) :
    (m' (bp + E820_ENTRIES_OFF)).toNat = rs.length := by
  rw [← h.map, e820Map_length]

/-- A call appends its record, or finds the table full. -/
theorem E820Built.call {bp : Nat} {m m' : Mem} {rs : List E820Entry} (h : E820Built bp m m' rs)
    (hle : rs.length ≤ 128) (t : E820Args) :
    E820Built bp m (addE820Entry m' bp t.addr.toNat t.size.toNat t.type.toNat)
      ((rs ++ [t.entry]).take 128) := by
  rcases Nat.lt_or_eq_of_le hle with hroom | hfull
  · rw [List.take_of_length_le (by
      rw [List.length_append, List.length_singleton]
      omega)]
    exact h.add hroom _ _ _ t.addr.toNat_lt t.size.toNat_lt t.type.toNat_lt
  · rw [addE820Entry_full (by rw [h.count]; omega), List.take_append_of_le_length (by omega),
      List.take_of_length_le hle]
    exact h

/-- All the calls; what lies past the 128 records is dropped. -/
theorem E820Built.calls {bp : Nat} {m : Mem} (ts : List E820Args) :
    ∀ {m' : Mem} {rs : List E820Entry}, E820Built bp m m' rs → rs.length ≤ 128 →
      E820Built bp m (addE820Entries bp m' ts) ((rs ++ ts.map E820Args.entry).take 128) := by
  induction ts with
  | nil =>
    intro m' rs h hle
    rw [List.map_nil, List.append_nil, List.take_of_length_le hle]
    exact h
  | cons t ts ih =>
    intro m' rs h hle
    have hrest := ih (h.call hle t) (by rw [List.length_take]; omega)
    rwa [take_take_append, List.append_assoc] at hrest

/-- What the calls `ts` leave of the page at `bp`. -/
structure LosslessAppends (bp : Nat) (m : Mem) (ts : List E820Args) : Prop where
  count : (addE820Entries bp m ts (bp + E820_ENTRIES_OFF)).toNat = min ts.length 128
  decoded : e820Map (addE820Entries bp m ts) bp = (ts.take (min ts.length 128)).map E820Args.entry
  full : 128 ≤ ts.length → ∀ us, addE820Entries bp m (ts ++ us) = addE820Entries bp m ts
  kept : ∀ x, x ≠ bp + E820_ENTRIES_OFF →
    ¬ (bp + E820_MAP_OFF ≤ x ∧ x < bp + E820_MAP_OFF + 20 * min ts.length 128) →
    addE820Entries bp m ts x = m x
  header : ∀ x, HDR_OFF ≤ x → x < HDR_OFF + HDR_SIZE →
    addE820Entries bp m ts (bp + x) = m (bp + x)
  padding : ∀ x, E820_MAP_OFF + 20 * 128 ≤ x → addE820Entries bp m ts (bp + x) = m (bp + x)

/-- The table read back is the first 128 of the calls in their order, for every
list and every page that starts with no entries. -/
theorem e820_appends_lossless (bp : Nat) (m : Mem) (h : m (bp + E820_ENTRIES_OFF) = 0)
    (ts : List E820Args) : LosslessAppends bp m ts := by
  have hent : E820_ENTRIES_OFF < HDR_OFF := by decide
  have hdr : HDR_OFF + HDR_SIZE ≤ E820_MAP_OFF := by decide
  have hempty : E820Built bp m m [] := by
    refine ⟨?_, fun _ _ _ => rfl⟩
    rw [e820Map, h]
    rfl
  have hb := E820Built.calls ts hempty (Nat.zero_le _)
  rw [List.nil_append] at hb
  have hlen : ((ts.map E820Args.entry).take 128).length = min ts.length 128 := by
    rw [List.length_take, List.length_map, Nat.min_comm]
  have hcount : (addE820Entries bp m ts (bp + E820_ENTRIES_OFF)).toNat = min ts.length 128 := by
    rw [hb.count, hlen]
  have hkept : ∀ x, x ≠ bp + E820_ENTRIES_OFF →
      ¬ (bp + E820_MAP_OFF ≤ x ∧ x < bp + E820_MAP_OFF + 20 * min ts.length 128) →
      addE820Entries bp m ts x = m x := by
    intro x hne hx
    exact hb.out x hne (by rw [hlen]; omega)
  constructor
  · exact hcount
  · rw [hb.map, ← List.map_take, Nat.min_comm, ← List.take_take, List.take_length]
  · intro hfull us
    rw [addE820Entries_append, addE820Entries_full (by rw [hcount]; omega)]
  · exact hkept
  · intro x h1 h2
    exact hkept _ (by omega) (by omega)
  · intro x hx
    exact hkept _ (by omega) (by omega)

theorem e820_appends_lossless_past_capacity :
    LosslessAppends LINUX_BOOT_PARAMS_ADDR (fun _ => 0)
      (List.replicate 130 ⟨0x100000, 0x1000, 1⟩) :=
  e820_appends_lossless LINUX_BOOT_PARAMS_ADDR (fun _ => 0) rfl _

end MiniKvm.Linux
