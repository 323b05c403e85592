import MiniKvm.Core.Radix
import MiniKvm.Riscv.Allocator

/-!
# The guest page table

`guest_page_table.rs` of the RISC-V hypervisor: four levels of tables of 512
entries, made as they are needed. An address below 2^48 has an index of nine
bits at each level (`trail`), so the tables are a radix tree of depth four, and
an entry is a word of it (`sv48`).

`translate` is the walk of the processor, on numbers: bit 0 is V, the page
number starts at bit 10.
-/
namespace MiniKvm.Riscv

/-! ## The source -/

def PTE_R : UInt64 := (1 : UInt64) <<< 1
def PTE_W : UInt64 := (1 : UInt64) <<< 2
def PTE_X : UInt64 := (1 : UInt64) <<< 3
def PTE_V : UInt64 := (1 : UInt64) <<< 0
def PTE_U : UInt64 := (1 : UInt64) <<< 4
def PPN_SHIFT : UInt64 := 12
def PTE_PPN_SHIFT : UInt64 := 10

abbrev Entry := UInt64

namespace Entry

/-- mirrors experimental/hypervisor/src/guest_page_table.rs:17-20 -/
def new (paddr flags : UInt64) : Entry :=
  let ppn := paddr >>> PPN_SHIFT
  ppn <<< PTE_PPN_SHIFT ||| flags

/-- mirrors experimental/hypervisor/src/guest_page_table.rs:22-24 -/
def isValid (e : Entry) : Bool := e &&& PTE_V != 0

/-- mirrors experimental/hypervisor/src/guest_page_table.rs:26-28 -/
def paddr (e : Entry) : UInt64 := (e >>> PTE_PPN_SHIFT) <<< PPN_SHIFT

end Entry

namespace Table

/-- mirrors experimental/hypervisor/src/guest_page_table.rs:35-37 -/
def alloc (s : Machine) : Option (Nat × Machine) := allocPages s (8 * 512)

/-- mirrors experimental/hypervisor/src/guest_page_table.rs:40 -/
def index (guestPaddr : UInt64) (level : Nat) : Fin 512 :=
  Fin.ofNat 512 ((guestPaddr >>> UInt64.ofNat (12 + 9 * level)) &&& 0x1ff).toNat

/-- `*table.entry_by_addr(..)`. -/
def entry (m : Mem) (table : Nat) (i : Fin 512) : Entry := UInt64.ofNat (m.load 8 (table + 8 * i))

/-- `*table.entry_by_addr(..) = e`. -/
def setEntry (m : Mem) (table : Nat) (i : Fin 512) (e : Entry) : Mem :=
  m.store 8 (table + 8 * i) e.toNat

end Table

namespace GuestPageTable

/-- The root table.
mirrors experimental/hypervisor/src/guest_page_table.rs:50-54 -/
def new (s : Machine) : Option (Nat × Machine) := Table.alloc s

/-- `if !entry.is_valid() { .. }`.
mirrors experimental/hypervisor/src/guest_page_table.rs:64-67 -/
def ensureTable (s : Machine) (table : Nat) (i : Fin 512) : Option Machine :=
  if Entry.isValid (Table.entry s.mem table i) then some s
  else
    (Table.alloc s).map fun r =>
      { r.2 with
        mem := Table.setEntry r.2.mem table i (Entry.new (UInt64.ofNat r.1) PTE_V) }

/-- A turn of the loop, and the table it goes to.
mirrors experimental/hypervisor/src/guest_page_table.rs:62-70 -/
def nextTable (s : Machine) (table : Nat) (i : Fin 512) : Option (Machine × Nat) :=
  (ensureTable s table i).map fun s => (s, (Entry.paddr (Table.entry s.mem table i)).toNat)

/-- `for level in (1..=3).rev() { .. }`. -/
def descend (guestPaddr : UInt64) : List Nat → Machine → Nat → Option (Machine × Nat)
  | [], s, table => some (s, table)
  | level :: levels, s, table =>
    (nextTable s table (Table.index guestPaddr level)).bind fun r =>
      descend guestPaddr levels r.1 r.2

/-- mirrors experimental/hypervisor/src/guest_page_table.rs:60-75 -/
def map (root : Nat) (s : Machine) (guestPaddr hostPaddr flags : UInt64) : Option Machine := do
  let (s, table) ← descend guestPaddr [3, 2, 1] s root
  let i := Table.index guestPaddr 0
  -- "already mapped"
  if Entry.isValid (Table.entry s.mem table i) then none
  else
    some { s with
      mem := Table.setEntry s.mem table i (Entry.new hostPaddr (flags ||| PTE_V ||| PTE_U)) }

end GuestPageTable

/-! ## What is wanted of it -/

/-- The arguments of `map`: 4 KiB-aligned addresses of the guest and the host. -/
structure MapCall where
  guestPaddr : UInt64
  hostPaddr : UInt64
  flags : UInt64
  guest_aligned : guestPaddr.toNat % 4096 = 0
  guest_lt : guestPaddr.toNat < 2 ^ 48
  host_aligned : hostPaddr.toNat % 4096 = 0
  host_lt : hostPaddr.toNat < 2 ^ 56

def mapCalls (root : Nat) (s : Machine) (calls : List MapCall) : Option Machine :=
  calls.foldlM (fun s c => GuestPageTable.map root s c.guestPaddr c.hostPaddr c.flags) s

/-- A table in the heap `[start, heapEnd)`, and the calls on it. -/
def mapAll (m : Mem) (start heapEnd : UInt64) (calls : List MapCall) : Option (Nat × Machine) := do
  let (root, s) ← GuestPageTable.new ⟨m, start.toNat, heapEnd.toNat⟩
  let s ← mapCalls root s calls
  some (root, s)

/-- The nine bits that choose an entry of level `level`. -/
def vpn (x level : Nat) : Nat := x / 2 ^ (12 + 9 * level) % 512

/-- The entry that a walk over the levels ends at. -/
def walk (m : Mem) (x : Nat) : List Nat → Nat → Option Nat
  | [], _ => none
  | [level], table =>
    let pte := m.load 8 (table + 8 * vpn x level)
    if pte % 2 = 1 then some pte else none
  | level :: levels, table =>
    let pte := m.load 8 (table + 8 * vpn x level)
    if pte % 2 = 1 then walk m x levels (pte / 2 ^ 10 * 2 ^ 12) else none

/-- The page of the host and the flags for a guest address. -/
def translate (m : Mem) (root x : Nat) : Option (Nat × Nat) :=
  (walk m x [3, 2, 1, 0] root).map fun pte => (pte / 2 ^ 10 * 2 ^ 12, pte % 2 ^ 10)

/-- Entry `i` of the table at `a`. -/
def slots (m : Mem) (a : Nat) (i : Fin 512) : Nat := m.load 8 (a + 8 * i)

/-- The table that the indices lead to, from the root on. -/
def tableAt (m : Mem) (a : Nat) : List (Fin 512) → Option Nat
  | [] => some a
  | i :: is => if slots m a i % 2 = 1 then tableAt m (slots m a i / 2 ^ 10 * 2 ^ 12) is else none

/-- The tables at `root` map what the calls asked for, in pages of their own. -/
structure MapsExactly (m : Mem) (start heapEnd : UInt64) (calls : List MapCall) (root : Nat)
    (s : Machine) : Prop where
  mapped : ∀ c ∈ calls, ∀ x, x / 4096 = c.guestPaddr.toNat / 4096 →
    translate s.mem root x =
      some (c.hostPaddr.toNat, (c.flags ||| PTE_V ||| PTE_U).toNat)
  unmapped : ∀ x < 2 ^ 48, (∀ c ∈ calls, x / 4096 ≠ c.guestPaddr.toNat / 4096) →
    translate s.mem root x = none
  kept : ∀ earlier later, calls = earlier ++ later →
    ∃ t, mapAll m start heapEnd earlier = some (root, t) ∧
      ∀ x < 2 ^ 48, ∀ y, translate t.mem root x = some y → translate s.mem root x = some y
  pages : ∀ p a, p.length < 4 → tableAt s.mem root p = some a →
    a % 4096 = 0 ∧ start.toNat ≤ a ∧ a + 4096 ≤ s.next ∧ s.next ≤ heapEnd.toNat
  apart : ∀ p q a b, p.length < 4 → q.length < 4 → p ≠ q → tableAt s.mem root p = some a →
    tableAt s.mem root q = some b → a + 4096 ≤ b ∨ b + 4096 ≤ a
  zeroed : ∀ p a i, p.length < 4 → tableAt s.mem root p = some a → slots s.mem a i % 2 ≠ 1 →
    slots s.mem a i = 0
  allocated : ∀ t ptr t', start.toNat ≤ t.next → Table.alloc t = some (ptr, t') →
    AllocatesPages t 4096 ptr t'

/-! ## Entries -/

theorem Entry.new_toNat (paddr : UInt64) {flags : UInt64} (h : flags.toNat < 1024) :
    (Entry.new paddr flags).toNat = paddr.toNat / 4096 * 1024 + flags.toNat := by
  have hlt := paddr.toNat_lt
  have hppn : (paddr >>> PPN_SHIFT <<< PTE_PPN_SHIFT).toNat = 2 ^ 10 * (paddr.toNat / 4096) := by
    rw [UInt64.toNat_shiftLeft, UInt64.toNat_shiftRight]
    simp only [PPN_SHIFT, PTE_PPN_SHIFT, UInt64.reduceToNat, Nat.reduceMod, Nat.shiftLeft_eq,
      Nat.shiftRight_eq_div_pow, Nat.reducePow]
    omega
  have hor := Nat.two_pow_add_eq_or_of_lt (i := 10) h (paddr.toNat / 4096)
  rw [Entry.new, UInt64.toNat_or, hppn, ← hor, Nat.mul_comm]

theorem Entry.isValid_eq (e : Entry) : Entry.isValid e = (e.toNat % 2 == 1) := by
  have hand : (e &&& PTE_V).toNat = e.toNat % 2 := by
    rw [UInt64.toNat_and]
    exact Nat.and_two_pow_sub_one_eq_mod e.toNat 1
  rw [Entry.isValid, Bool.eq_iff_iff, bne_iff_ne, beq_iff_eq, ne_eq, ← UInt64.toNat_inj, hand]
  show ¬ e.toNat % 2 = 0 ↔ _
  omega

theorem Entry.paddr_toNat (e : Entry) : (Entry.paddr e).toNat = e.toNat / 1024 * 4096 % 2 ^ 64 := by
  rw [Entry.paddr, UInt64.toNat_shiftLeft, UInt64.toNat_shiftRight]
  simp only [PPN_SHIFT, PTE_PPN_SHIFT, UInt64.reduceToNat, Nat.reduceMod, Nat.shiftLeft_eq,
    Nat.shiftRight_eq_div_pow, Nat.reducePow]

/-- The entries as the words of a radix tree. -/
def sv48 : Radix.Format Nat Nat where
  zero := 0
  valid pte := pte % 2 == 1
  link a := a / 4096 * 1024 + 1
  child pte := pte / 1024 * 4096
  Fits a := a % 4096 = 0 ∧ a < 2 ^ 64
  not_valid_zero := rfl
  valid_link a _ := by
    rw [beq_iff_eq]
    omega
  child_link a h := by
    have := h.1
    omega

theorem link_eq {a : Nat} (h : a < 2 ^ 64) :
    (Entry.new (UInt64.ofNat a) PTE_V).toNat = sv48.link a := by
  rw [Entry.new_toNat _ (by decide), UInt64.toNat_ofNat_of_lt' h]
  rfl

/-! ## Slots -/

section Slots

variable {m : Mem} {a c : Nat} {i j : Fin 512}

theorem entry_toNat (m : Mem) (a : Nat) (i : Fin 512) :
    (Table.entry m a i).toNat = slots m a i := by
  have hlt : m.load 8 (a + 8 * i) < 2 ^ 64 := Mem.load_lt m 8 _
  rw [Table.entry, UInt64.toNat_ofNat_of_lt' hlt]
  rfl

theorem isValid_entry (m : Mem) (a : Nat) (i : Fin 512) :
    Entry.isValid (Table.entry m a i) = sv48.valid (slots m a i) := by
  rw [Entry.isValid_eq, entry_toNat]
  rfl

theorem slots_setEntry_self (m : Mem) (a : Nat) (i : Fin 512) (e : Entry) :
    slots (Table.setEntry m a i e) a i = e.toNat := by
  rw [slots, Table.setEntry, Mem.load_store]
  exact Nat.mod_eq_of_lt e.toNat_lt

theorem slots_setEntry_of_ne (ha : a % 4096 = 0) (hc : c % 4096 = 0) (hne : ¬ (c = a ∧ j = i))
    (e : Entry) : slots (Table.setEntry m a i e) c j = slots m c j := by
  have hi := i.isLt
  have hj := j.isLt
  have hij : ¬ (c = a ∧ (j : Nat) = i) := fun h => hne ⟨h.1, Fin.ext h.2⟩
  exact Mem.load_store_out m _ (by omega)

end Slots

theorem slots_of_allocated {s s' : Machine} {b : Nat} (h : AllocatesPages s 4096 b s')
    (j : Fin 512) : slots s'.mem b j = 0 := by
  have hj := j.isLt
  have hzero : s'.mem.load 8 (b + 8 * j) = (s.mem.fill b 4096 0).load 8 (b + 8 * j) :=
    Mem.load_congr fun x h1 h2 => by
      rw [h.zeroed x (by omega) (by omega), Mem.fill_in _ _ (by omega) (by omega)]
  rw [slots, hzero]
  exact Mem.load_fill_zero s.mem (by omega) (by omega)

theorem slots_of_not_allocated {s s' : Machine} {b c : Nat} (h : AllocatesPages s 4096 b s')
    (hc : c % 4096 = 0) (hne : c ≠ b) (j : Fin 512) : slots s'.mem c j = slots s.mem c j := by
  have hj := j.isLt
  have hb := h.aligned
  exact Mem.load_congr fun x _ _ => h.frame x (by omega)

/-! ## The tree of tables -/

/-- The tables are a tree of pages that the heap has given out since `start`. -/
structure Owned (start root : Nat) (s : Machine) (node : List (Fin 512) → Option Nat)
    (leaf : List (Fin 512) → Option Nat) : Prop where
  tree : Radix.Holds sv48 (slots s.mem) 4 root node leaf
  pages : ∀ p a, node p = some a → start ≤ a ∧ a + 4096 ≤ s.next
  start_pos : 0 < start
  start_le : start ≤ s.next
  next_le : s.next ≤ s.heapEnd
  end_lt : s.heapEnd < 2 ^ 64

section Tree

variable {start root : Nat} {s s' : Machine} {node leaf : List (Fin 512) → Option Nat}
  {p : List (Fin 512)} {a b : Nat} {i : Fin 512}

/-- A new page is none of the tables, and leaves them as they are. -/
theorem Owned.allocated (h : Owned start root s node leaf) (hs : AllocatesPages s 4096 b s') :
    Owned start root s' node leaf ∧ (∀ q, node q ≠ some b) ∧ sv48.Fits b := by
  have habove := hs.above
  have hnext := hs.next
  have hwithin := hs.within
  have hend := h.end_lt
  have hstart := h.start_le
  have hfresh : ∀ q, node q ≠ some b := by
    intro q hq
    have hle := (h.pages q b hq).2
    omega
  refine ⟨⟨?_, ?_, h.start_pos, by omega, ?_, ?_⟩, hfresh, hs.aligned, by omega⟩
  · refine h.tree.congr fun q c j hq => ?_
    exact slots_of_not_allocated hs (h.tree.fits q c hq).1 (fun hcb => hfresh q (hcb ▸ hq)) j
  · intro q c hq
    have hpage := h.pages q c hq
    omega
  · rw [hs.heapEnd, hnext]
    exact hwithin
  · rw [hs.heapEnd]
    exact hend

/-- A table that is missing is made, zeroed and linked. -/
theorem Owned.link (h : Owned start root s node leaf) (ha : node p = some a)
    (hp : p.length + 1 < 4) (hi : node (i :: p) = none) (hs : AllocatesPages s 4096 b s') :
    Owned start root
      { s' with mem := Table.setEntry s'.mem a i (Entry.new (UInt64.ofNat b) PTE_V) }
      (Function.update node (i :: p) (some b)) leaf := by
  obtain ⟨howned, hfresh, hfits⟩ := h.allocated hs
  have hfitsA := howned.tree.fits p a ha
  have hab : b ≠ a := fun hba => hfresh p (hba ▸ ha)
  refine ⟨?_, ?_, howned.start_pos, howned.start_le, howned.next_le, howned.end_lt⟩
  · refine howned.tree.grow ha hp hi hfits hfresh ?_ ?_ ?_
    · rw [slots_setEntry_self, link_eq hfits.2]
    · intro j
      rw [slots_setEntry_of_ne hfitsA.1 hfits.1 fun hslot => hab hslot.1]
      exact slots_of_allocated hs j
    · intro q c j hq hslot
      exact slots_setEntry_of_ne hfitsA.1 (howned.tree.fits q c hq).1 hslot _
  · intro q c hq
    by_cases heq : q = i :: p
    · rw [heq, Function.update_self] at hq
      rw [← Option.some.inj hq]
      have habove := hs.above
      have hnext := hs.next
      have hstart := h.start_le
      exact ⟨by omega, by dsimp only; omega⟩
    · rw [Function.update_of_ne heq] at hq
      exact howned.pages q c hq

theorem paddr_child (h : Owned start root s node leaf) (ha : node p = some a)
    (hp : p.length + 1 < 4) (hi : node (i :: p) = some b) :
    Entry.isValid (Table.entry s.mem a i) = true ∧
      (Entry.paddr (Table.entry s.mem a i)).toNat = b := by
  obtain ⟨hvalid, hchild⟩ := h.tree.slot_of_child ha hp hi
  have hlt := (h.tree.fits _ b hi).2
  have hdiv : slots s.mem a i / 1024 * 4096 = b := hchild
  rw [isValid_entry, Entry.paddr_toNat, entry_toNat, hdiv]
  exact ⟨hvalid, Nat.mod_eq_of_lt hlt⟩

/-- A turn of the loop goes to the table of its index, and makes it if need be. -/
theorem Owned.nextTable (h : Owned start root s node leaf) (ha : node p = some a)
    (hp : p.length + 1 < 4) (hs : GuestPageTable.nextTable s a i = some (s', b)) :
    ∃ node', Owned start root s' node' leaf ∧ node' (i :: p) = some b ∧
      (∀ q c, node q = some c → node' q = some c) ∧ s'.heapEnd = s.heapEnd := by
  obtain ⟨t, ht, hs⟩ := Option.map_eq_some_iff.1 hs
  obtain ⟨rfl, rfl⟩ := Prod.mk.inj hs
  unfold GuestPageTable.ensureTable at ht
  cases hi : node (i :: p) with
  | some c =>
    obtain ⟨hvalid, hpaddr⟩ := paddr_child h ha hp hi
    rw [if_pos hvalid] at ht
    obtain rfl := Option.some.inj ht
    exact ⟨node, h, by rw [hpaddr]; exact hi, fun q c hq => hq, rfl⟩
  | none =>
    have hinvalid : Entry.isValid (Table.entry s.mem a i) = false := by
      rw [isValid_entry]
      exact h.tree.slot_of_none ha hp hi
    rw [if_neg (by rw [hinvalid]; decide)] at ht
    obtain ⟨⟨c, t'⟩, halloc, rfl⟩ := Option.map_eq_some_iff.1 ht
    have hpages : AllocatesPages s 4096 c t' :=
      allocPages_eq_some (Nat.lt_of_lt_of_le h.start_pos h.start_le) halloc
    have hlinked := h.link ha hp hi hpages
    have hchild : Function.update node (i :: p) (some c) (i :: p) = some c :=
      Function.update_self _ _ _
    have hold : ∀ q d, node q = some d → Function.update node (i :: p) (some c) q = some d := by
      intro q d hq
      have hne : q ≠ i :: p := by
        intro heq
        rw [heq, hi] at hq
        cases hq
      rw [Function.update_of_ne hne]
      exact hq
    obtain ⟨-, hpaddr⟩ := paddr_child hlinked (hold p a ha) hp hchild
    exact ⟨_, hlinked, by rw [hpaddr]; exact hchild, hold, hpages.heapEnd⟩

/-- The loop: one table for each level, down from that of `p`. -/
theorem Owned.descend (guestPaddr : UInt64) (levels : List Nat) (h : Owned start root s node leaf)
    (ha : node p = some a) (hp : p.length + levels.length < 4)
    (hs : GuestPageTable.descend guestPaddr levels s a = some (s', b)) :
    ∃ node', Owned start root s' node' leaf ∧
      node' ((levels.map (Table.index guestPaddr)).reverse ++ p) = some b ∧
      (∀ q c, node q = some c → node' q = some c) ∧ s'.heapEnd = s.heapEnd := by
  induction levels generalizing s node p a with
  | nil =>
    obtain ⟨rfl, rfl⟩ := Prod.mk.inj (Option.some.inj hs)
    exact ⟨node, h, ha, fun q c hq => hq, rfl⟩
  | cons level levels ih =>
    rw [List.length_cons] at hp
    obtain ⟨⟨t, c⟩, hnext, hs⟩ := Option.bind_eq_some_iff.1 hs
    obtain ⟨node1, h1, hc, hold1, hend1⟩ := h.nextTable ha (by omega) hnext
    obtain ⟨node2, h2, hb, hold2, hend2⟩ := ih h1 hc (by rw [List.length_cons]; omega) hs
    refine ⟨node2, h2, ?_, fun q d hq => hold2 q d (hold1 q d hq), hend2.trans hend1⟩
    rw [List.map_cons, List.reverse_cons, List.append_assoc]
    exact hb

/-- The indices of an address, from the last level to the first. -/
def trail (guestPaddr : UInt64) : List (Fin 512) := [0, 1, 2, 3].map (Table.index guestPaddr)

/-- The entry that `map` writes. -/
def leafEntry (hostPaddr flags : UInt64) : Nat :=
  (Entry.new hostPaddr (flags ||| PTE_V ||| PTE_U)).toNat

theorem leafFlags_toNat {flags : UInt64} (h : flags.toNat < 1024) :
    (flags ||| PTE_V ||| PTE_U).toNat < 1024 ∧ (flags ||| PTE_V ||| PTE_U).toNat % 2 = 1 := by
  have hor : (flags ||| PTE_V ||| PTE_U).toNat = (flags.toNat ||| 1) ||| 16 := by
    rw [UInt64.toNat_or, UInt64.toNat_or]
    rfl
  rw [hor]
  refine ⟨Nat.or_lt_two_pow (n := 10) (Nat.or_lt_two_pow h (by decide)) (by decide), ?_⟩
  rw [Nat.or_mod_two_eq_one]
  exact Or.inl (Nat.or_mod_two_eq_one.2 (Or.inr rfl))

/-- A call of `map` sets the one leaf of its page. -/
theorem Owned.map {guestPaddr hostPaddr flags : UInt64} (h : Owned start root s node leaf)
    (hflags : flags.toNat < 1024)
    (hs : GuestPageTable.map root s guestPaddr hostPaddr flags = some s') :
    leaf (trail guestPaddr) = none ∧
      ∃ node', Owned start root s' node'
          (Function.update leaf (trail guestPaddr) (some (leafEntry hostPaddr flags))) ∧
        s'.heapEnd = s.heapEnd := by
  unfold GuestPageTable.map at hs
  obtain ⟨⟨t, a⟩, hdescend, hs⟩ := Option.bind_eq_some_iff.1 hs
  obtain ⟨node', h', ha, -, hend⟩ := h.descend guestPaddr [3, 2, 1] h.tree.root (by decide) hdescend
  have hlen : (([3, 2, 1].map (Table.index guestPaddr)).reverse ++ []).length + 1 = 4 := by simp
  have htrail :
      Table.index guestPaddr 0 :: (([3, 2, 1].map (Table.index guestPaddr)).reverse ++ []) =
        trail guestPaddr := rfl
  have hslot := h'.tree.bottom _ a (Table.index guestPaddr 0) ha hlen
  rw [htrail] at hslot
  dsimp only at hs
  split at hs
  · cases hs
  · rename_i hinvalid
    obtain rfl := Option.some.inj hs
    obtain ⟨hlow, hodd⟩ := leafFlags_toNat hflags
    have hnone : leaf (trail guestPaddr) = none := by
      cases hw : leaf (trail guestPaddr) with
      | none => rfl
      | some w =>
        rw [hw, Option.getD_some] at hslot
        refine absurd ?_ hinvalid
        rw [isValid_entry, hslot]
        exact h'.tree.valid _ w hw
    have hvalid : sv48.valid (leafEntry hostPaddr flags) = true := by
      rw [leafEntry, Entry.new_toNat _ hlow]
      exact beq_iff_eq.2 (by omega)
    refine ⟨hnone, node', ⟨?_, h'.pages, h'.start_pos, h'.start_le, h'.next_le, h'.end_lt⟩, hend⟩
    refine h'.tree.put ha hlen hvalid (slots_setEntry_self _ _ _ _) fun q c j hq hne => ?_
    exact slots_setEntry_of_ne (h'.tree.fits _ a ha).1 (h'.tree.fits q c hq).1 hne _

end Tree

/-! ## Walks -/

def vpnIndex (x level : Nat) : Fin 512 := ⟨vpn x level, Nat.mod_lt _ (by decide)⟩

theorem index_eq (guestPaddr : UInt64) {level : Nat} (h : level < 4) :
    Table.index guestPaddr level = vpnIndex guestPaddr.toNat level := by
  have hshift : (UInt64.ofNat (12 + 9 * level)).toNat % 64 = 12 + 9 * level := by
    rw [UInt64.toNat_ofNat_of_lt' (show 12 + 9 * level < 2 ^ 64 by omega)]
    omega
  have hmask : (0x1ff : UInt64).toNat = 2 ^ 9 - 1 := rfl
  apply Fin.ext
  show ((guestPaddr >>> UInt64.ofNat (12 + 9 * level)) &&& 0x1ff).toNat % 512 = _
  rw [UInt64.toNat_and, UInt64.toNat_shiftRight, hshift, hmask, Nat.and_two_pow_sub_one_eq_mod,
    Nat.shiftRight_eq_div_pow]
  exact Nat.mod_mod _ _

/-- The indices of an address, as the walk takes them. -/
def vpnTrail (x : Nat) : List (Fin 512) := [0, 1, 2, 3].map (vpnIndex x)

theorem trail_eq (guestPaddr : UInt64) : trail guestPaddr = vpnTrail guestPaddr.toNat :=
  List.map_congr_left fun level h => index_eq guestPaddr (by revert h level; decide)

theorem vpnTrail_congr {x y : Nat} (h : x / 4096 = y / 4096) : vpnTrail x = vpnTrail y := by
  refine List.map_congr_left fun level _ => Fin.ext ?_
  have hpow : 2 ^ (12 + 9 * level) = 4096 * 2 ^ (9 * level) := Nat.pow_add 2 12 _
  show x / 2 ^ (12 + 9 * level) % 512 = y / 2 ^ (12 + 9 * level) % 512
  rw [hpow, ← Nat.div_div_eq_div_mul, ← Nat.div_div_eq_div_mul, h]

/-- Below 2^48 the indices are the page. -/
theorem vpnTrail_inj {x y : Nat} (hx : x < 2 ^ 48) (hy : y < 2 ^ 48)
    (h : vpnTrail x = vpnTrail y) : x / 4096 = y / 4096 := by
  have hlevel : ∀ level ∈ [0, 1, 2, 3], vpn x level = vpn y level := fun level hmem =>
    congrArg Fin.val (List.map_inj_left.1 h level hmem)
  have h0 := hlevel 0 (by decide)
  have h1 := hlevel 1 (by decide)
  have h2 := hlevel 2 (by decide)
  have h3 := hlevel 3 (by decide)
  simp only [vpn, Nat.reduceMul, Nat.reduceAdd, Nat.reducePow] at h0 h1 h2 h3
  omega

theorem tableAt_eq (m : Mem) (a : Nat) (p : List (Fin 512)) :
    tableAt m a p = Radix.reach sv48 (slots m) a p := by
  induction p generalizing a with
  | nil => rfl
  | cons i p ih =>
    have hvalid : (slots m a i % 2 = 1) ↔ sv48.valid (slots m a i) = true := beq_iff_eq.symm
    rw [tableAt, Radix.reach, ih]
    exact if_congr hvalid rfl rfl

/-- The walk is a walk of the tree. -/
theorem walk_eq (m : Mem) (x : Nat) (levels : List Nat) (level a : Nat) :
    walk m x (levels ++ [level]) a =
      Radix.lookup sv48 (slots m) a (levels.map (vpnIndex x)) (vpnIndex x level) := by
  have hvalid : ∀ pte : Nat, (pte % 2 = 1) ↔ sv48.valid pte = true := fun pte => beq_iff_eq.symm
  induction levels generalizing a with
  | nil =>
    rw [List.nil_append, List.map_nil, Radix.lookup, Radix.reach, Option.bind_some, walk]
    exact if_congr (hvalid _) rfl rfl
  | cons l levels ih =>
    have hstep : walk m x (l :: levels ++ [level]) a =
        if slots m a (vpnIndex x l) % 2 = 1 then
          walk m x (levels ++ [level]) (sv48.child (slots m a (vpnIndex x l)))
        else none := by
      have hmore : levels ++ [level] ≠ [] := by simp
      rw [List.cons_append, walk]
      · rfl
      · exact hmore
    rw [hstep, ih, Radix.lookup, Radix.lookup, List.map_cons, Radix.reach]
    by_cases h : slots m a (vpnIndex x l) % 2 = 1
    · rw [if_pos h, if_pos ((hvalid _).1 h)]
    · rw [if_neg h, if_neg (mt (hvalid _).2 h), Option.bind_none]

section Walks

variable {start root : Nat} {s : Machine} {node leaf : List (Fin 512) → Option Nat}

/-- What an address is translated to is the leaf of its indices. -/
theorem Owned.translate_eq (h : Owned start root s node leaf) (x : Nat) :
    translate s.mem root x =
      (leaf (vpnTrail x)).map fun pte => (pte / 2 ^ 10 * 2 ^ 12, pte % 2 ^ 10) := by
  have hwalk : walk s.mem x [3, 2, 1, 0] root =
      Radix.lookup sv48 (slots s.mem) root ([3, 2, 1].map (vpnIndex x)) (vpnIndex x 0) :=
    walk_eq s.mem x [3, 2, 1] 0 root
  rw [translate, hwalk, h.tree.lookup_eq _ (by rw [List.length_map]; rfl)]
  rfl

theorem Owned.tableAt_node (h : Owned start root s node leaf) {p : List (Fin 512)}
    (hp : p.length < 4) : tableAt s.mem root p = node p.reverse := by
  rw [tableAt_eq, h.tree.reach_eq hp]

theorem leafEntry_decode {hostPaddr flags : UInt64} (hhost : hostPaddr.toNat % 4096 = 0)
    (hflags : flags.toNat < 1024) :
    (leafEntry hostPaddr flags / 2 ^ 10 * 2 ^ 12, leafEntry hostPaddr flags % 2 ^ 10) =
      (hostPaddr.toNat, (flags ||| PTE_V ||| PTE_U).toNat) := by
  obtain ⟨hlow, -⟩ := leafFlags_toNat hflags
  rw [leafEntry, Entry.new_toNat _ hlow]
  refine Prod.ext ?_ ?_
  · dsimp only
    omega
  · dsimp only
    omega

end Walks

/-! ## Runs -/

theorem mapAll_eq_some {m : Mem} {start heapEnd : UInt64} {calls : List MapCall} {root : Nat}
    {s : Machine} : mapAll m start heapEnd calls = some (root, s) ↔
      ∃ t, GuestPageTable.new ⟨m, start.toNat, heapEnd.toNat⟩ = some (root, t) ∧
        mapCalls root t calls = some s := by
  unfold mapAll
  constructor
  · intro h
    obtain ⟨⟨root', t⟩, hnew, h⟩ := Option.bind_eq_some_iff.1 h
    obtain ⟨s', hcalls, h⟩ := Option.bind_eq_some_iff.1 h
    obtain ⟨rfl, rfl⟩ := Prod.mk.inj (Option.some.inj h)
    exact ⟨t, hnew, hcalls⟩
  · rintro ⟨t, hnew, hcalls⟩
    simp only [hnew, hcalls, Option.bind_eq_bind, Option.bind_some]

theorem mapCalls_append (root : Nat) (s : Machine) (calls calls' : List MapCall) :
    mapCalls root s (calls ++ calls') =
      (mapCalls root s calls).bind fun t => mapCalls root t calls' := List.foldlM_append

/-- An empty table, at the front of the heap. -/
theorem new_owned {m : Mem} {start heapEnd : UInt64} {root : Nat} {s : Machine}
    (hstart : 0 < start.toNat)
    (h : GuestPageTable.new ⟨m, start.toNat, heapEnd.toNat⟩ = some (root, s)) :
    Owned start.toNat root s (Function.update (fun _ => none) [] (some root)) (fun _ => none) ∧
      s.heapEnd = heapEnd.toNat := by
  have hpages : AllocatesPages ⟨m, start.toNat, heapEnd.toNat⟩ 4096 root s :=
    allocPages_eq_some hstart h
  have habove : start.toNat ≤ root := hpages.above
  have hnext := hpages.next
  have hwithin : root + 4096 ≤ heapEnd.toNat := hpages.within
  have hend : s.heapEnd = heapEnd.toNat := hpages.heapEnd
  have hlt := heapEnd.toNat_lt
  refine ⟨⟨?_, ?_, hstart, by omega, by omega, by omega⟩, hend⟩
  · exact Radix.Holds.empty (slots_of_allocated hpages) ⟨hpages.aligned, by omega⟩ (by decide)
  · intro p a hp
    by_cases hnil : p = []
    · rw [hnil, Function.update_self] at hp
      rw [← Option.some.inj hp]
      exact ⟨habove, by omega⟩
    · rw [Function.update_of_ne hnil] at hp
      cases hp

section Runs

variable {start root : Nat} {s s' : Machine} {node leaf : List (Fin 512) → Option Nat}

/-- The calls set a leaf each, for a page that had none, and keep the others. -/
theorem Owned.mapCalls {calls : List MapCall} (h : Owned start root s node leaf)
    (hflags : ∀ c ∈ calls, c.flags.toNat < 1024) (hs : mapCalls root s calls = some s') :
    ∃ node' leaf', Owned start root s' node' leaf' ∧ s'.heapEnd = s.heapEnd ∧
      (∀ c ∈ calls, leaf' (trail c.guestPaddr) = some (leafEntry c.hostPaddr c.flags)) ∧
      (∀ t, (∀ c ∈ calls, trail c.guestPaddr ≠ t) → leaf' t = leaf t) ∧
      ∀ t w, leaf t = some w → leaf' t = some w := by
  induction calls generalizing s node leaf with
  | nil =>
    obtain rfl := Option.some.inj hs
    exact ⟨node, leaf, h, rfl, fun c hc => absurd hc List.not_mem_nil, fun _ _ => rfl,
      fun _ _ hw => hw⟩
  | cons c calls ih =>
    unfold Riscv.mapCalls at hs
    rw [List.foldlM_cons] at hs
    obtain ⟨s1, hmap, hs⟩ := Option.bind_eq_some_iff.1 hs
    obtain ⟨hnone, node1, h1, hend1⟩ := h.map (hflags c List.mem_cons_self) hmap
    obtain ⟨node2, leaf2, h2, hend2, hset, hother, hkeep⟩ :=
      ih h1 (fun d hd => hflags d (List.mem_cons_of_mem _ hd)) hs
    refine ⟨node2, leaf2, h2, hend2.trans hend1, ?_, ?_, ?_⟩
    · intro d hd
      rcases List.mem_cons.1 hd with rfl | hd
      · exact hkeep _ _ (Function.update_self _ _ _)
      · exact hset d hd
    · intro t ht
      rw [hother t fun d hd => ht d (List.mem_cons_of_mem _ hd),
        Function.update_of_ne (ht c List.mem_cons_self).symm]
    · intro t w hw
      refine hkeep t w ?_
      have hne : t ≠ trail c.guestPaddr := by
        intro ht
        rw [ht, hnone] at hw
        cases hw
      rw [Function.update_of_ne hne]
      exact hw

/-- The pages of the tables, and what is in them. -/
theorem Owned.tables (h : Owned start root s node leaf) :
    (∀ p a, p.length < 4 → tableAt s.mem root p = some a →
        a % 4096 = 0 ∧ start ≤ a ∧ a + 4096 ≤ s.next ∧ s.next ≤ s.heapEnd) ∧
      (∀ p q a b, p.length < 4 → q.length < 4 → p ≠ q → tableAt s.mem root p = some a →
        tableAt s.mem root q = some b → a + 4096 ≤ b ∨ b + 4096 ≤ a) ∧
      ∀ p a i, p.length < 4 → tableAt s.mem root p = some a → slots s.mem a i % 2 ≠ 1 →
        slots s.mem a i = 0 := by
  refine ⟨?_, ?_, ?_⟩
  · intro p a hp ha
    rw [h.tableAt_node hp] at ha
    have hpage := h.pages _ a ha
    exact ⟨(h.tree.fits _ a ha).1, hpage.1, hpage.2, h.next_le⟩
  · intro p q a b hp hq hne ha hb
    rw [h.tableAt_node hp] at ha
    rw [h.tableAt_node hq] at hb
    have hab : a ≠ b := by
      rintro rfl
      exact hne (List.reverse_inj.1 (h.tree.inj _ _ a ha hb))
    have hfa := (h.tree.fits _ a ha).1
    have hfb := (h.tree.fits _ b hb).1
    omega
  · intro p a i hp ha hi
    have hinvalid : ¬ sv48.valid (slots s.mem a i) = true := mt beq_iff_eq.1 hi
    rw [h.tableAt_node hp] at ha
    rcases Nat.lt_or_eq_of_le (Nat.succ_le_of_lt hp) with hinner | hbottom
    · have hslot := h.tree.inner _ a i ha (by rw [List.length_reverse]; exact hinner)
      cases hb : node (i :: p.reverse) with
      | none =>
        rw [hb] at hslot
        exact hslot
      | some b =>
        have hchild := h.tree.slot_of_child ha (by rw [List.length_reverse]; exact hinner) hb
        exact absurd hchild.1 hinvalid
    · have hslot := h.tree.bottom _ a i ha (by rw [List.length_reverse]; exact hbottom)
      cases hw : leaf (i :: p.reverse) with
      | none =>
        rw [hw] at hslot
        exact hslot
      | some w =>
        rw [hw, Option.getD_some] at hslot
        rw [hslot] at hinvalid
        exact absurd (h.tree.valid _ w hw) hinvalid

end Runs

/-- For every heap that does not start at the null pointer and every sequence of
calls that goes through, the walk finds exactly what was mapped. -/
theorem guest_page_table_maps_exactly (m : Mem) (start heapEnd : UInt64) (hstart : start ≠ 0)
    (calls : List MapCall) (hflags : ∀ c ∈ calls, c.flags.toNat < 1024) (root : Nat) (s : Machine)
    (hrun : mapAll m start heapEnd calls = some (root, s)) :
    MapsExactly m start heapEnd calls root s := by
  have hpos : 0 < start.toNat := by
    refine Nat.pos_of_ne_zero fun h0 => hstart ?_
    exact UInt64.toNat_inj.1 h0
  obtain ⟨t, hnew, hcalls⟩ := mapAll_eq_some.1 hrun
  obtain ⟨hempty, hend⟩ := new_owned hpos hnew
  obtain ⟨node, leaf, h, hend', hset, hother, -⟩ := hempty.mapCalls hflags hcalls
  obtain ⟨hpages, hapart, hzeroed⟩ := h.tables
  refine ⟨?_, ?_, ?_, ?_, hapart, hzeroed, ?_⟩
  · intro c hc x hx
    rw [h.translate_eq, vpnTrail_congr hx, ← trail_eq, hset c hc, Option.map_some,
      leafEntry_decode c.host_aligned (hflags c hc)]
  · intro x hx hne
    have hnone : leaf (vpnTrail x) = none := by
      refine (hother _ fun c hc => ?_).trans rfl
      rw [trail_eq]
      intro heq
      exact hne c hc (vpnTrail_inj hx c.guest_lt heq.symm)
    rw [h.translate_eq, hnone, Option.map_none]
  · rintro earlier later rfl
    rw [mapCalls_append] at hcalls
    obtain ⟨u, hearlier, hlater⟩ := Option.bind_eq_some_iff.1 hcalls
    obtain ⟨_, leaf1, h1, -, -, -, -⟩ :=
      hempty.mapCalls (fun c hc => hflags c (List.mem_append_left _ hc)) hearlier
    obtain ⟨_, leaf2, h2, -, -, -, hkeep⟩ :=
      h1.mapCalls (fun c hc => hflags c (List.mem_append_right _ hc)) hlater
    refine ⟨u, mapAll_eq_some.2 ⟨t, hnew, hearlier⟩, fun x _ y hy => ?_⟩
    rw [h1.translate_eq] at hy
    obtain ⟨pte, hpte, hy⟩ := Option.map_eq_some_iff.1 hy
    rw [h2.translate_eq, hkeep _ _ hpte]
    exact congrArg some hy
  · intro p a hp ha
    rw [← hend, ← hend']
    exact hpages p a hp ha
  · intro t ptr t' hle halloc
    exact allocPages_eq_some (Nat.lt_of_lt_of_le hpos hle) halloc

/-- The page that `main` maps, its neighbour, and one that shares only the root. -/
def sampleCalls : List MapCall :=
  [⟨0x100000, 0x80400000, PTE_R ||| PTE_W ||| PTE_X, by decide, by decide, by decide, by decide⟩,
    ⟨0x101000, 0x80500000, PTE_R, by decide, by decide, by decide, by decide⟩,
    ⟨0x8000000000, 0x80400000, PTE_X, by decide, by decide, by decide, by decide⟩]

theorem sampleCalls_run : (mapAll (fun _ => 0xFF) 0x80200123 0x80300000 sampleCalls).isSome := by
  decide

theorem guest_page_table_maps_exactly_sample :
    MapsExactly (fun _ => 0xFF) 0x80200123 0x80300000 sampleCalls
      ((mapAll (fun _ => 0xFF) 0x80200123 0x80300000 sampleCalls).get sampleCalls_run).1
      ((mapAll (fun _ => 0xFF) 0x80200123 0x80300000 sampleCalls).get sampleCalls_run).2 :=
  guest_page_table_maps_exactly _ _ _ (by decide) _ (by decide) _ _
    (Option.some_get sampleCalls_run).symm

/-- Flags that reach into the page number. -/
def wideFlags : MapCall := ⟨0, 0, 0x400, by decide, by decide, by decide, by decide⟩

theorem wideFlags_translate :
    (mapAll (fun _ => 0xFF) 0x80200123 0x80300000 [wideFlags]).map
      (fun r => translate r.2.mem r.1 0) = some (some (0x1000, 0x11)) := by decide

theorem nullHeap_translate :
    (mapAll (fun _ => 0xFF) 0 0x80300000 []).map
      (fun r => (translate r.2.mem r.1 0).isSome) = some true := by decide

/-- Bit 10 of the flags sends page 0 to another page of the host, and a heap that
starts at the null pointer gives out a root table that is not zeroed. -/
theorem guest_page_table_needs_flags_and_heap :
    (∃ root s, mapAll (fun _ => 0xFF) 0x80200123 0x80300000 [wideFlags] = some (root, s) ∧
        ¬ MapsExactly (fun _ => 0xFF) 0x80200123 0x80300000 [wideFlags] root s) ∧
      ∃ root s, mapAll (fun _ => 0xFF) 0 0x80300000 [] = some (root, s) ∧
        ¬ MapsExactly (fun _ => 0xFF) 0 0x80300000 [] root s := by
  constructor
  · obtain ⟨⟨root, s⟩, hrun, hpage⟩ := Option.map_eq_some_iff.1 wideFlags_translate
    refine ⟨root, s, hrun, fun h => ?_⟩
    rw [h.mapped wideFlags List.mem_cons_self 0 rfl] at hpage
    exact absurd hpage (by decide)
  · obtain ⟨⟨root, s⟩, hrun, hpage⟩ := Option.map_eq_some_iff.1 nullHeap_translate
    refine ⟨root, s, hrun, fun h => ?_⟩
    rw [h.unmapped 0 (by decide) fun c hc => absurd hc List.not_mem_nil] at hpage
    cases hpage

end MiniKvm.Riscv
