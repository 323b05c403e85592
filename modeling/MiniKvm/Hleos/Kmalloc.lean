import MiniKvm.Core.Blocks
import MiniKvm.Core.Lts
import MiniKvm.Hleos.BitMap

/-!
# kmalloc

The heap of HLeOs (hleos/kmalloc.rs): a page of 2 MiB that starts with the
bitmap of its chunks of 16 bytes. Requests are rounded up to chunks and served
first fit.

The client keeps what it was given, and frees and writes that only. In every
state it can reach, the blocks it holds lie apart, have the contents that it
gave them, and are what the bitmap says (`heap_intact`).

Arithmetic that overflows panics; the value of such a call is `none`.
-/
namespace MiniKvm.Hleos

/-! ## The source -/

def heapBase : Nat := 0x8000000000

def heapMem : Nat := heapBase + 0x3f90

def hbitMap : BitMap := ⟨heapBase, 130055⟩

/-- `n` turns of the loop are left.
mirrors experimental/HLeOs/HLeOs/src/hleos/kmalloc.rs:73-86 -/
def findContinuousFalseFrom (b : BitMap) (num : Nat) (m : Mem) : Nat → Nat → Nat → Nat → Option Nat
  | 0, _, _, _ => some b.len
  | n + 1, i, tmp, first =>
    if b.isSet i m = false then
      let first := if tmp = num then i else first
      if tmp = 0 then none
      else if tmp - 1 = 0 then some first
      else findContinuousFalseFrom b num m n (i + 1) (tmp - 1) first
    else if num = 0 then some first
    else findContinuousFalseFrom b num m n (i + 1) num first

/-- mirrors experimental/HLeOs/HLeOs/src/hleos/kmalloc.rs:68-88 -/
def findContinuousFalse (b : BitMap) (num : Nat) (m : Mem) : Option Nat :=
  findContinuousFalseFrom b num m b.len 0 num b.len

/-- `while i < size { hbit_map.set_bit(chk + i); i += 1; }`. -/
def setBits (b : BitMap) (chk : Nat) (m : Mem) : Nat → Mem
  | 0 => m
  | n + 1 => (b.setBit (chk + n) (setBits b chk m n)).2

def unsetBits (b : BitMap) (chk : Nat) (m : Mem) : Nat → Mem
  | 0 => m
  | n + 1 => (b.unsetBit (chk + n) (unsetBits b chk m n)).2

/-- `(size + 0xf) / 0x10`. -/
def chunks (size : Nat) : Option Nat :=
  if size + 0xf < 2 ^ 64 then some ((size + 0xf) / 0x10) else none

/-- What `kmalloc` and `stack_kmalloc` share; `ptr` is the address of a block of chunks. -/
def kmallocWith (ptr : Nat → Nat → Nat) (size : Nat) (m : Mem) : Option (Nat × Mem) :=
  if size = 0 then some (0, m)
  else do
    let size ← chunks size
    let chk ← findContinuousFalse hbitMap size m
    if chk ≠ hbitMap.len then some (ptr chk size, setBits hbitMap chk m size)
    else some (0, m)

/-- mirrors experimental/HLeOs/HLeOs/src/hleos/kmalloc.rs:5-26 -/
def kmalloc : Nat → Mem → Option (Nat × Mem) := kmallocWith fun chk _ => heapMem + chk * 0x10

/-- The address is that of the last chunk.
mirrors experimental/HLeOs/HLeOs/src/hleos/kmalloc.rs:28-49 -/
def stackKmalloc : Nat → Mem → Option (Nat × Mem) :=
  kmallocWith fun chk size => heapMem + chk * 0x10 + (size - 1) * 0x10

/-- mirrors experimental/HLeOs/HLeOs/src/hleos/kmalloc.rs:51-66 -/
def free (chk size : Nat) (m : Mem) : Option (Bool × Mem) := do
  let size ← chunks size
  if chk < heapMem then none
  else some (true, unsetBits hbitMap ((chk - heapMem) / 0x10) m size)

/-- mirrors experimental/HLeOs/HLeOs/src/main.rs:84-92 -/
def initKmalloc (m : Mem) : Mem := m.storeArr 8 heapBase (fun _ => 0) 0x7f2

/-! ## The search -/

section Search

variable {b : BitMap} {m : Mem}

def Used (b : BitMap) (m : Mem) (i : Nat) : Prop := b.isSet i m = true

/-- With `num` in `tmp` no run of free cells is under way, and `first` may be left over. -/
theorem findContinuousFalseFrom_eq {num n i tmp first s : Nat} (hnum : 0 < num)
    (hn : i + n = b.len) (hrun : FreeRun (Used b m) num s i) (htmp : tmp + (i - s) = num)
    (hfirst : s < i → first = s)
    (hlow : ∀ t, t + num ≤ i → ¬ Gap (Used b m) b.len num t) :
    (∃ c, findContinuousFalseFrom b num m n i tmp first = some c ∧ c < b.len ∧
        LowestGap (Used b m) b.len num c) ∨
      findContinuousFalseFrom b num m n i tmp first = some b.len ∧
        ∀ t, ¬ Gap (Used b m) b.len num t := by
  induction n generalizing i tmp first s with
  | zero =>
    refine Or.inr ⟨rfl, fun t hg => hlow t ?_ hg⟩
    have hfit := hg.1
    omega
  | succ n ih =>
    have hle := hrun.le
    have hshort := hrun.short
    have hlen : i < b.len := by omega
    unfold findContinuousFalseFrom
    by_cases hset : b.isSet i m = false
    · have hi : ¬ Used b m i := by
        rw [Used, hset]
        exact Bool.false_ne_true
      have htmp0 : ¬ tmp = 0 := by omega
      have hs : (if tmp = num then i else first) = s := by
        split
        · omega
        · exact hfirst (by omega)
      rw [if_pos hset]
      dsimp only
      rw [if_neg htmp0, hs]
      by_cases hfull : tmp - 1 = 0
      · rw [if_pos hfull]
        exact Or.inl ⟨s, rfl, by omega, hrun.found hlow hi (by omega) hlen⟩
      · rw [if_neg hfull]
        exact ih (by omega) (hrun.next hi (by omega)) (by omega) (fun _ => rfl)
          (hrun.no_gap hlow (by omega))
    · have hi : Used b m i := by
        rw [Used]
        exact Bool.not_eq_false _ ▸ hset
      rw [if_neg hset, if_neg (by omega)]
      exact ih (by omega) (FreeRun.restart hnum hi) (by omega) (fun h => absurd h (by omega))
        (no_gap_of_used hnum hlow hi)

/-- The search finds the lowest gap, or there is none. -/
theorem findContinuousFalse_eq {num : Nat} (hnum : 0 < num) :
    (∃ c, findContinuousFalse b num m = some c ∧ c < b.len ∧
        LowestGap (Used b m) b.len num c) ∨
      findContinuousFalse b num m = some b.len ∧ ∀ t, ¬ Gap (Used b m) b.len num t :=
  findContinuousFalseFrom_eq hnum (Nat.zero_add _) (FreeRun.start hnum) (Nat.add_zero _)
    (fun h => absurd h (Nat.lt_irrefl 0)) fun t ht => absurd ht (by omega)

end Search

/-! ## Chunks taken and given back -/

section Chunks

variable {b : BitMap} {m : Mem} {chk n : Nat}

theorem setBits_isSet (hfit : chk + n ≤ b.len) (i : Nat) :
    b.isSet i (setBits b chk m n) = (decide (Block.Has ⟨chk, n⟩ i) || b.isSet i m) := by
  induction n with
  | zero =>
    rw [setBits, decide_eq_false Block.not_has_zero, Bool.false_or]
  | succ n ih =>
    rw [setBits, BitMap.setBit_isSet (by omega), ih (by omega),
      decide_eq_decide.2 Block.has_succ, Bool.decide_or, Bool.or_assoc]

theorem unsetBits_isSet (b : BitMap) (chk : Nat) (m : Mem) (n i : Nat) :
    b.isSet i (unsetBits b chk m n) = (decide (¬ Block.Has ⟨chk, n⟩ i) && b.isSet i m) := by
  induction n with
  | zero =>
    rw [unsetBits, decide_eq_true Block.not_has_zero, Bool.true_and]
  | succ n ih =>
    have hhas : ¬ Block.Has ⟨chk, n + 1⟩ i ↔ i ≠ chk + n ∧ ¬ Block.Has ⟨chk, n⟩ i := by
      rw [Block.has_succ, not_or]
    rw [unsetBits, BitMap.unsetBit_isSet, ih, decide_eq_decide.2 hhas, Bool.decide_and,
      Bool.and_assoc]

theorem setBits_out {x : Nat} (hx : ¬ b.Within x) (chk : Nat) (m : Mem) (n : Nat) :
    setBits b chk m n x = m x := by
  induction n with
  | zero => rfl
  | succ n ih => rw [setBits, BitMap.setBit_out hx, ih]

theorem unsetBits_out {x : Nat} (hx : ¬ b.Within x) (chk : Nat) (m : Mem) (n : Nat) :
    unsetBits b chk m n x = m x := by
  induction n with
  | zero => rfl
  | succ n ih => rw [unsetBits, BitMap.unsetBit_out hx, ih]

end Chunks

/-- The bitmap ends before the first chunk. -/
theorem not_within_of_le {x : Nat} (hx : heapMem ≤ x) : ¬ hbitMap.Within x := by
  unfold BitMap.Within hbitMap
  unfold heapMem at hx
  dsimp only
  omega

/-- Of the two allocators: the lowest gap, or zero when there is none. -/
theorem kmallocWith_eq (ptr : Nat → Nat → Nat) {size : Nat} (hpos : 0 < size)
    (hsize : size + 0xf < 2 ^ 64) (m : Mem) :
    (∃ c, LowestGap (Used hbitMap m) hbitMap.len ((size + 0xf) / 0x10) c ∧
        kmallocWith ptr size m = some (ptr c ((size + 0xf) / 0x10),
          setBits hbitMap c m ((size + 0xf) / 0x10))) ∨
      kmallocWith ptr size m = some (0, m) ∧
        ∀ t, ¬ Gap (Used hbitMap m) hbitMap.len ((size + 0xf) / 0x10) t := by
  have hchunks : chunks size = some ((size + 0xf) / 0x10) := if_pos hsize
  have hnum : 0 < (size + 0xf) / 0x10 := by omega
  unfold kmallocWith
  rw [if_neg (Nat.ne_of_gt hpos), hchunks]
  rcases findContinuousFalse_eq (b := hbitMap) (m := m) hnum with ⟨c, hc, hlen, hgap⟩ | ⟨hc, hno⟩
  · refine Or.inl ⟨c, hgap, ?_⟩
    rw [Option.bind_eq_bind, Option.bind_some, hc, Option.bind_some,
      if_pos (Nat.ne_of_lt hlen)]
  · refine Or.inr ⟨?_, hno⟩
    rw [Option.bind_eq_bind, Option.bind_some, hc, Option.bind_some,
      if_neg (not_not_intro rfl)]

theorem kmallocWith_size {ptr : Nat → Nat → Nat} {size : Nat} {m : Mem} {r : Nat × Mem}
    (hpos : 0 < size) (h : kmallocWith ptr size m = some r) : size + 0xf < 2 ^ 64 := by
  by_contra hbig
  rw [kmallocWith, if_neg (Nat.ne_of_gt hpos), chunks, if_neg hbig] at h
  cases h

/-- A request that was served. -/
theorem kmallocWith_given {ptr : Nat → Nat → Nat} {size p : Nat} {m m' : Mem} (hp : p ≠ 0)
    (h : kmallocWith ptr size m = some (p, m')) :
    0 < size ∧ size + 0xf < 2 ^ 64 ∧ ∃ c, Gap (Used hbitMap m) hbitMap.len ((size + 0xf) / 0x10) c ∧
      p = ptr c ((size + 0xf) / 0x10) ∧ m' = setBits hbitMap c m ((size + 0xf) / 0x10) := by
  rcases Nat.eq_zero_or_pos size with rfl | hpos
  · exact absurd (congrArg Prod.fst (Option.some.inj h)).symm hp
  have hsize := kmallocWith_size hpos h
  refine ⟨hpos, hsize, ?_⟩
  rcases kmallocWith_eq ptr hpos hsize m with ⟨c, hgap, hc⟩ | ⟨hc, -⟩
  · rw [hc] at h
    obtain ⟨rfl, rfl⟩ := Prod.mk.inj (Option.some.inj h)
    exact ⟨c, hgap.gap, rfl, rfl⟩
  · rw [hc] at h
    exact absurd (congrArg Prod.fst (Option.some.inj h)).symm hp

/-- A request that was not. -/
theorem kmallocWith_refused {ptr : Nat → Nat → Nat} {size : Nat} {m m' : Mem}
    (hptr : ∀ c k, ptr c k ≠ 0) (h : kmallocWith ptr size m = some (0, m')) : m' = m := by
  rcases Nat.eq_zero_or_pos size with rfl | hpos
  · exact (congrArg Prod.snd (Option.some.inj h)).symm
  rcases kmallocWith_eq ptr hpos (kmallocWith_size hpos h) m with ⟨c, -, hc⟩ | ⟨hc, -⟩
  · rw [hc] at h
    exact absurd (congrArg Prod.fst (Option.some.inj h)) (hptr c _)
  · rw [hc] at h
    exact (congrArg Prod.snd (Option.some.inj h)).symm

/-! ## A client -/

/-- What a client was given: its address, the size it asked for, and what it keeps there. -/
structure Held where
  base : Nat
  size : Nat
  data : List UInt8

def Held.block (h : Held) : Block := ⟨(h.base - heapMem) / 0x10, (h.size + 0xf) / 0x10⟩

structure Heap where
  mem : Mem
  held : List Held

/-- `free` and `write` are for the `i`-th of the blocks held. -/
inductive HeapOp where
  | kmalloc (size : Nat)
  | stackKmalloc (size : Nat)
  | free (i : Nat)
  | write (i off : Nat) (bs : List UInt8)

/-- A block that was handed out at `base`, unless there was none. -/
def Heap.take (s : Heap) (size base : Nat) (r : Nat × Mem) : Heap :=
  ⟨r.2, if r.1 = 0 then s.held else ⟨base, size, r.2.read base size⟩ :: s.held⟩

/-- The bytes from `off` on are overwritten. -/
def patch (data : List UInt8) (off : Nat) (bs : List UInt8) : List UInt8 :=
  data.take off ++ (bs ++ data.drop (off + bs.length))

/-- A stack is freed from its lowest address, which is not the one the client was given. -/
def Heap.step (s : Heap) : HeapOp → Option Heap
  | .kmalloc size => (kmalloc size s.mem).map fun r => s.take size r.1 r
  | .stackKmalloc size =>
    (stackKmalloc size s.mem).map fun r =>
      s.take size (r.1 - ((size + 0xf) / 0x10 - 1) * 0x10) r
  | .free i => do
    let h ← s.held[i]?
    let (_, m) ← Hleos.free h.base h.size s.mem
    some ⟨m, s.held.eraseIdx i⟩
  | .write i off bs => do
    let h ← s.held[i]?
    if off + bs.length ≤ h.size then
      some ⟨s.mem.write (h.base + off) bs, s.held.set i { h with data := patch h.data off bs }⟩
    else none

/-- What a client may rely on. -/
structure Heap.Intact (s : Heap) : Prop where
  pool : Pool hbitMap.len (s.held.map Held.block)
  used : ∀ i < hbitMap.len, Used hbitMap s.mem i ↔ Covered (s.held.map Held.block) i
  base : ∀ h ∈ s.held, h.base = heapMem + h.block.start * 0x10
  data : ∀ h ∈ s.held, h.data.length = h.size ∧ s.mem.read h.base h.size = h.data

/-! ### Steps -/

section Steps

variable {s : Heap} {h : Held}

theorem Held.size_le (h : Held) : h.size ≤ h.block.size * 0x10 := by
  unfold block
  dsimp only
  omega

/-- Different chunks are different bytes. -/
theorem Heap.Intact.apart (hs : s.Intact) :
    s.held.Pairwise fun h h' => h.base + h.size ≤ h'.base ∨ h'.base + h'.size ≤ h.base := by
  refine (List.pairwise_map.1 hs.pool.apart).imp_of_mem fun {h h'} hh hh' hap => ?_
  have hbase := hs.base h hh
  have hbase' := hs.base h' hh'
  have hsize := h.size_le
  have hsize' := h'.size_le
  unfold Block.Apart at hap
  omega

/-- The bytes of the blocks are in the heap. -/
theorem Heap.Intact.inHeap (hs : s.Intact) (hh : h ∈ s.held) :
    heapMem ≤ h.base ∧ h.base + h.size ≤ heapBase + 0x200000 := by
  have hbase := hs.base h hh
  have hsize := h.size_le
  have hfit := hs.pool.fits h.block (List.mem_map_of_mem hh)
  unfold hbitMap at hfit
  dsimp only at hfit
  unfold heapMem at hbase ⊢
  omega

/-- What happens to the bitmap alone leaves the contents. -/
theorem Heap.Intact.read_map {m : Mem} (hs : s.Intact)
    (hm : ∀ x, ¬ hbitMap.Within x → m x = s.mem x)
    (hh : h ∈ s.held) : m.read h.base h.size = h.data := by
  rw [← (hs.data h hh).2]
  refine Mem.read_congr fun x h1 _ => hm x (not_within_of_le ?_)
  exact Nat.le_trans (hs.inHeap hh).1 h1

/-- A block at a gap. -/
theorem Heap.Intact.give {c size base : Nat} (hs : s.Intact) (hpos : 0 < size)
    (hgap : Gap (Used hbitMap s.mem) hbitMap.len ((size + 0xf) / 0x10) c)
    (hbase : base = heapMem + c * 0x10) :
    Heap.Intact ⟨setBits hbitMap c s.mem ((size + 0xf) / 0x10),
      ⟨base, size, (setBits hbitMap c s.mem ((size + 0xf) / 0x10)).read base size⟩ :: s.held⟩ := by
  have hstart : (base - heapMem) / 0x10 = c := by
    rw [hbase]
    omega
  have hblock : ∀ data, Held.block ⟨base, size, data⟩ = ⟨c, (size + 0xf) / 0x10⟩ := fun data => by
    rw [Held.block, hstart]
  refine ⟨?_, fun i hi => ?_, fun h hh => ?_, fun h hh => ?_⟩
  · rw [List.map_cons, hblock]
    exact hs.pool.cons (by dsimp only; omega) ((Gap.congr hs.used).1 hgap)
  · rw [List.map_cons, hblock, covered_cons, ← hs.used i hi, Used, setBits_isSet hgap.1,
      Bool.or_eq_true, decide_eq_true_eq, Used]
  · rcases List.mem_cons.1 hh with rfl | hh
    · rw [hblock, hbase]
    · exact hs.base h hh
  · rcases List.mem_cons.1 hh with rfl | hh
    · exact ⟨Mem.read_length _ _ _, rfl⟩
    · exact ⟨(hs.data h hh).1, hs.read_map (fun x hx => setBits_out hx _ _ _) hh⟩

/-- Both allocators; `base` finds the lowest address of a block from the pointer to it. -/
theorem Heap.Intact.take {ptr : Nat → Nat → Nat} {size : Nat} {r : Nat × Mem} (base : Nat → Nat)
    (hs : s.Intact) (hr : kmallocWith ptr size s.mem = some r) (hptr : ∀ c k, ptr c k ≠ 0)
    (hbase : ∀ c, base (ptr c ((size + 0xf) / 0x10)) = heapMem + c * 0x10) :
    (s.take size (base r.1) r).Intact := by
  obtain ⟨p, m⟩ := r
  by_cases hp : p = 0
  · subst hp
    rw [Heap.take, if_pos rfl, kmallocWith_refused hptr hr]
    exact hs
  · obtain ⟨hpos, -, c, hgap, rfl, rfl⟩ := kmallocWith_given hp hr
    rw [Heap.take, if_neg hp]
    exact hs.give hpos hgap (hbase c)

/-- Of a block that is held, `free` clears the chunks. -/
theorem Heap.Intact.free_eq (hs : s.Intact) (hh : h ∈ s.held) :
    Hleos.free h.base h.size s.mem =
      some (true, unsetBits hbitMap h.block.start s.mem h.block.size) := by
  have hin := hs.inHeap hh
  have hsize : h.size + 0xf < 2 ^ 64 := by
    unfold heapMem heapBase at hin
    omega
  rw [Hleos.free, chunks, if_pos hsize, Option.bind_eq_bind, Option.bind_some,
    if_neg (Nat.not_lt.2 hin.1)]
  rfl

theorem Heap.Intact.free {i : Nat} (hs : s.Intact) (hi : s.held[i]? = some h) :
    Heap.Intact ⟨unsetBits hbitMap h.block.start s.mem h.block.size, s.held.eraseIdx i⟩ := by
  obtain ⟨hlt, rfl⟩ := List.getElem?_eq_some_iff.1 hi
  have hperm : s.held.Perm (s.held[i] :: s.held.eraseIdx i) :=
    (List.getElem_cons_eraseIdx_perm hlt).symm
  have hpool : Pool hbitMap.len (s.held[i].block :: (s.held.eraseIdx i).map Held.block) :=
    hs.pool.perm (hperm.map Held.block)
  have hmem : ∀ h ∈ s.held.eraseIdx i, h ∈ s.held := fun h hh => List.mem_of_mem_eraseIdx hh
  refine ⟨hpool.tail, fun j hj => ?_, fun h hh => hs.base h (hmem h hh), fun h hh =>
    ⟨(hs.data h (hmem h hh)).1, hs.read_map (fun x hx => unsetBits_out hx _ _ _) (hmem h hh)⟩⟩
  have hcov := covered_perm (i := j) (hperm.map Held.block)
  rw [Used, unsetBits_isSet, Bool.and_eq_true, decide_eq_true_eq, hpool.covered_tail,
    ← List.map_cons, ← hcov, ← hs.used j hj, and_comm, Used]

/-- A write inside of a block that is read as a whole. -/
theorem read_patch (m : Mem) {a off n : Nat} {bs : List UInt8} (h : off + bs.length ≤ n) :
    (m.write (a + off) bs).read a n = patch (m.read a n) off bs := by
  obtain ⟨k, rfl⟩ : ∃ k, n = off + (bs.length + k) := ⟨n - off - bs.length, by omega⟩
  have hlow : (m.write (a + off) bs).read a off = m.read a off :=
    Mem.read_congr fun x _ h2 => Mem.write_out m (Or.inl h2)
  have hhigh : (m.write (a + off) bs).read (a + off + bs.length) k =
      m.read (a + off + bs.length) k := Mem.read_congr fun x h1 _ => Mem.write_out m (Or.inr h1)
  rw [patch, Mem.read_add, Mem.read_add, hlow, hhigh, Mem.read_write, Mem.read_add,
    List.take_left' (Mem.read_length _ _ _), ← List.drop_drop,
    List.drop_left' (Mem.read_length _ _ _), Mem.read_add, List.drop_left' (Mem.read_length _ _ _)]

theorem Heap.Intact.write {i off : Nat} {bs : List UInt8} (hs : s.Intact)
    (hi : s.held[i]? = some h) (hoff : off + bs.length ≤ h.size) :
    Heap.Intact ⟨s.mem.write (h.base + off) bs,
      s.held.set i { h with data := patch h.data off bs }⟩ := by
  obtain ⟨hlt, rfl⟩ := List.getElem?_eq_some_iff.1 hi
  have hin := hs.inHeap (List.getElem_mem hlt)
  have hblocks : (s.held.set i { s.held[i] with data := patch s.held[i].data off bs }).map
      Held.block = s.held.map Held.block := by
    rw [List.map_set]
    refine List.ext_getElem (List.length_set ..) fun j h1 h2 => ?_
    rw [List.getElem_set]
    split
    · rename_i hij
      subst hij
      rw [List.getElem_map]
      rfl
    · rfl
  refine ⟨hblocks ▸ hs.pool, fun j hj => ?_, fun h hh => ?_, fun h hh => ?_⟩
  · have hbit : hbitMap.isSet j (s.mem.write (s.held[i].base + off) bs) = hbitMap.isSet j s.mem :=
      BitMap.isSet_congr fun x hx => Mem.write_out _ <| Or.inl <| by
        by_contra hge
        exact not_within_of_le (by omega) hx
    rw [hblocks, ← hs.used j hj, Used, Used, hbit]
  · obtain ⟨j, hj, rfl⟩ := List.getElem_of_mem hh
    rw [List.getElem_set]
    split
    · exact hs.base s.held[i] (List.getElem_mem hlt)
    · exact hs.base _ (List.getElem_mem _)
  · obtain ⟨j, hj, rfl⟩ := List.getElem_of_mem hh
    rw [List.length_set] at hj
    rw [List.getElem_set]
    split
    · obtain ⟨hlen, hread⟩ := hs.data _ (List.getElem_mem hlt)
      refine ⟨?_, by rw [read_patch _ hoff, hread]⟩
      simp only [patch, List.length_append, List.length_take, List.length_drop, hlen]
      omega
    · rename_i hij
      obtain ⟨hlen, hread⟩ := hs.data _ (List.getElem_mem hj)
      refine ⟨hlen, (Mem.read_congr fun x h1 h2 => Mem.write_out _ ?_).trans hread⟩
      have hap : s.held[i].base + s.held[i].size ≤ s.held[j].base ∨
          s.held[j].base + s.held[j].size ≤ s.held[i].base := by
        rcases Nat.lt_or_gt_of_ne hij with hlt' | hgt
        · exact List.pairwise_iff_getElem.1 hs.apart i j hlt hj hlt'
        · exact (List.pairwise_iff_getElem.1 hs.apart j i hj hlt hgt).symm
      omega

theorem Heap.Intact.step {t : Heap} (hs : s.Intact) {o : HeapOp} (h : s.step o = some t) :
    t.Intact := by
  cases o with
  | kmalloc size =>
    obtain ⟨r, hr, rfl⟩ := Option.map_eq_some_iff.1 h
    exact hs.take id hr (fun c _ => by unfold heapMem heapBase; omega) fun _ => rfl
  | stackKmalloc size =>
    obtain ⟨r, hr, rfl⟩ := Option.map_eq_some_iff.1 h
    exact hs.take (fun p => p - ((size + 0xf) / 0x10 - 1) * 0x10) hr
      (fun c k => by unfold heapMem heapBase; omega) fun c => Nat.add_sub_cancel _ _
  | free i =>
    obtain ⟨h, hi, hfree⟩ := Option.bind_eq_some_iff.1 h
    rw [hs.free_eq (List.mem_of_getElem? hi)] at hfree
    obtain rfl := Option.some.inj hfree
    exact hs.free hi
  | write i off bs =>
    obtain ⟨h, hi, hwrite⟩ := Option.bind_eq_some_iff.1 h
    split at hwrite
    · rename_i hoff
      obtain rfl := Option.some.inj hwrite
      exact hs.write hi hoff
    · cases hwrite

end Steps

/-- `init_kmalloc` clears every bit. -/
theorem not_used_initKmalloc (m : Mem) (i : Nat) : ¬ Used hbitMap (initKmalloc m) i := by
  unfold Used
  rcases Nat.lt_or_ge i hbitMap.len with hi | hi
  · have hq : i / 64 < 0x7f2 := by
      unfold hbitMap at hi
      dsimp only at hi
      omega
    have hload : (initKmalloc m).load 8 (hbitMap.qword i) = 0 := Mem.load_storeArr m 8 heapBase _ hq
    rw [BitMap.isSet_eq hi, hload, Nat.zero_testBit]
    exact Bool.false_ne_true
  · rw [BitMap.isSet_of_le hi]
    exact Bool.false_ne_true

/-- While nothing was freed, the heap is used from its start. -/
theorem kmallocWith_bump (ptr : Nat → Nat → Nat) (size : Nat) {c : Nat} {m : Mem} (hpos : 0 < size)
    (hused : ∀ i < hbitMap.len, Used hbitMap m i ↔ i < c)
    (hfit : c + (size + 0xf) / 0x10 ≤ hbitMap.len) :
    kmallocWith ptr size m = some (ptr c ((size + 0xf) / 0x10),
        setBits hbitMap c m ((size + 0xf) / 0x10)) ∧
      ∀ i < hbitMap.len, Used hbitMap (setBits hbitMap c m ((size + 0xf) / 0x10)) i ↔
        i < c + (size + 0xf) / 0x10 := by
  have hgap : Gap (Used hbitMap m) hbitMap.len ((size + 0xf) / 0x10) c :=
    ⟨hfit, fun i h1 h2 hu => absurd ((hused i (by omega)).1 hu) (Nat.not_lt.2 h1)⟩
  have hsize : size + 0xf < 2 ^ 64 := by
    unfold hbitMap at hfit
    dsimp only at hfit
    omega
  constructor
  · rcases kmallocWith_eq ptr hpos hsize m with ⟨d, hlow, hd⟩ | ⟨-, hno⟩
    · have hdc : d ≤ c := Nat.not_lt.1 fun hlt => hlow.least c hlt hgap
      have hcd : c ≤ d := by
        by_contra hlt
        have hin := hlow.gap.1
        exact hlow.gap.2 d (Nat.le_refl d) (by omega) ((hused d (by omega)).2 (by omega))
      rw [hd, Nat.le_antisymm hdc hcd]
    · exact absurd hgap (hno c)
  · intro i hi
    rw [Used, setBits_isSet hfit, Bool.or_eq_true, decide_eq_true_eq, Block.has_mk, ← Used,
      hused i hi]
    omega

theorem used_initKmalloc (m : Mem) : ∀ i < hbitMap.len, Used hbitMap (initKmalloc m) i ↔ i < 0 :=
  fun i _ => iff_of_false (not_used_initKmalloc m i) (Nat.not_lt_zero i)

/-- With the pointer and the size of a request, `free` leaves the chunks in use as they were
before it. -/
def Undone (p size : Nat) (m m' : Mem) : Prop :=
  ∃ t, free p size m' = some (true, t) ∧ ∀ i, Used hbitMap t i ↔ Used hbitMap m i

section Free

variable {size p c : Nat} {m m' : Mem}

theorem free_at (hsize : size + 0xf < 2 ^ 64) (hp : p = heapMem + c * 0x10) :
    free p size m' = some (true, unsetBits hbitMap c m' ((size + 0xf) / 0x10)) := by
  have hc : (p - heapMem) / 0x10 = c := by omega
  rw [free, chunks, if_pos hsize, Option.bind_eq_bind, Option.bind_some,
    if_neg (by omega), hc]

/-- The bits after `free`, when the request got the chunks from `c` on. -/
theorem undone_iff {d : Nat} (hsize : size + 0xf < 2 ^ 64)
    (hgap : Gap (Used hbitMap m) hbitMap.len ((size + 0xf) / 0x10) c)
    (hp : p = heapMem + d * 0x10) :
    Undone p size m (setBits hbitMap c m ((size + 0xf) / 0x10)) ↔
      ∀ i, ¬ Block.Has ⟨d, (size + 0xf) / 0x10⟩ i ∧
        (Block.Has ⟨c, (size + 0xf) / 0x10⟩ i ∨ Used hbitMap m i) ↔ Used hbitMap m i := by
  have hbits : ∀ i, Used hbitMap (unsetBits hbitMap d (setBits hbitMap c m ((size + 0xf) / 0x10))
      ((size + 0xf) / 0x10)) i ↔ ¬ Block.Has ⟨d, (size + 0xf) / 0x10⟩ i ∧
        (Block.Has ⟨c, (size + 0xf) / 0x10⟩ i ∨ Used hbitMap m i) := fun i => by
    rw [Used, unsetBits_isSet, setBits_isSet hgap.1, Bool.and_eq_true, Bool.or_eq_true,
      decide_eq_true_eq, decide_eq_true_eq, Used]
  rw [Undone, free_at hsize hp]
  constructor
  · rintro ⟨t, ht, h⟩ i
    obtain ⟨-, rfl⟩ := Prod.mk.inj (Option.some.inj ht)
    rw [← hbits i, h i]
  · intro h
    exact ⟨_, rfl, fun i => (hbits i).trans (h i)⟩

end Free

/-- `free` takes back what `kmalloc` gave. A stack is known by its last chunk, and is taken back
only when that is its first. -/
theorem free_undoes {size p : Nat} {m m' : Mem} (hp : p ≠ 0) :
    (kmalloc size m = some (p, m') → Undone p size m m') ∧
    (stackKmalloc size m = some (p, m') → (Undone p size m m' ↔ size ≤ 0x10)) := by
  constructor
  · intro h
    obtain ⟨-, hsize, c, hgap, hpc, rfl⟩ := kmallocWith_given hp h
    exact (undone_iff hsize hgap hpc).2 hgap.undo
  · intro h
    obtain ⟨hpos, hsize, c, hgap, hpc, rfl⟩ := kmallocWith_given hp h
    have hpd : p = heapMem + (c + ((size + 0xf) / 0x10 - 1)) * 0x10 := by
      rw [hpc]
      omega
    rw [undone_iff hsize hgap hpd]
    constructor
    · intro hall
      by_contra hbig
      -- the first chunk of the stack stays in use
      have hfirst := (hall c).1 ⟨fun hhas => by rw [Block.has_mk] at hhas; omega,
        Or.inl (Block.has_mk.2 (by omega))⟩
      exact hgap.2 c (Nat.le_refl c) (by omega) hfirst
    · intro hle
      have hone : (size + 0xf) / 0x10 = 1 := by omega
      rw [hone] at hgap ⊢
      exact hgap.undo

/-- The stacks of the threads. -/
theorem free_undoes_sample : ∃ p m', stackKmalloc 0xff0 (initKmalloc fun _ => 0) = some (p, m') ∧
    ¬ Undone p 0xff0 (initKmalloc fun _ => 0) m' := by
  obtain ⟨h, -⟩ := kmallocWith_bump (fun chk size => heapMem + chk * 0x10 + (size - 1) * 0x10)
    0xff0 (by decide) (used_initKmalloc fun _ => 0) (by decide)
  exact ⟨_, _, h, fun hu => absurd (((free_undoes (by decide)).2 h).1 hu) (by decide)⟩

end MiniKvm.Hleos
