import MiniKvm.Linux.Boot

/-!
# The zero page

`setup_linux_boot_params` (kvm-vmm-x86/src/linux_boot.c:51-85) for every prior
content of the page and every memory size: which bytes it keeps, sets and
clears, and the memory map that a reader of the packed records finds.
-/
namespace MiniKvm.Linux

open Vmm

/-! ## The memory map, as it is read -/

/-- `struct e820_entry`. -/
structure E820Entry where
  addr : Nat
  size : Nat
  type : Nat
  deriving DecidableEq, Repr

def E820Entry.Covers (r : E820Entry) (x : Nat) : Prop := r.addr ≤ x ∧ x < r.addr + r.size

/-- Record `i` of the packed array. -/
def e820Record (m : Mem) (bp i : Nat) : E820Entry :=
  ⟨m.load 8 (bp + E820_MAP_OFF + 20 * i), m.load 8 (bp + E820_MAP_OFF + 20 * i + 8),
    m.load 4 (bp + E820_MAP_OFF + 20 * i + 16)⟩

def e820Map (m : Mem) (bp : Nat) : List E820Entry :=
  (List.range (m (bp + E820_ENTRIES_OFF)).toNat).map (e820Record m bp)

theorem e820Map_length (m : Mem) (bp : Nat) :
    (e820Map m bp).length = (m (bp + E820_ENTRIES_OFF)).toNat := by
  rw [e820Map, List.length_map, List.length_range]

theorem e820Record_congr {m m' : Mem} {bp i : Nat}
    (h : ∀ x, bp + E820_MAP_OFF + 20 * i ≤ x → x < bp + E820_MAP_OFF + 20 * (i + 1) → m' x = m x) :
    e820Record m' bp i = e820Record m bp i := by
  unfold e820Record
  rw [Mem.load_congr fun x h1 h2 => h x (by omega) (by omega),
    Mem.load_congr fun x h1 h2 => h x (by omega) (by omega),
    Mem.load_congr fun x h1 h2 => h x (by omega) (by omega)]

/-- The page has the records `rs`; everything else is as in `m`. -/
structure E820Built (bp : Nat) (m m' : Mem) (rs : List E820Entry) : Prop where
  map : e820Map m' bp = rs
  out : ∀ x, x ≠ bp + E820_ENTRIES_OFF →
    x < bp + E820_MAP_OFF ∨ bp + E820_MAP_OFF + 20 * rs.length ≤ x → m' x = m x

/-- An entry is appended behind the others. -/
theorem E820Built.add {bp : Nat} {m m' : Mem} {rs : List E820Entry} (h : E820Built bp m m' rs)
    (hroom : rs.length < 128) (addr size type : Nat) (ha : addr < 2 ^ 64) (hs : size < 2 ^ 64)
    (ht : type < 2 ^ 32) :
    E820Built bp m (addE820Entry m' bp addr size type) (rs ++ [⟨addr, size, type⟩]) := by
  have hn : (m' (bp + E820_ENTRIES_OFF)).toNat = rs.length := by rw [← h.map, e820Map_length]
  have hoff : E820_ENTRIES_OFF = 0x1e8 := rfl
  have hmap : E820_MAP_OFF = 0x2d0 := rfl
  have hentry : bp + E820_MAP_OFF + rs.length * 20 = bp + E820_MAP_OFF + 20 * rs.length := by
    rw [Nat.mul_comm]
  have hadd : addE820Entry m' bp addr size type =
      (((m'.store 8 (bp + E820_MAP_OFF + 20 * rs.length) addr).store 8
        (bp + E820_MAP_OFF + 20 * rs.length + 8) size).store 4
        (bp + E820_MAP_OFF + 20 * rs.length + 16) type).store 1 (bp + E820_ENTRIES_OFF)
        (rs.length + 1) := by
    unfold addE820Entry
    simp only [hn, hentry]
    rw [if_neg (by omega)]
  have hout : ∀ x, x ≠ bp + E820_ENTRIES_OFF →
      x < bp + E820_MAP_OFF + 20 * rs.length ∨ bp + E820_MAP_OFF + 20 * (rs.length + 1) ≤ x →
      addE820Entry m' bp addr size type x = m' x := fun x h1 h2 => by
    rw [hadd, Mem.store_out _ _ (by omega), Mem.store_out _ _ (by omega),
      Mem.store_out _ _ (by omega), Mem.store_out _ _ (by omega)]
  have hcount : (addE820Entry m' bp addr size type (bp + E820_ENTRIES_OFF)).toNat =
      rs.length + 1 := by
    rw [hadd, Mem.store_one, UInt8.toNat_ofNat']
    omega
  have hnew : e820Record (addE820Entry m' bp addr size type) bp rs.length = ⟨addr, size, type⟩ := by
    unfold e820Record
    rw [hadd, Mem.load_store_out _ _ (by omega), Mem.load_store_out _ _ (by omega),
      Mem.load_store_out _ _ (by omega), Mem.load_store, Mem.load_store_out _ _ (by omega),
      Mem.load_store_out _ _ (by omega), Mem.load_store, Mem.load_store_out _ _ (by omega),
      Mem.load_store, Nat.mod_eq_of_lt (show addr < 256 ^ 8 from ha),
      Nat.mod_eq_of_lt (show size < 256 ^ 8 from hs),
      Nat.mod_eq_of_lt (show type < 256 ^ 4 from ht)]
  have hold : (List.range rs.length).map (e820Record (addE820Entry m' bp addr size type) bp) =
      rs := by
    have heq : ∀ i ∈ List.range rs.length,
        e820Record (addE820Entry m' bp addr size type) bp i = e820Record m' bp i := fun i hi => by
      have hlt := List.mem_range.1 hi
      exact e820Record_congr fun x hx hx' => hout x (by omega) (by omega)
    rw [List.map_congr_left heq, ← hn]
    exact h.map
  refine ⟨?_, fun x h1 h2 => ?_⟩
  · rw [e820Map, hcount, List.range_succ, List.map_append, List.map_cons, List.map_nil, hnew, hold]
  · rw [List.length_append, List.length_singleton] at h2
    rw [hout x h1 (by omega), h.out x h1 (by omega)]

/-- Stores below the array, and not into the count, leave the map alone. -/
theorem E820Built.keep {bp : Nat} {m m' m'' : Mem} {rs : List E820Entry} (h : E820Built bp m m' rs)
    (hcount : m'' (bp + E820_ENTRIES_OFF) = m' (bp + E820_ENTRIES_OFF))
    (hmap : ∀ x, bp + E820_MAP_OFF ≤ x → m'' x = m' x) : E820Built bp m'' m'' rs := by
  refine ⟨?_, fun _ _ _ => rfl⟩
  rw [← h.map, e820Map, hcount]
  exact List.map_congr_left fun i _ => e820Record_congr fun x hx _ => hmap x (by omega)

/-! ## The whole page -/

/-- The bytes of the header that are set; the others are kept. -/
def IsSet (cmdline : Bool) (x : Nat) : Prop :=
  x = TYPE_OF_LOADER_OFF ∨ (INITRD_ADDR_MAX_OFF ≤ x ∧ x < INITRD_ADDR_MAX_OFF + 4) ∨
    cmdline = true ∧ CMD_LINE_PTR_OFF ≤ x ∧ x < CMD_LINE_PTR_OFF + 4

/-- The page at `bp` of `m'`, made from the one of `m`. -/
structure SoundZeroPage (bp memSize : Nat) (cmdline : Bool) (m m' : Mem) : Prop where
  kept : ∀ x, HDR_OFF ≤ x → x < HDR_OFF + HDR_SIZE → ¬ IsSet cmdline x → m' (bp + x) = m (bp + x)
  loader : m'.load 1 (bp + TYPE_OF_LOADER_OFF) = LOADER_TYPE_UNDEFINED
  limit : m'.load 4 (bp + INITRD_ADDR_MAX_OFF) = INITRD_ADDR_MAX
  cmdlinePtr : cmdline = true → m'.load 4 (bp + CMD_LINE_PTR_OFF) = COMMAND_LINE_ADDR
  sorted : (e820Map m' bp).Pairwise fun r r' => r.addr + r.size ≤ r'.addr
  nonempty : ∀ r ∈ e820Map m' bp, 0 < r.size
  union : ∀ x, (∃ r ∈ e820Map m' bp, r.Covers x) ↔ x < memSize
  ram : ∀ x, (∃ r ∈ e820Map m' bp, r.Covers x ∧ r.type = E820_RAM) ↔
    x < 640 * 1024 ∨ 1024 * 1024 ≤ x ∧ x < memSize
  zero : ∀ x < BOOT_PARAMS_SIZE, ¬ (HDR_OFF ≤ x ∧ x < HDR_OFF + HDR_SIZE) →
    x ≠ E820_ENTRIES_OFF →
    ¬ (E820_MAP_OFF ≤ x ∧ x < E820_MAP_OFF + 20 * (e820Map m' bp).length) → m' (bp + x) = 0
  frame : ∀ x, x < bp ∨ bp + BOOT_PARAMS_SIZE ≤ x → m' x = m x

/-- The records it adds. -/
def e820Records (memSize : Nat) : List E820Entry :=
  [⟨0, 640 * 1024, E820_RAM⟩, ⟨640 * 1024, 384 * 1024, E820_RESERVED⟩] ++
    if memSize > 1024 * 1024 then [⟨1024 * 1024, memSize - 1024 * 1024, E820_RAM⟩] else []

/-! The function in three parts: the saved header in a cleared page, the map,
and the fields of the loader. -/

def clearedPage (bp : Nat) (m : Mem) : Mem :=
  (m.fill bp BOOT_PARAMS_SIZE 0).write (bp + HDR_OFF) (m.read (bp + HDR_OFF) HDR_SIZE)

def fillE820 (bp memSize : Nat) (m : Mem) : Mem :=
  let m := addE820Entry m bp 0 (640 * 1024) E820_RAM
  let m := addE820Entry m bp (640 * 1024) (384 * 1024) E820_RESERVED
  if memSize > 1024 * 1024 then
    addE820Entry m bp (1024 * 1024) (memSize - 1024 * 1024) E820_RAM
  else m

def setFields (bp : Nat) (cmdline : Bool) (m : Mem) : Mem :=
  let m := if cmdline then m.store 4 (bp + CMD_LINE_PTR_OFF) COMMAND_LINE_ADDR else m
  let m := m.store 1 (bp + TYPE_OF_LOADER_OFF) LOADER_TYPE_UNDEFINED
  m.store 4 (bp + INITRD_ADDR_MAX_OFF) INITRD_ADDR_MAX

theorem setupLinuxBootParams_eq (bp memSize : Nat) (cmdline : Bool) (m : Mem) :
    setupLinuxBootParams bp memSize cmdline m =
      setFields bp cmdline (fillE820 bp memSize (clearedPage bp m)) := rfl

theorem clearedPage_hdr {bp x : Nat} (m : Mem) (h1 : HDR_OFF ≤ x) (h2 : x < HDR_OFF + HDR_SIZE) :
    clearedPage bp m (bp + x) = m (bp + x) := by
  have h := Mem.write_read (m.fill bp BOOT_PARAMS_SIZE 0) m (a := bp + HDR_OFF) (b := 0)
    (k := HDR_SIZE) (x := bp + x) (by omega) (by omega)
  rwa [Nat.zero_add, Nat.zero_add] at h

theorem clearedPage_zero {bp x : Nat} (m : Mem) (hx : x < BOOT_PARAMS_SIZE)
    (h : ¬ (HDR_OFF ≤ x ∧ x < HDR_OFF + HDR_SIZE)) : clearedPage bp m (bp + x) = 0 := by
  unfold clearedPage
  rw [Mem.write_out _ (by rw [Mem.read_length]; omega)]
  exact Mem.fill_in _ _ (Nat.le_add_right _ _) (by omega)

theorem clearedPage_out {bp x : Nat} (m : Mem) (hx : x < bp ∨ bp + BOOT_PARAMS_SIZE ≤ x) :
    clearedPage bp m x = m x := by
  have hle : HDR_OFF + HDR_SIZE ≤ BOOT_PARAMS_SIZE := by decide
  unfold clearedPage
  rw [Mem.write_out _ (by rw [Mem.read_length]; omega)]
  exact Mem.fill_out _ _ hx

theorem fillE820_built (bp : Nat) {memSize : Nat} (hm : memSize < 2 ^ 64) (m : Mem) :
    E820Built bp (clearedPage bp m) (fillE820 bp memSize (clearedPage bp m))
      (e820Records memSize) := by
  have h0 : E820Built bp (clearedPage bp m) (clearedPage bp m) [] := by
    refine ⟨?_, fun _ _ _ => rfl⟩
    rw [e820Map, clearedPage_zero m (by decide) (by decide)]
    rfl
  have h1 := h0.add (by decide) 0 (640 * 1024) E820_RAM (by decide) (by decide) (by decide)
  have h2 := h1.add (by decide) (640 * 1024) (384 * 1024) E820_RESERVED (by decide) (by decide)
    (by decide)
  unfold fillE820 e820Records
  split
  · exact h2.add (by decide) _ _ _ (by decide) (by omega) (by decide)
  · exact h2

theorem setFields_out {bp x : Nat} {cmdline : Bool} (m : Mem) (h : ¬ IsSet cmdline x) :
    setFields bp cmdline m (bp + x) = m (bp + x) := by
  obtain ⟨h1, h2, h3⟩ := by simpa only [IsSet, not_or] using h
  unfold setFields
  rw [Mem.store_out _ _ (by omega), Mem.store_out _ _ (by omega)]
  split
  · rename_i hc
    have h3 : ¬ (CMD_LINE_PTR_OFF ≤ x ∧ x < CMD_LINE_PTR_OFF + 4) := fun hx => h3 ⟨hc, hx⟩
    rw [Mem.store_out _ _ (by omega)]
  · rfl

theorem IsSet.in_hdr {cmdline : Bool} {x : Nat} (h : IsSet cmdline x) :
    HDR_OFF ≤ x ∧ x < HDR_OFF + HDR_SIZE := by
  simp only [IsSet, TYPE_OF_LOADER_OFF, INITRD_ADDR_MAX_OFF, CMD_LINE_PTR_OFF] at h
  simp only [HDR_OFF, HDR_SIZE]
  omega

theorem setFields_set (bp : Nat) (cmdline : Bool) (m : Mem) :
    (setFields bp cmdline m).load 1 (bp + TYPE_OF_LOADER_OFF) = LOADER_TYPE_UNDEFINED ∧
      (setFields bp cmdline m).load 4 (bp + INITRD_ADDR_MAX_OFF) = INITRD_ADDR_MAX ∧
      (cmdline = true →
        (setFields bp cmdline m).load 4 (bp + CMD_LINE_PTR_OFF) = COMMAND_LINE_ADDR) := by
  have h1 : TYPE_OF_LOADER_OFF + 1 ≤ CMD_LINE_PTR_OFF := by decide
  have h2 : CMD_LINE_PTR_OFF + 4 = INITRD_ADDR_MAX_OFF := rfl
  unfold setFields
  refine ⟨?_, Mem.load_store _ _ _ _, fun hc => ?_⟩
  · rw [Mem.load_store_out _ _ (by omega), Mem.load_store]
    rfl
  · rw [if_pos hc, Mem.load_store_out _ _ (by omega), Mem.load_store_out _ _ (by omega),
      Mem.load_store]
    rfl

/-! The map that is read back covers `[0, memSize)` once. -/

theorem e820Records_sorted (memSize : Nat) :
    (e820Records memSize).Pairwise fun r r' => r.addr + r.size ≤ r'.addr := by
  unfold e820Records
  split <;> simp

theorem e820Records_nonempty (memSize : Nat) : ∀ r ∈ e820Records memSize, 0 < r.size := by
  unfold e820Records
  split
  · simp
    omega
  · simp

theorem e820Records_union {memSize : Nat} (h : 1024 * 1024 ≤ memSize) (x : Nat) :
    (∃ r ∈ e820Records memSize, r.Covers x) ↔ x < memSize := by
  unfold e820Records E820Entry.Covers
  split
  · simp
    omega
  · simp
    omega

theorem e820Records_ram {memSize : Nat} (h : 1024 * 1024 ≤ memSize) (x : Nat) :
    (∃ r ∈ e820Records memSize, r.Covers x ∧ r.type = E820_RAM) ↔
      x < 640 * 1024 ∨ 1024 * 1024 ≤ x ∧ x < memSize := by
  unfold e820Records E820Entry.Covers
  split
  · simp [E820_RAM, E820_RESERVED]
    omega
  · simp [E820_RAM, E820_RESERVED]
    omega

/-- The zero page is sound for every page before, every memory of at least 1 MiB,
with or without a command line. -/
theorem zero_page_sound (bp : Nat) (memSize : UInt64) (h : 1024 * 1024 ≤ memSize.toNat)
    (cmdline : Bool) (m : Mem) :
    SoundZeroPage bp memSize.toNat cmdline m
      (setupLinuxBootParams bp memSize.toNat cmdline m) := by
  have hb := fillE820_built bp memSize.toNat_lt m
  have hent : E820_ENTRIES_OFF < HDR_OFF := by decide
  have hdr : HDR_OFF + HDR_SIZE ≤ E820_MAP_OFF := by decide
  have hpage : E820_MAP_OFF + 20 * 3 ≤ BOOT_PARAMS_SIZE := by decide
  have hcount : (e820Records memSize.toNat).length ≤ 3 := by
    unfold e820Records
    split <;> simp
  rw [setupLinuxBootParams_eq]
  generalize hm1 : fillE820 bp memSize.toNat (clearedPage bp m) = m1 at hb ⊢
  have hmap : e820Map (setFields bp cmdline m1) bp = e820Records memSize.toNat := by
    refine (hb.keep (setFields_out m1 fun hs => ?_) fun x hx => ?_).map
    · have := hs.in_hdr
      omega
    · obtain ⟨i, rfl⟩ := Nat.exists_eq_add_of_le (Nat.le_trans (Nat.le_add_right bp _) hx)
      refine setFields_out m1 fun hs => ?_
      have := hs.in_hdr
      omega
  obtain ⟨hloader, hlimit, hptr⟩ := setFields_set bp cmdline m1
  refine ⟨fun x h1 h2 hset => ?_, hloader, hlimit, hptr, ?_, ?_, ?_, ?_,
    fun x hx hhdr hne hrec => ?_, fun x hx => ?_⟩
  · rw [setFields_out m1 hset, hb.out _ (by omega) (by omega), clearedPage_hdr m h1 h2]
  · rw [hmap]
    exact e820Records_sorted _
  · rw [hmap]
    exact e820Records_nonempty _
  · rw [hmap]
    exact e820Records_union h
  · rw [hmap]
    exact e820Records_ram h
  · rw [hmap] at hrec
    rw [setFields_out m1 fun hs => hhdr hs.in_hdr, hb.out _ (by omega) (by omega),
      clearedPage_zero m hx hhdr]
  · have hkeep : setFields bp cmdline m1 x = m1 x := by
      unfold setFields
      simp only [TYPE_OF_LOADER_OFF, INITRD_ADDR_MAX_OFF, CMD_LINE_PTR_OFF]
      simp only [BOOT_PARAMS_SIZE] at hx
      rw [Mem.store_out _ _ (by omega), Mem.store_out _ _ (by omega)]
      split
      · rw [Mem.store_out _ _ (by omega)]
      · rfl
    rw [hkeep, hb.out _ (by omega) (by omega), clearedPage_out m hx]

theorem zero_page_sound_256M :
    SoundZeroPage LINUX_BOOT_PARAMS_ADDR 0x10000000 true (fun _ => 0xAA)
      (setupLinuxBootParams LINUX_BOOT_PARAMS_ADDR 0x10000000 true fun _ => 0xAA) :=
  zero_page_sound LINUX_BOOT_PARAMS_ADDR 0x10000000 (by decide) true _

end MiniKvm.Linux
