import Mathlib.Algebra.BigOperators.Group.List.Basic
import Mathlib.Algebra.Order.BigOperators.Group.List
import Mathlib.Tactic.Ring
import MiniKvm.Core.Bytes
import MiniKvm.Core.Text

/-!
# The file system of the 1K OS

`fs_flush` writes the file table as a tar archive into `disk`, `fs_init` reads
it back (os-1k/kernel.c:149-235). The archive of one file is a header and its
data (`Archived`); a flushed disk is a chain of them (`Chain`), and reading a
chain into an empty table gives the files it was written from.

The size of `disk` is computed from `struct file`, not from what the archive
of two files takes: `fs_round_trip_iff`.
-/
namespace MiniKvm.Os1k

/-! ## The source -/

def FILES_MAX : Nat := 2
instance : NeZero FILES_MAX := ⟨by decide⟩
def SECTOR_SIZE : Nat := 512
def NAME_SIZE : Nat := 100
def DATA_SIZE : Nat := 1024
/-- `sizeof(struct file)`: a flag, name and data, padding, and the size. -/
def FILE_SIZE : Nat := 1132
/-- `sizeof(struct tar_header)`. -/
def HEADER_SIZE : Nat := 512

/-- `align` is a power of two. -/
def alignUp (value align : Nat) : Nat := (value + align - 1) / align * align

def DISK_MAX_SIZE : Nat := (FILE_SIZE * FILES_MAX + SECTOR_SIZE - 1) / SECTOR_SIZE * SECTOR_SIZE

/-- `char buf[n]`. -/
abbrev Buf (n : Nat) := { bs : List UInt8 // bs.length = n }

def Buf.zero (n : Nat) : Buf n := ⟨List.replicate n 0, List.length_replicate⟩

/-- `memcpy(buf, bs, |bs|)`, when it fits. -/
def Buf.put {n : Nat} (b : Buf n) (bs : List UInt8) (h : bs.length ≤ n) : Buf n :=
  ⟨bs ++ b.val.drop bs.length, by
    rw [List.length_append, List.length_drop, b.property]
    omega⟩

/-- The first `k` bytes, as `memcpy` reads them; there are no more than `n`. -/
def Buf.first {n : Nat} (b : Buf n) (k : Nat) : List UInt8 :=
  (List.range k).map fun i => b.val.getD i 0

structure File where
  inUse : Bool
  name : Buf NAME_SIZE
  data : Buf DATA_SIZE
  size : Nat
  deriving DecidableEq

abbrev Files := Fin FILES_MAX → File

def File.empty : File := ⟨false, Buf.zero _, Buf.zero _, 0⟩

/-- `disk`, and what lies behind it. -/
structure Disk where
  mem : Mem
  /-- Not in the source: start and length of every write so far. -/
  writes : List (Nat × Nat)

def Disk.put (d : Disk) (a : Nat) (bs : List UInt8) : Disk :=
  ⟨d.mem.write a bs, d.writes ++ [(a, bs.length)]⟩

/-- `for (i = k; i > 0; i--) { p[i - 1] = v % 8 + '0'; v /= 8; }`. -/
def putOctal (a : Nat) : Nat → Nat → Disk → Disk
  | 0, _, d => d
  | k + 1, v, d => putOctal a k (v / 8) (d.put (a + k) [digitChar (v % 8)])

/-- mirrors kvm-vmm-x86/os-1k/kernel.c:156-165 -/
def oct2int (oct : List UInt8) : Nat := go 0 oct
where
  go (dec : Nat) : List UInt8 → Nat
    | [] => dec
    | c :: cs => if c < 48 ∨ 55 < c then dec else go (dec * 8 + (c.toNat - 48)) cs

def modeText : List UInt8 := ['0', '0', '0', '6', '4', '4'].map Char.toUInt8
def ustar : List UInt8 := ['u', 's', 't', 'a', 'r'].map Char.toUInt8
def versionText : List UInt8 := ['0', '0'].map Char.toUInt8

/-- `file->name` as a string; without a NUL it runs on into the data. -/
def File.nameString (f : File) : List UInt8 := cstring (f.name.val ++ f.data.val)

/-- The sum of the header's bytes. -/
def byteSum (m : Mem) (off : Nat) : Nat :=
  ((List.range HEADER_SIZE).map fun i => (m (off + i)).toNat).sum

/-- One turn of the loop; `p` is the disk and `off`.
mirrors kvm-vmm-x86/os-1k/kernel.c:175-204 -/
def flushFile (p : Disk × Nat) (f : File) : Disk × Nat :=
  if f.inUse then
    let off := p.2
    let d := p.1.put off (List.replicate HEADER_SIZE 0)
    let d := d.put off (f.nameString ++ [0])
    let d := d.put (off + 100) (modeText ++ [0])
    let d := d.put (off + 257) (ustar ++ [0])
    let d := d.put (off + 263) (versionText ++ [0])
    let d := d.put (off + 156) [digitChar 0]
    let d := putOctal (off + 124) 12 f.size d
    let checksum := 32 * 8 + byteSum d.mem off
    let d := putOctal (off + 148) 6 checksum d
    let d := d.put (off + HEADER_SIZE) (f.data.first f.size)
    (d, off + alignUp (HEADER_SIZE + f.size) SECTOR_SIZE)
  else p

/-- `memset(disk, 0, sizeof(disk))`. -/
def eraseDisk (m : Mem) : Disk := Disk.put ⟨m, []⟩ 0 (List.replicate DISK_MAX_SIZE 0)

/-- mirrors kvm-vmm-x86/os-1k/kernel.c:171-208 -/
def fsFlush (files : Files) (m : Mem) : Disk :=
  ((List.finRange FILES_MAX).foldl (fun p i => flushFile p (files i)) (eraseDisk m, 0)).1

/-- Reading a disk ends in a panic, or writes over the end of a field. -/
inductive FsFault where
  | panic
  | overflow
  deriving DecidableEq, Repr

/-- One entry of the archive, read into `file`.
mirrors kvm-vmm-x86/os-1k/kernel.c:222-230 -/
def readFile (m : Mem) (off : Nat) (file : File) : Except FsFault File :=
  if m.read (off + 257) 6 ≠ ustar ++ [0] then .error .panic
  else
    let filesz := oct2int (m.read (off + 124) 12)
    let name := cstring (m.read off NAME_SIZE)
    let data := m.read (off + HEADER_SIZE) filesz
    if h : (name ++ [0]).length ≤ NAME_SIZE ∧ data.length ≤ DATA_SIZE then
      .ok ⟨true, file.name.put (name ++ [0]) h.1, file.data.put data h.2, filesz⟩
    else .error .overflow

/-- The loop over the slots, from offset `off`. -/
def fsInitFrom (m : Mem) : List (Fin FILES_MAX) → Nat → Files → Except FsFault Files
  | [], _, files => .ok files
  | i :: is, off, files =>
    if m off = 0 then .ok files
    else
      match readFile m off (files i) with
      | .error e => .error e
      | .ok f =>
        fsInitFrom m is (off + alignUp (HEADER_SIZE + f.size) SECTOR_SIZE)
          (Function.update files i f)

/-- mirrors kvm-vmm-x86/os-1k/kernel.c:213-235 -/
def fsInit (m : Mem) (files : Files) : Except FsFault Files :=
  fsInitFrom m (List.finRange FILES_MAX) 0 files

/-! ## What is wanted of it -/

/-- Name, size and contents. -/
def File.entry (f : File) : List UInt8 × Nat × List UInt8 :=
  (cstring f.name.val, f.size, f.data.first f.size)

/-- The files in use, in slot order. -/
def listing (files : Files) (is : List (Fin FILES_MAX)) : List (List UInt8 × Nat × List UInt8) :=
  (is.filter fun i => (files i).inUse).map fun i => (files i).entry

/-- A name that is not empty and ends before the buffer does, and a size within the data. -/
structure File.Ok (f : File) : Prop where
  terminated : (0 : UInt8) ∈ f.name.val
  nonempty : cstring f.name.val ≠ []
  size : f.size ≤ DATA_SIZE

/-- The sum of the header's bytes, the checksum field counted as spaces. -/
def headerSum (m : Mem) (off : Nat) : Nat :=
  ((List.range HEADER_SIZE).map fun i => if 148 ≤ i ∧ i < 156 then 32 else (m (off + i)).toNat).sum

/-- A ustar header with its fields filled in. -/
structure ValidHeader (m : Mem) (off : Nat) : Prop where
  mode : m.read (off + 100) 7 = modeText ++ [0]
  magic : m.read (off + 257) 6 = ustar ++ [0]
  version : m.read (off + 263) 2 = versionText
  type : m (off + 156) = digitChar 0
  size : m.read (off + 124) 12 = digits 8 12 (oct2int (m.read (off + 124) 12))
  checksum : m.read (off + 148) 8 = digits 8 6 (headerSum m off) ++ [0, 0]
  checksum_value : oct2int (m.read (off + 148) 8) = headerSum m off

/-- Where the headers are. -/
def headerOffsets : List File → Nat → List Nat
  | [], _ => []
  | f :: fs, off =>
    if f.inUse then off :: headerOffsets fs (off + alignUp (HEADER_SIZE + f.size) SECTOR_SIZE)
    else headerOffsets fs off

structure RoundTrip (files : Files) (m : Mem) : Prop where
  inside : ∀ w ∈ (fsFlush files m).writes, w.1 + w.2 ≤ DISK_MAX_SIZE
  read : ∃ t, fsInit (fsFlush files m).mem (fun _ => File.empty) = .ok t ∧
    listing t (List.finRange FILES_MAX) = listing files (List.finRange FILES_MAX)
  headers : ∀ off ∈ headerOffsets ((List.finRange FILES_MAX).map files) 0,
    ValidHeader (fsFlush files m).mem off

/-! ## Octal fields -/

theorem oct2int_go_digits (k v dec : Nat) (rest : List UInt8) :
    oct2int.go dec (digits 8 k v ++ rest) = oct2int.go (dec * 8 ^ k + v % 8 ^ k) rest := by
  induction k generalizing v dec rest with
  | zero => simp [digits, Nat.mod_one]
  | succ k ih =>
    have hd : v % 8 < 8 := Nat.mod_lt _ (by decide)
    have hc := digitChar_toNat (show v % 8 < 10 by omega)
    have hlo : ¬ digitChar (v % 8) < 48 := by
      rw [UInt8.lt_iff_toNat_lt, hc]
      simp only [UInt8.reduceToNat]
      omega
    have hhi : ¬ 55 < digitChar (v % 8) := by
      rw [UInt8.lt_iff_toNat_lt, hc]
      simp only [UInt8.reduceToNat]
      omega
    have hmod : v % 8 ^ (k + 1) = v % 8 + 8 * (v / 8 % 8 ^ k) := by rw [Nat.pow_succ', Nat.mod_mul]
    rw [digits, List.append_assoc, ih, List.cons_append, List.nil_append, oct2int.go,
      if_neg (not_or.2 ⟨hlo, hhi⟩), hc, Nat.add_sub_cancel, hmod, Nat.pow_succ]
    congr 1
    ring

/-- A field of `k` digits is read back, whatever does not look like a digit being behind it. -/
theorem oct2int_digits {k v : Nat} (h : v < 8 ^ k) : oct2int (digits 8 k v) = v := by
  have hgo := oct2int_go_digits k v 0 []
  rw [List.append_nil, Nat.zero_mul, Nat.zero_add, Nat.mod_eq_of_lt h] at hgo
  exact hgo

theorem oct2int_digits_nul {k v : Nat} (h : v < 8 ^ k) (rest : List UInt8) :
    oct2int (digits 8 k v ++ 0 :: rest) = v := by
  have hgo := oct2int_go_digits k v 0 (0 :: rest)
  rw [Nat.zero_mul, Nat.zero_add, Nat.mod_eq_of_lt h] at hgo
  exact hgo

theorem putOctal_mem (a k v : Nat) (d : Disk) :
    (putOctal a k v d).mem = d.mem.write a (digits 8 k v) := by
  induction k generalizing v d with
  | zero =>
    refine funext fun x => (Mem.write_out _ ?_).symm
    simp only [digits, List.length_nil]
    omega
  | succ k ih =>
    have hlen := digits_length 8 k (v / 8)
    rw [putOctal, ih, digits, ← Mem.write_append, hlen]
    exact Mem.write_comm d.mem (Or.inr (Nat.le_of_eq (by rw [hlen])))

theorem putOctal_writes (a k v : Nat) (d : Disk) {w : Nat × Nat}
    (hw : w ∈ (putOctal a k v d).writes) :
    w ∈ d.writes ∨ a ≤ w.1 ∧ w.1 + w.2 ≤ a + k := by
  induction k generalizing v d with
  | zero => exact Or.inl hw
  | succ k ih =>
    rcases ih _ _ hw with h | h
    · rcases List.mem_append.1 h with h | h
      · exact Or.inl h
      · obtain rfl := List.mem_singleton.1 h
        exact Or.inr ⟨by omega, by simp only [List.length_singleton]; omega⟩
    · exact Or.inr (by omega)

/-! ## One file -/

@[simp] theorem Buf.first_length {n : Nat} (b : Buf n) (k : Nat) :
    (b.first k).length = k := by simp [Buf.first]

/-- Name, mode, magic, version, type and size, as they are written at `off`. -/
def fieldWrites (f : File) (off : Nat) : List (Nat × List UInt8) :=
  [(off, f.nameString ++ [0]), (off + 100, modeText ++ [0]), (off + 257, ustar ++ [0]),
    (off + 263, versionText ++ [0]),
    (off + 156, [digitChar 0]), (off + 124, digits 8 12 f.size)]

/-- The header before its checksum. -/
def headerMem (m : Mem) (f : File) (off : Nat) : Mem :=
  (m.write off (List.replicate HEADER_SIZE 0)).writeAll (fieldWrites f off)

/-- The checksum `fs_flush` computes. -/
def flushChecksum (m : Mem) (f : File) (off : Nat) : Nat := 32 * 8 + byteSum (headerMem m f off) off

/-- All that is written behind the zeros. -/
def archiveWrites (m : Mem) (f : File) (off : Nat) : List (Nat × List UInt8) :=
  fieldWrites f off ++ [(off + 148, digits 8 6 (flushChecksum m f off)),
    (off + HEADER_SIZE, f.data.first f.size)]

theorem flushFile_mem {f : File} (hf : f.inUse) (p : Disk × Nat) :
    (flushFile p f).1.mem =
      (p.1.mem.write p.2 (List.replicate HEADER_SIZE 0)).writeAll
        (archiveWrites p.1.mem f p.2) := by
  unfold flushFile
  rw [if_pos hf]
  simp only [Disk.put, putOctal_mem]
  rfl

theorem flushFile_off {f : File} (hf : f.inUse) (p : Disk × Nat) :
    (flushFile p f).2 = p.2 + alignUp (HEADER_SIZE + f.size) SECTOR_SIZE := by
  unfold flushFile
  rw [if_pos hf]

theorem nameString_length {f : File} (h : f.Ok) : f.nameString.length < 100 := by
  have hlen := cstring_length_lt h.terminated
  rw [f.name.property] at hlen
  rw [File.nameString, cstring_append h.terminated]
  exact hlen

theorem archiveWrites_apart {f : File} (h : f.Ok) (m : Mem) (off : Nat) :
    (archiveWrites m f off).Pairwise Mem.Apart := by
  have hname := nameString_length h
  have hmode : modeText.length = 6 := rfl
  have hustar : ustar.length = 5 := rfl
  have hversion : versionText.length = 2 := rfl
  simp only [archiveWrites, fieldWrites, List.cons_append, List.nil_append, List.pairwise_cons,
    List.mem_cons, List.not_mem_nil, or_false, forall_eq_or_imp, forall_eq, Mem.Apart,
    List.length_append, List.length_singleton, digits_length, Buf.first_length, hmode, hustar,
    hversion, HEADER_SIZE, List.Pairwise.nil, and_true, false_imp_iff, implies_true]
  omega

/-- What is written lies in the header, its checksum field left to the checksum, or is the data. -/
theorem fieldWrites_in {f : File} (h : f.Ok) {off : Nat} {w : Nat × List UInt8}
    (hw : w ∈ fieldWrites f off) :
    off ≤ w.1 ∧ (w.1 + w.2.length ≤ off + 148 ∨ off + 156 ≤ w.1 ∧
      w.1 + w.2.length ≤ off + HEADER_SIZE) := by
  have hname := nameString_length h
  simp only [fieldWrites, List.mem_cons, List.not_mem_nil, or_false] at hw
  rcases hw with rfl | rfl | rfl | rfl | rfl | rfl
  · rw [List.length_append, List.length_singleton]
    omega
  all_goals simp [modeText, ustar, versionText, HEADER_SIZE]

/-- The headers of a flushed file in memory `m`, and its data behind it. -/
structure Archived (m : Mem) (off : Nat) (f : File) : Prop where
  name : m.read off (f.nameString ++ [0]).length = f.nameString ++ [0]
  size : m.read (off + 124) 12 = digits 8 12 f.size
  header : ValidHeader m off
  data : m.read (off + HEADER_SIZE) f.size = f.data.first f.size

section Flush

variable {f : File} (h : f.Ok) (m : Mem) (off : Nat)

/-- The memory behind one turn of the loop. -/
def archiveMem (m : Mem) (f : File) (off : Nat) : Mem :=
  (m.write off (List.replicate HEADER_SIZE 0)).writeAll (archiveWrites m f off)

theorem archiveMem_eq : archiveMem m f off = ((headerMem m f off).write (off + 148)
    (digits 8 6 (flushChecksum m f off))).write (off + HEADER_SIZE) (f.data.first f.size) := by
  unfold archiveMem headerMem archiveWrites Mem.writeAll
  rw [List.foldl_append]
  rfl

include h

theorem archiveMem_out {x : Nat} (hx : x < off ∨ off + HEADER_SIZE + f.size ≤ x) :
    archiveMem m f off x = m x := by
  simp only [HEADER_SIZE] at hx
  rw [archiveMem_eq, Mem.write_out _ (by rw [Buf.first_length, HEADER_SIZE]; omega),
    Mem.write_out _ (by rw [digits_length]; omega), headerMem, Mem.writeAll_out _ fun w hw => ?_,
    Mem.write_out _ (by rw [List.length_replicate, HEADER_SIZE]; omega)]
  have hin := fieldWrites_in h hw
  simp only [HEADER_SIZE] at hin
  omega

/-- The checksum field is zero until the checksum is written. -/
theorem headerMem_checksum {i : Nat} (h1 : 148 ≤ i) (h2 : i < 156) :
    headerMem m f off (off + i) = 0 := by
  rw [headerMem, Mem.writeAll_out _ fun w hw => ?_, Mem.write_replicate,
    Mem.fill_in _ _ (by omega) (by rw [HEADER_SIZE]; omega)]
  have hin := fieldWrites_in h hw
  simp only [HEADER_SIZE] at hin
  omega

theorem headerSum_archiveMem : headerSum (archiveMem m f off) off = flushChecksum m f off := by
  have hterm : ∀ i ∈ List.range HEADER_SIZE,
      (if 148 ≤ i ∧ i < 156 then 32 else (archiveMem m f off (off + i)).toNat) =
        (if 148 ≤ i ∧ i < 156 then 32 else 0) + (headerMem m f off (off + i)).toNat :=
          fun i hi => by
    have hlt := List.mem_range.1 hi
    by_cases hc : 148 ≤ i ∧ i < 156
    · rw [if_pos hc, if_pos hc, headerMem_checksum h m off hc.1 hc.2]
      rfl
    · rw [if_neg hc, if_neg hc, archiveMem_eq, Mem.write_out _ (Or.inl (by omega)),
        Mem.write_out _ (by rw [digits_length]; omega), Nat.zero_add]
  have hspaces : ((List.range HEADER_SIZE).map fun i => if 148 ≤ i ∧ i < 156 then 32 else 0).sum =
      32 * 8 := by
    decide +kernel
  rw [headerSum, List.map_congr_left hterm, List.sum_map_add, hspaces]
  rfl

end Flush

/-- Six digits are enough for it. -/
theorem flushChecksum_lt (m : Mem) (f : File) (off : Nat) : flushChecksum m f off < 8 ^ 6 := by
  have hsum :
      ((List.range HEADER_SIZE).map fun i => (headerMem m f off (off + i)).toNat).sum ≤ _ * 255 :=
    List.sum_le_card_nsmul _ 255 fun v hv => by
      obtain ⟨i, -, rfl⟩ := List.mem_map.1 hv
      have := (headerMem m f off (off + i)).toNat_lt
      omega
  rw [List.length_map, List.length_range] at hsum
  unfold flushChecksum byteSum
  simp only [HEADER_SIZE] at hsum ⊢
  omega

/-- A turn of the loop archives its file. -/
theorem archived {f : File} (h : f.Ok) (m : Mem) (off : Nat) :
    Archived (archiveMem m f off) off f := by
  have hread : ∀ w ∈ archiveWrites m f off, (archiveMem m f off).read w.1 w.2.length = w.2 :=
    fun w hw =>
    Mem.read_writeAll _ (archiveWrites_apart h m off) hw
  have hzero : ∀ i, 154 ≤ i → i < 156 → archiveMem m f off (off + i) = 0 := fun i h1 h2 => by
    rw [archiveMem_eq, Mem.write_out _ (by simp only [HEADER_SIZE]; omega),
      Mem.write_out _ (by rw [digits_length]; omega), headerMem_checksum h m off (by omega) h2]
  have hsize : f.size < 8 ^ 12 := Nat.lt_of_le_of_lt h.size (by decide)
  have hlt := flushChecksum_lt m f off
  have hsum := headerSum_archiveMem h m off
  have hsizeField := hread (off + 124, digits 8 12 f.size) (by simp [archiveWrites, fieldWrites])
  have hmode := hread (off + 100, modeText ++ [0]) (by simp [archiveWrites, fieldWrites])
  have hmagic := hread (off + 257, ustar ++ [0]) (by simp [archiveWrites, fieldWrites])
  have hversion := hread (off + 263, versionText ++ [0]) (by simp [archiveWrites, fieldWrites])
  have htype := hread (off + 156, [digitChar 0]) (by simp [archiveWrites, fieldWrites])
  have hcheck := hread (off + 148, digits 8 6 (flushChecksum m f off)) (by simp [archiveWrites])
  have hdata := hread (off + HEADER_SIZE, f.data.first f.size) (by simp [archiveWrites])
  have hmodeLen : (modeText ++ [0]).length = 7 := rfl
  have hmagicLen : (ustar ++ [0]).length = 6 := rfl
  have hversionLen : (versionText ++ [0]).length = 2 + 1 := rfl
  simp only [digits_length, hmodeLen, hmagicLen,
    hversionLen] at hsizeField hcheck hmode hmagic hversion
  rw [Buf.first_length] at hdata
  have hfield :
      (archiveMem m f off).read (off + 148) 8 = digits 8 6 (headerSum (archiveMem m f off) off) ++
      [0, 0] := by
    rw [Mem.read_succ, Mem.read_succ, hcheck, hsum, Nat.add_assoc, Nat.add_assoc,
      hzero 154 (by decide) (by decide), hzero 155 (by decide) (by decide), List.append_assoc]
    rfl
  refine ⟨hread (off, f.nameString ++ [0]) (by simp [archiveWrites, fieldWrites]), hsizeField,
    ⟨hmode, hmagic, ?_, ?_, ?_, hfield, ?_⟩, hdata⟩
  · rw [Mem.read_succ] at hversion
    exact (List.append_inj hversion (by rw [Mem.read_length]; rfl)).1
  · simpa [Mem.read] using htype
  · rw [hsizeField, oct2int_digits hsize]
  · rw [hfield, hsum]
    exact oct2int_digits_nul hlt [0]

/-! ## Reading it back -/

theorem Buf.first_put {n k : Nat} (b : Buf n) {bs : List UInt8} (h : bs.length ≤ n)
    (hk : bs.length = k) :
    (b.put bs h).first k = bs := by
  subst hk
  apply List.ext_getElem
  · simp
  · intro i h1 h2
    simp [Buf.first, Buf.put, List.getD_eq_getElem?_getD, List.getElem?_append_left h2, h2]

section Read

variable {m : Mem} {off : Nat} {f : File} (a : Archived m off f) (h : f.Ok)

include h in
theorem nameString_eq : f.nameString = cstring f.name.val := cstring_append h.terminated _

theorem zero_not_mem_nameString (f : File) : (0 : UInt8) ∉ f.nameString := zero_not_mem_cstring _

include a h

theorem Archived.cstring_name : cstring (m.read off NAME_SIZE) = f.nameString := by
  have hlen := nameString_length h
  have hsplit :
      NAME_SIZE = (f.nameString ++ [0]).length + (NAME_SIZE - (f.nameString ++ [0]).length) := by
    rw [List.length_append, List.length_singleton, NAME_SIZE]
    omega
  rw [hsplit, Mem.read_add, a.name, List.append_assoc]
  exact cstring_terminated (zero_not_mem_nameString f) _

/-- The first byte of a name is not the end mark. -/
theorem Archived.starts : m off ≠ 0 := fun h0 => by
  have hname := a.name
  cases hs : f.nameString with
  | nil => exact h.nonempty ((nameString_eq h).symm.trans hs)
  | cons c cs =>
    rw [hs, Mem.read_eq_iff] at hname
    have hc := hname 0 (by simp)
    have hmem := zero_not_mem_nameString f
    rw [Nat.add_zero, h0] at hc
    rw [hs] at hmem
    exact hmem (List.mem_cons.2 (Or.inl hc))

/-- An archived file is read with its name, size and data. -/
theorem Archived.readFile (g : File) :
    ∃ t, readFile m off g = .ok t ∧ t.inUse ∧ t.size = f.size ∧ t.entry = f.entry := by
  have hlen := nameString_length h
  have hsize := h.size
  have hoct : oct2int (m.read (off + 124) 12) = f.size := by
    rw [a.size]
    exact oct2int_digits (Nat.lt_of_le_of_lt hsize (by decide))
  have hfits :
      (f.nameString ++ [0]).length ≤ NAME_SIZE ∧ (f.data.first f.size).length ≤ DATA_SIZE := by
    rw [List.length_append, List.length_singleton, Buf.first_length]
    exact ⟨hlen, hsize⟩
  unfold Os1k.readFile
  simp only [a.header.magic, ne_eq, not_true_eq_false, if_false, hoct, a.cstring_name h, a.data]
  rw [dif_pos hfits]
  refine ⟨_, rfl, rfl, rfl, ?_⟩
  simp only [File.entry, Buf.first_put g.data hfits.2 (Buf.first_length _ _)]
  have hname : cstring (g.name.put (f.nameString ++ [0]) hfits.1).val = f.nameString := by
    simp only [Buf.put, List.append_assoc]
    exact cstring_terminated (zero_not_mem_nameString f) _
  rw [hname, nameString_eq h]

end Read

/-- Files archived one behind the other from `off` on; behind them an end mark,
unless the slots are used up. -/
def Chain (m : Mem) : Nat → Nat → List File → Prop
  | slots, off, [] => slots = 0 ∨ m off = 0
  | 0, _, _ :: _ => False
  | slots + 1, off, f :: fs =>
      Archived m off f ∧ Chain m slots (off + alignUp (HEADER_SIZE + f.size) SECTOR_SIZE) fs

@[simp] theorem chain_nil (m : Mem) (slots off : Nat) : Chain m slots off [] ↔
    slots = 0 ∨ m off = 0 := by
  cases slots <;> exact Iff.rfl

/-- A chain is read into unused slots, in order. -/
theorem fsInitFrom_chain {m : Mem} {is : List (Fin FILES_MAX)} {off : Nat} {fs : List File}
    {files : Files}
    (hnd : is.Nodup) (hempty : ∀ i ∈ is, (files i).inUse = false) (hok : ∀ f ∈ fs, f.Ok)
    (hc : Chain m is.length off fs) :
    ∃ t, fsInitFrom m is off files = .ok t ∧ listing t is = fs.map File.entry ∧ ∀ j ∉ is,
      t j = files j := by
  induction is generalizing off fs files with
  | nil =>
    cases fs with
    | nil => exact ⟨files, rfl, rfl, fun _ _ => rfl⟩
    | cons f fs => exact hc.elim
  | cons i is ih =>
    cases fs with
    | nil =>
      have hend : m off = 0 := hc.resolve_left (Nat.succ_ne_zero _)
      refine ⟨files, by rw [fsInitFrom, if_pos hend], ?_, fun _ _ => rfl⟩
      have hnone : (i :: is).filter (fun j => (files j).inUse) = [] :=
        List.filter_eq_nil_iff.2 fun j hj => by simp [hempty j hj]
      rw [listing, hnone]
      rfl
    | cons f fs =>
      obtain ⟨ha, hrest⟩ := hc
      obtain ⟨hi, hnd⟩ := List.nodup_cons.1 hnd
      have hf := hok f List.mem_cons_self
      obtain ⟨g, hg, huse, hsize, hentry⟩ := ha.readFile hf (files i)
      rw [← hsize] at hrest
      have hne : ∀ j ∈ is, j ≠ i := fun j hj he => hi (he ▸ hj)
      have hempty' : ∀ j ∈ is, (Function.update files i g j).inUse = false := fun j hj => by
        rw [Function.update_of_ne (hne j hj)]
        exact hempty j (List.mem_cons_of_mem i hj)
      obtain ⟨t, ht, hlist, hkeep⟩ :=
        ih hnd hempty' (fun f hf => hok f (List.mem_cons_of_mem _ hf)) hrest
      have hti : t i = g := by rw [hkeep i hi, Function.update_self]
      refine ⟨t, ?_, ?_, fun j hj => ?_⟩
      · rw [fsInitFrom, if_neg (ha.starts hf), hg]
        exact ht
      · rw [listing, List.filter_cons_of_pos (by rw [hti]; exact huse), List.map_cons, hti, hentry]
        exact congrArg (f.entry :: ·) hlist
      · obtain ⟨hji, hj⟩ := not_or.1 (mt List.mem_cons.2 hj)
        rw [hkeep j hj, Function.update_of_ne hji]

/-! ## Flushing -/

theorem le_alignUp (n : Nat) : n ≤ alignUp n SECTOR_SIZE := by
  simp only [alignUp, SECTOR_SIZE]
  omega

theorem headerSum_congr {m m' : Mem} {off : Nat}
    (h : ∀ x, off ≤ x → x < off + HEADER_SIZE → m' x = m x) :
    headerSum m' off = headerSum m off := by
  refine congrArg List.sum (List.map_congr_left fun i hi => ?_)
  have hlt := List.mem_range.1 hi
  rw [h (off + i) (Nat.le_add_right _ _) (by omega)]

/-- An archived file stays so where its bytes are left alone. -/
theorem Archived.congr {m m' : Mem} {off : Nat} {f : File} (a : Archived m off f) (h : f.Ok)
    (hm : ∀ x, off ≤ x → x < off + HEADER_SIZE + f.size → m' x = m x) : Archived m' off f := by
  have hname := nameString_length h
  have hread : ∀ b n, b + n ≤ HEADER_SIZE + f.size → m'.read (off + b) n = m.read (off + b) n :=
    fun b n hb =>
    Mem.read_congr fun x h1 h2 => hm x (by omega) (by omega)
  have hin : ∀ b n, b + n ≤ 512 → m'.read (off + b) n = m.read (off + b) n := fun b n hb =>
    hread b n (by simp only [HEADER_SIZE]; omega)
  have hsum := headerSum_congr fun x h1 h2 => hm x h1 (by omega)
  have htype : m' (off + 156) = m (off + 156) := hm _ (by omega) (by simp only [HEADER_SIZE]; omega)
  have hnameRead :=
    hin 0 (f.nameString ++ [0]).length (by rw [List.length_append, List.length_singleton]; omega)
  rw [Nat.add_zero] at hnameRead
  refine ⟨hnameRead.trans a.name, (hin 124 12 (by decide)).trans a.size,
    ⟨(hin 100 7 (by decide)).trans a.header.mode,
    (hin 257 6 (by decide)).trans a.header.magic, (hin 263 2 (by decide)).trans a.header.version,
    htype.trans a.header.type, ?_, ?_, ?_⟩, (hread HEADER_SIZE f.size (Nat.le_refl _)).trans a.data⟩
  · rw [hin 124 12 (by decide)]
    exact a.header.size
  · rw [hin 148 8 (by decide), hsum]
    exact a.header.checksum
  · rw [hin 148 8 (by decide), hsum]
    exact a.header.checksum_value

def used (fs : List File) : List File := fs.filter fun f => f.inUse

/-- The loop leaves a chain of the files in use. -/
structure Flushed (fs : List File) (p q : Disk × Nat) : Prop where
  off_le : p.2 ≤ q.2
  off_max : q.2 ≤ p.2 + 1536 * (used fs).length
  below : ∀ x < p.2, q.1.mem x = p.1.mem x
  behind : ∀ x, q.2 ≤ x → q.1.mem x = p.1.mem x
  chain : ∀ slots, (used fs).length ≤ slots → ((used fs).length = slots ∨ p.1.mem q.2 = 0) →
    Chain q.1.mem slots p.2 (used fs)
  headers : ∀ off ∈ headerOffsets fs p.2, ValidHeader q.1.mem off

/-- A file in use: its archive entry, and the chain of the others behind it. -/
theorem Flushed.cons {f : File} {fs : List File} {p : Disk × Nat} (hf : f.inUse) (hfok : f.Ok)
    (i : Flushed fs (flushFile p f) (fs.foldl flushFile (flushFile p f))) :
    Flushed (f :: fs) p ((f :: fs).foldl flushFile p) := by
  rw [List.foldl_cons]
  have hused : used (f :: fs) = f :: used fs := List.filter_cons_of_pos hf
  have hmem : (flushFile p f).1.mem = archiveMem p.1.mem f p.2 := flushFile_mem hf p
  have hoff := flushFile_off hf p
  have hle := le_alignUp (HEADER_SIZE + f.size)
  have hmax : alignUp (HEADER_SIZE + f.size) SECTOR_SIZE ≤ 1536 := by
    have hsize := hfok.size
    simp only [alignUp, HEADER_SIZE, SECTOR_SIZE, DATA_SIZE] at hsize ⊢
    omega
  have hil := i.off_le
  have him := i.off_max
  rw [hoff] at hil him
  have hhere : Archived (fs.foldl flushFile (flushFile p f)).1.mem p.2 f := by
    have ha := archived hfok p.1.mem p.2
    rw [← hmem] at ha
    exact ha.congr hfok fun x h1 h2 => i.below x (by rw [hoff]; omega)
  have hout : ∀ x, x < p.2 ∨ p.2 + HEADER_SIZE + f.size ≤ x →
      (flushFile p f).1.mem x = p.1.mem x := fun x hx => by
    rw [hmem]
    exact archiveMem_out hfok _ _ hx
  refine ⟨by omega, ?_, fun x hx => ?_, fun x hx => ?_, fun slots h1 h2 => ?_, fun off h => ?_⟩
  · rw [hused, List.length_cons]
    omega
  · rw [i.below x (by rw [hoff]; omega)]
    exact hout x (Or.inl hx)
  · rw [i.behind x hx]
    exact hout x (Or.inr (by omega))
  · rw [hused] at h1 h2 ⊢
    rw [List.length_cons] at h1 h2
    cases slots with
    | zero => exact absurd h1 (by omega)
    | succ slots =>
      refine ⟨hhere, ?_⟩
      rw [← hoff]
      refine i.chain slots (by omega) (h2.imp (by omega) fun hz => ?_)
      rw [hout _ (Or.inr (by omega))]
      exact hz
  · rw [headerOffsets, if_pos hf, ← hoff] at h
    rcases List.mem_cons.1 h with rfl | h
    · exact hhere.header
    · exact i.headers off h

/-- A free slot is passed over. -/
theorem Flushed.skip {f : File} {fs : List File} {p : Disk × Nat} (hf : ¬ f.inUse)
    (i : Flushed fs p (fs.foldl flushFile p)) :
    Flushed (f :: fs) p ((f :: fs).foldl flushFile p) := by
  have hused : used (f :: fs) = used fs := List.filter_cons_of_neg hf
  have hskip : flushFile p f = p := by rw [flushFile, if_neg hf]
  rw [List.foldl_cons, hskip]
  refine ⟨i.off_le, hused ▸ i.off_max, i.below, i.behind, hused ▸ i.chain, ?_⟩
  rw [headerOffsets, if_neg hf]
  exact i.headers

theorem flushed {fs : List File} (hok : ∀ f ∈ fs, f.inUse → f.Ok) (p : Disk × Nat) :
    Flushed fs p (fs.foldl flushFile p) := by
  induction fs generalizing p with
  | nil =>
    refine ⟨Nat.le_refl _, Nat.le_add_right _ _, fun _ _ => rfl, fun _ _ => rfl,
      fun slots _ h => ?_, fun off h => absurd h (by simp [headerOffsets])⟩
    exact (chain_nil _ _ _).2 (h.imp Eq.symm id)
  | cons f fs ih =>
    have hrest := fun f hf => hok f (List.mem_cons_of_mem _ hf)
    by_cases hf : f.inUse
    · exact (ih hrest (flushFile p f)).cons hf (hok f List.mem_cons_self hf)
    · exact (ih hrest p).skip hf

/-! ## Where it writes -/

/-- A file in use is written between its offset and the end of its data. -/
theorem flushFile_writes {f : File} (h : f.inUse → f.Ok) (p : Disk × Nat) {w : Nat × Nat}
    (hw : w ∈ (flushFile p f).1.writes) :
    w ∈ p.1.writes ∨ f.inUse ∧ w.1 + w.2 ≤ p.2 + HEADER_SIZE + f.size := by
  unfold flushFile at hw
  split at hw
  · rename_i hf
    have hname := nameString_length (h hf)
    have hmode : modeText.length = 6 := rfl
    have hustar : ustar.length = 5 := rfl
    have hversion : versionText.length = 2 := rfl
    refine (List.mem_append.1 hw).elim (fun hw => ?_) fun hw => ?_
    · refine (putOctal_writes _ _ _ _ hw).elim (fun hw => ?_) fun hw =>
        Or.inr ⟨hf, by simp only [HEADER_SIZE]; omega⟩
      refine (putOctal_writes _ _ _ _ hw).elim (fun hw => ?_) fun hw =>
        Or.inr ⟨hf, by simp only [HEADER_SIZE]; omega⟩
      simp only [Disk.put, List.mem_append, List.mem_singleton, List.length_append,
        List.length_singleton, List.length_replicate, hmode, hustar, hversion, HEADER_SIZE] at hw ⊢
      rcases hw with (((((hw | rfl) | rfl) | rfl) | rfl) | rfl) | rfl
      · exact Or.inl hw
      all_goals exact Or.inr ⟨hf, by simp only; omega⟩
    · obtain rfl := List.mem_singleton.1 hw
      rw [Buf.first_length]
      exact Or.inr ⟨hf, Nat.le_refl _⟩
  · exact Or.inl hw

theorem eraseDisk_mem (m : Mem) {x : Nat} (hx : x < DISK_MAX_SIZE) : (eraseDisk m).mem x = 0 := by
  simp only [eraseDisk, Disk.put, Mem.write_replicate]
  exact Mem.fill_in _ _ (Nat.zero_le x) (by omega)

theorem eraseDisk_writes (m : Mem) : (eraseDisk m).writes = [(0, DISK_MAX_SIZE)] := by
  unfold eraseDisk Disk.put
  rw [List.length_replicate, List.nil_append]

theorem flushFile_writes_data {f : File} (hf : f.inUse) (p : Disk × Nat) :
    (p.2 + HEADER_SIZE, f.size) ∈ (flushFile p f).1.writes := by
  unfold flushFile
  rw [if_pos hf]
  refine List.mem_append_right _ (List.mem_singleton.2 ?_)
  rw [Buf.first_length]

theorem fsFlush_eq (files : Files) (m : Mem) :
    fsFlush files m = (((List.finRange FILES_MAX).map files).foldl flushFile
      (eraseDisk m, 0)).1 := by
  rw [List.foldl_map]
  rfl

theorem listing_eq (files : Files) (is : List (Fin FILES_MAX)) :
    listing files is = (used (is.map files)).map File.entry := by
  rw [used, List.filter_map, List.map_map]
  rfl

section Main

variable {files : Files} (h : ∀ i, (files i).inUse → (files i).Ok) (m : Mem)

include h

/-- Whatever it overwrites, the archive can be read back. -/
theorem fsFlush_read :
    (∃ t, fsInit (fsFlush files m).mem (fun _ => File.empty) = .ok t ∧
      listing t (List.finRange FILES_MAX) = listing files (List.finRange FILES_MAX)) ∧
    ∀ off ∈ headerOffsets ((List.finRange FILES_MAX).map files) 0,
      ValidHeader (fsFlush files m).mem off := by
  have hok : ∀ f ∈ (List.finRange FILES_MAX).map files, f.inUse → f.Ok := fun f hf => by
    obtain ⟨i, -, rfl⟩ := List.mem_map.1 hf
    exact h i
  have hf := flushed hok (eraseDisk m, 0)
  rw [fsFlush_eq]
  have hlen : (used ((List.finRange FILES_MAX).map files)).length ≤ FILES_MAX := by
    have hfilter :=
      List.length_filter_le (fun f : File => f.inUse) ((List.finRange FILES_MAX).map files)
    rwa [List.length_map, List.length_finRange] at hfilter
  have hmax := hf.off_max
  refine ⟨?_, hf.headers⟩
  have hchain := hf.chain FILES_MAX hlen (by
    -- a disk with a free slot has room for an end mark
    rcases Nat.lt_or_ge (used ((List.finRange FILES_MAX).map files)).length FILES_MAX with hlt | hge
    · refine Or.inr ?_
      have hdisk : DISK_MAX_SIZE = 2560 := rfl
      have hfiles : FILES_MAX = 2 := rfl
      exact eraseDisk_mem m (by omega)
    · exact Or.inl (Nat.le_antisymm hlen hge))
  have hempty : ∀ i ∈ List.finRange FILES_MAX, ((fun _ => File.empty : Files) i).inUse = false :=
    fun _ _ => rfl
  obtain ⟨t, ht, hlist, -⟩ := fsInitFrom_chain (List.nodup_finRange _) hempty
    (fun f hf => hok f (List.mem_filter.1 hf).1 (List.mem_filter.1 hf).2)
      (by rw [List.length_finRange]; exact hchain)
  exact ⟨t, ht, hlist.trans (listing_eq files _).symm⟩

/-- Two files of more than a sector do not fit. -/
theorem fsFlush_inside :
    (∀ w ∈ (fsFlush files m).writes, w.1 + w.2 ≤ DISK_MAX_SIZE) ↔
      ¬ ∀ i, (files i).inUse ∧ SECTOR_SIZE < (files i).size := by
  let p := flushFile (eraseDisk m, 0) (files 0)
  have heq : fsFlush files m = (flushFile p (files 1)).1 := fsFlush_eq files m
  have hall : (∀ i, (files i).inUse ∧ SECTOR_SIZE < (files i).size) ↔
      ((files 0).inUse ∧ SECTOR_SIZE < (files 0).size) ∧ (files 1).inUse ∧
        SECTOR_SIZE < (files 1).size :=
    Fin.forall_fin_two
  have hdisk : DISK_MAX_SIZE = 2560 := rfl
  have hoff : (files 0).inUse → p.2 = 0 + alignUp (HEADER_SIZE + (files 0).size) SECTOR_SIZE :=
    fun h0 => flushFile_off h0 _
  simp only [alignUp, HEADER_SIZE, SECTOR_SIZE] at hoff
  rw [heq, hall, hdisk]
  simp only [SECTOR_SIZE]
  constructor
  · rintro hin ⟨⟨h0, hs0⟩, h1, hs1⟩
    have hw := hin _ (flushFile_writes_data h1 p)
    have ho := hoff h0
    simp only [HEADER_SIZE] at hw
    omega
  · intro hnot w hw
    have hsize : ∀ i, (files i).inUse → (files i).size ≤ 1024 := fun i hi => (h i hi).size
    rcases flushFile_writes (h 1) p hw with hw | ⟨h1, hw⟩
    · rcases flushFile_writes (h 0) _ hw with hw | ⟨h0, hw⟩
      · rw [eraseDisk_writes, List.mem_singleton] at hw
        rw [hw]
        exact Nat.le_of_eq (Nat.zero_add _)
      · have hs0 := hsize 0 h0
        simp only [HEADER_SIZE] at hw
        omega
    · have hs1 := hsize 1 h1
      simp only [HEADER_SIZE] at hw
      by_cases h0 : (files 0).inUse
      · have hs0 := hsize 0 h0
        have ho := hoff h0
        have hone : ¬ (512 < (files 0).size ∧ 512 < (files 1).size) :=
          fun hb => hnot ⟨⟨h0, hb.1⟩, h1, hb.2⟩
        omega
      · have hskip : p.2 = 0 := by
          show (flushFile (eraseDisk m, 0) (files 0)).2 = 0
          rw [flushFile, if_neg h0]
        omega

/-- The file system goes to disk and back, unless both files are in use and
larger than a sector: then the second one ends behind the disk. -/
theorem fs_round_trip_iff : RoundTrip files m ↔
    ¬ ∀ i, (files i).inUse ∧ SECTOR_SIZE < (files i).size := by
  obtain ⟨hread, hheaders⟩ := fsFlush_read h m
  rw [← fsFlush_inside h m]
  exact ⟨fun r => r.inside, fun hin => ⟨hin, hread, hheaders⟩⟩

end Main

/-- A file named by one character, with `size` bytes in use. -/
def sampleFile (c : UInt8) (size : Nat) : File :=
  ⟨true, (Buf.zero NAME_SIZE).put [c] (by rw [List.length_singleton, NAME_SIZE]; decide),
    ⟨List.replicate DATA_SIZE c, List.length_replicate⟩, size⟩

def sampleFiles (size0 size1 : Nat) : Files := fun i =>
  if i = 0 then sampleFile 0x61 size0 else sampleFile 0x62 size1

theorem sampleFiles_ok {size0 size1 : Nat} (h0 : size0 ≤ DATA_SIZE) (h1 : size1 ≤ DATA_SIZE)
    (i : Fin FILES_MAX) :
    (sampleFiles size0 size1 i).Ok := by
  unfold sampleFiles
  split
  · exact ⟨by simp [sampleFile, Buf.put, Buf.zero,
      NAME_SIZE], by simp [sampleFile, Buf.put, cstring], h0⟩
  · exact ⟨by simp [sampleFile, Buf.put, Buf.zero,
      NAME_SIZE], by simp [sampleFile, Buf.put, cstring], h1⟩

theorem fs_round_trip_small : RoundTrip (sampleFiles 1024 512) fun _ => 0xFF := by
  refine (fs_round_trip_iff (fun i _ => sampleFiles_ok (by decide) (by decide) i) _).2
    fun hall => ?_
  exact absurd (hall 1).2 (by decide)

/-- Two files of 513 bytes: the second one ends a byte behind the disk. -/
theorem fs_round_trip_large :
    (∀ i, (sampleFiles 513 513 i).Ok) ∧ ¬ RoundTrip (sampleFiles 513 513) fun _ => 0 := by
  have hok := sampleFiles_ok (show 513 ≤ DATA_SIZE by decide) (show 513 ≤ DATA_SIZE by decide)
  refine ⟨hok, fun r => (fsFlush_inside (fun i _ => hok i) _).1 r.inside fun i => ?_⟩
  unfold sampleFiles
  split <;> exact ⟨rfl, by decide⟩

end MiniKvm.Os1k
