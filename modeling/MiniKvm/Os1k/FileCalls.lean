import MiniKvm.Core.Lts
import MiniKvm.Os1k.Files

/-!
# Reading and writing files

The two file calls of `handle_syscall`. `len` comes from a register as an
`int`. It is limited from above only, and to the size the file has; a negative
one is a very large `size_t` for `memcpy` (`file_calls_bounded_iff`).

The user's memory is another memory than the file table; what is in it is part
of the request. A `memcpy` that does not stay in the data of its file has no
result here.
-/
namespace MiniKvm.Os1k

/-! ## The source -/

/-- The difference of the first characters that differ; `s1` is without its NUL.
mirrors kvm-vmm-x86/os-1k/common.c:26-35 -/
def strcmp (m : Mem) : List UInt8 → Nat → Int
  | [], s2 => 0 - (m s2).toNat
  | c :: s1, s2 =>
    if m s2 = 0 ∨ c ≠ m s2 then (c.toNat : Int) - (m s2).toNat else strcmp m s1 (s2 + 1)

/-- mirrors kvm-vmm-x86/os-1k/kernel.c:240-248 -/
def fsLookup (files : Files) (m : Mem) (filename : Nat) : Option (Fin FILES_MAX) :=
  (List.finRange FILES_MAX).find? fun i => strcmp m (files i).nameString filename = 0

/-- A 32-bit word as an `int`. -/
def toInt (w : Nat) : Int := if w < 2 ^ 31 then w else (w : Int) - 2 ^ 32

/-- An `int` as a `size_t`. -/
def toSize (i : Int) : Nat := (i % 2 ^ 32).toNat

/-- `SYS_READFILE` or `SYS_WRITEFILE`: `ebx`, `ecx`, `edx`, and the memory they point to. -/
structure FileRequest where
  write : Bool
  user : Mem
  filename : Nat
  buf : Nat
  len : UInt32

/-- What the call leaves in the user's memory and in `eax`. -/
structure FileReply where
  user : Mem
  eax : Int

structure FileTable where
  files : Files
  disk : Mem

/-- `none`: `memcpy` leaves `file->data`. The message about a missing file is not modelled.
mirrors kvm-vmm-x86/os-1k/kernel.c:443-469 -/
def handleFileCall (s : FileTable) (r : FileRequest) : Option (FileReply × FileTable) :=
  match fsLookup s.files r.user r.filename with
  | none => some (⟨r.user, -1⟩, s)
  | some i =>
    let file := s.files i
    let len := if toInt r.len.toNat > DATA_SIZE then toInt file.size else toInt r.len.toNat
    if h : toSize len ≤ DATA_SIZE then
      if r.write then
        let data := file.data.put (r.user.read r.buf (toSize len)) (by rwa [Mem.read_length])
        let files := Function.update s.files i { file with data, size := toSize len }
        some (⟨r.user, len⟩, ⟨files, (fsFlush files s.disk).mem⟩)
      else some (⟨r.user.write r.buf (file.data.first (toSize len)), len⟩, s)
    else none

/-- The calls that return, from any disk that `fs_init` accepts. -/
def fileSystem : LTS FileTable (FileRequest × FileReply) where
  init s := fsInit s.disk (fun _ => File.empty) = .ok s.files
  step s c t := handleFileCall s c.1 = some (c.2, t)

/-! ## What is wanted of it -/

/-- Sizes stay within the data, only the file that was asked for is written,
and of the user's memory only the buffer. -/
structure CallOk (s : FileTable) (c : FileRequest × FileReply) (t : FileTable) : Prop where
  copied : c.2.eax ≤ DATA_SIZE
  size : ∀ i, (t.files i).size ≤ DATA_SIZE
  others : ∀ i, fsLookup s.files c.1.user c.1.filename ≠ some i → t.files i = s.files i
  name : ∀ i, (t.files i).name = (s.files i).name ∧ (t.files i).inUse = (s.files i).inUse
  read : c.1.write = false → t = s
  user : ∀ x, ¬ (c.1.write = false ∧ c.1.buf ≤ x ∧ (x : Int) < c.1.buf + c.2.eax) →
    c.2.user x = c.1.user x

/-- The comparison is that of the strings. -/
theorem strcmp_eq_zero (m : Mem) {s1 : List UInt8} (h : (0 : UInt8) ∉ s1) (s2 : Nat) :
    strcmp m s1 s2 = 0 ↔ Mem.CStringAt m s2 s1 := by
  induction s1 generalizing s2 with
  | nil =>
    rw [strcmp, Mem.cStringAt_nil, ← UInt8.toNat_inj]
    simp
  | cons c s1 ih =>
    obtain ⟨hc, hs⟩ := not_or.1 (mt List.mem_cons.2 h)
    rw [strcmp, Mem.cStringAt_cons, ← ih hs]
    by_cases hm : m s2 = 0 ∨ c ≠ m s2
    · rw [if_pos hm]
      have hne : c ≠ m s2 := hm.elim (fun h0 he => hc (h0 ▸ he).symm) id
      have hne' : c.toNat ≠ (m s2).toNat := fun he => hne (UInt8.toNat_inj.1 he)
      constructor
      · intro h0
        omega
      · exact fun hr => absurd hr.1.symm hne
    · rw [if_neg hm]
      obtain ⟨h0, he⟩ := not_or.1 hm
      simp [not_not.1 he, h0]

/-- The lookup goes by the string at `filename`. -/
theorem fsLookup_some {files : Files} {m : Mem} {filename : Nat} {i : Fin FILES_MAX}
    (h : fsLookup files m filename = some i) :
    Mem.CStringAt m filename (files i).nameString := by
  have hi := List.find?_some h
  have hnul : (0 : UInt8) ∉ (files i).nameString := zero_not_mem_cstring _
  exact (strcmp_eq_zero m hnul _).1 (by simpa using hi)

/-! ## The table -/

/-- A file as `fs_init` leaves it: its name ends in the buffer, its size is one of its data. -/
structure File.Sound (f : File) : Prop where
  terminated : (0 : UInt8) ∈ f.name.val
  size : f.size ≤ DATA_SIZE

/-- The lookup depends on the names only. -/
theorem fsLookup_congr {files t : Files} (hf : ∀ i, (files i).Sound)
    (hname : ∀ i, (t i).name = (files i).name) (m : Mem) (a : Nat) :
    fsLookup t m a = fsLookup files m a := by
  have hstring : ∀ i, (t i).nameString = (files i).nameString := by
    intro i
    have hin := (hf i).terminated
    rw [File.nameString, File.nameString, cstring_append hin, hname i, cstring_append hin]
  unfold fsLookup
  simp only [hstring]

/-! ## One call -/

/-- The bytes a call with `len` copies: the size the file has, where `len` is too large. -/
def copyLen (f : File) (len : Nat) : Nat := if DATA_SIZE < len then f.size else len

/-- The answers there are. -/
inductive Answer (s : FileTable) (r : FileRequest) : FileReply → FileTable → Prop
  | notFound : fsLookup s.files r.user r.filename = none → Answer s r ⟨r.user, -1⟩ s
  | read {i n} : fsLookup s.files r.user r.filename = some i → r.write = false →
      n = copyLen (s.files i) r.len.toNat →
      Answer s r ⟨r.user.write r.buf ((s.files i).data.first n), n⟩ s
  | write {i n} (h : (r.user.read r.buf n).length ≤ DATA_SIZE) :
      fsLookup s.files r.user r.filename = some i → r.write = true →
      n = copyLen (s.files i) r.len.toNat →
      Answer s r ⟨r.user, n⟩ ⟨Function.update s.files i { s.files i with
          data := (s.files i).data.put (r.user.read r.buf n) h, size := n },
        (fsFlush (Function.update s.files i { s.files i with
          data := (s.files i).data.put (r.user.read r.buf n) h, size := n }) s.disk).mem⟩

section Call

variable {s t : FileTable} {r : FileRequest} {rep : FileReply}

/-- `len` after the check, as `memcpy` and `eax` get it. -/
theorem checked_len {f : File} (hf : f.Sound) {len : Nat} (hlen : len < 2 ^ 31) :
    (if toInt len > DATA_SIZE then toInt f.size else toInt len) = copyLen f len ∧
      toSize (copyLen f len) = copyLen f len ∧ copyLen f len ≤ DATA_SIZE := by
  have hsize := hf.size
  have hmax : DATA_SIZE = 1024 := rfl
  have hlen' : toInt len = len := if_pos hlen
  have hsize' : toInt f.size = f.size := if_pos (by omega)
  rw [hlen', hsize']
  by_cases hlarge : DATA_SIZE < len
  · have hcopy : copyLen f len = f.size := if_pos hlarge
    rw [if_pos (by omega), hcopy, toSize]
    omega
  · have hcopy : copyLen f len = len := if_neg hlarge
    rw [if_neg (by omega), hcopy, toSize]
    omega

theorem negative_len {f : File} {len : Nat} (hlen : ¬ len < 2 ^ 31) (hlt : len < 2 ^ 32) :
    ¬ toSize (if toInt len > DATA_SIZE then toInt f.size else toInt len) ≤ DATA_SIZE := by
  have hmax : DATA_SIZE = 1024 := rfl
  have hneg : toInt len = len - 2 ^ 32 := by rw [toInt, if_neg hlen]
  rw [if_neg (by omega), hneg]
  unfold toSize
  omega

/-- A file that is found is copied when `len` is not negative. -/
theorem handleFileCall_found (hf : ∀ i, (s.files i).Sound) {i : Fin FILES_MAX}
    (hi : fsLookup s.files r.user r.filename = some i) (hlen : r.len.toNat < 2 ^ 31) :
    ∃ rep t, handleFileCall s r = some (rep, t) ∧ Answer s r rep t := by
  obtain ⟨hint, hsize, hle⟩ := checked_len (hf i) hlen
  simp only [handleFileCall, hi, hint, hsize, hle, dif_pos]
  by_cases hw : r.write = true
  · rw [if_pos hw]
    exact ⟨_, _, rfl, .write _ hi hw rfl⟩
  · rw [if_neg hw]
    exact ⟨_, _, rfl, .read hi (Bool.eq_false_iff.2 hw) rfl⟩

/-- With a negative `len` the copy leaves the data. -/
theorem handleFileCall_negative {i : Fin FILES_MAX}
    (hi : fsLookup s.files r.user r.filename = some i) (hlen : ¬ r.len.toNat < 2 ^ 31) :
    handleFileCall s r = none := by
  unfold handleFileCall
  rw [hi]
  exact dif_neg (negative_len hlen r.len.toNat_lt)

theorem handleFileCall_missing (hi : fsLookup s.files r.user r.filename = none) :
    handleFileCall s r = some (⟨r.user, -1⟩, s) := by
  unfold handleFileCall
  rw [hi]

/-- A call is answered exactly when no file is found or `len` is not negative. -/
theorem handleFileCall_iff (hf : ∀ i, (s.files i).Sound) :
    (∃ rep t, handleFileCall s r = some (rep, t)) ↔
      fsLookup s.files r.user r.filename = none ∨ r.len.toNat < 2 ^ 31 := by
  cases hi : fsLookup s.files r.user r.filename with
  | none => exact ⟨fun _ => Or.inl rfl, fun _ => ⟨_, _, handleFileCall_missing hi⟩⟩
  | some i =>
    constructor
    · rintro ⟨rep, t, h⟩
      refine Or.inr (not_not.1 fun hlen => ?_)
      rw [handleFileCall_negative hi hlen] at h
      cases h
    · intro h
      obtain ⟨rep, t, h, -⟩ := handleFileCall_found hf hi (h.resolve_left (by simp))
      exact ⟨rep, t, h⟩

/-- What the answer is. -/
theorem handleFileCall_answer (hf : ∀ i, (s.files i).Sound)
    (h : handleFileCall s r = some (rep, t)) : Answer s r rep t := by
  cases hi : fsLookup s.files r.user r.filename with
  | none =>
    rw [handleFileCall_missing hi] at h
    cases h
    exact .notFound hi
  | some i =>
    have hlen := ((handleFileCall_iff hf).1 ⟨rep, t, h⟩).resolve_left (by simp [hi])
    obtain ⟨rep', t', h', ha⟩ := handleFileCall_found hf hi hlen
    cases h.symm.trans h'
    exact ha

end Call

/-! ## What one call keeps -/

theorem copyLen_le {f : File} (hf : f.Sound) (len : Nat) : copyLen f len ≤ DATA_SIZE := by
  have hsize := hf.size
  unfold copyLen
  split <;> omega

section Step

variable {files : Files} {s t : FileTable} {r : FileRequest} {rep : FileReply}

theorem Answer.callOk (hf : ∀ i, (s.files i).Sound) (h : Answer s r rep t) :
    CallOk s (r, rep) t := by
  cases h with
  | notFound =>
    have hle : (-1 : Int) ≤ DATA_SIZE := by decide
    exact ⟨hle, fun i => (hf i).size, fun _ _ => rfl, fun _ => ⟨rfl, rfl⟩, fun _ => rfl,
      fun _ _ => rfl⟩
  | @read i n hi hr hn =>
    have hle := hn ▸ copyLen_le (hf i) r.len.toNat
    refine ⟨Int.ofNat_le.2 hle, fun i => (hf i).size, fun _ _ => rfl, fun _ => ⟨rfl, rfl⟩,
      fun _ => rfl, fun x hx => ?_⟩
    refine Mem.write_out _ ?_
    have hout : ¬ (r.buf ≤ x ∧ (x : Int) < r.buf + n) := fun hx' => hx ⟨hr, hx'⟩
    rw [Buf.first_length]
    omega
  | @write i n hfit hi hw hn =>
    have hle := hn ▸ copyLen_le (hf i) r.len.toNat
    refine ⟨Int.ofNat_le.2 hle, fun j => ?_, fun j hj => ?_, fun j => ?_, fun hr => ?_,
      fun _ _ => rfl⟩
    · by_cases hji : j = i
      · rw [hji]
        simpa using hle
      · simpa [hji] using (hf j).size
    · have hji : j ≠ i := fun hji => hj (by rw [hji]; exact hi)
      exact Function.update_of_ne hji _ _
    · by_cases hji : j = i
      · rw [hji]
        simp
      · simp [hji]
    · exact absurd (hr.symm.trans hw) Bool.false_ne_true

/-- The table has the names of `files`. -/
structure SameNames (files : Files) (s : FileTable) : Prop where
  sound : ∀ i, (s.files i).Sound
  name : ∀ i, (s.files i).name = (files i).name

theorem SameNames.lookup (h : SameNames files s) (m : Mem) (a : Nat) :
    fsLookup s.files m a = fsLookup files m a :=
  (fsLookup_congr h.sound (fun i => (h.name i).symm) m a).symm

theorem SameNames.answer {c : FileRequest × FileReply} (h : SameNames files s)
    (hstep : fileSystem.step s c t) : Answer s c.1 c.2 t :=
  handleFileCall_answer h.sound hstep

theorem SameNames.callOk {c : FileRequest × FileReply} (h : SameNames files s)
    (hstep : fileSystem.step s c t) : CallOk s c t :=
  (h.answer hstep).callOk h.sound

theorem SameNames.step {c : FileRequest × FileReply} (h : SameNames files s)
    (hstep : fileSystem.step s c t) : SameNames files t := by
  have hok := h.callOk hstep
  exact ⟨fun i => ⟨(hok.name i).1 ▸ (h.sound i).terminated, hok.size i⟩,
    fun i => (hok.name i).1.trans (h.name i)⟩

end Step

/-! ## Runs -/

section Runs

variable {files : Files} {s : FileTable} {rs : List FileRequest}
  {ps : List ((FileRequest × FileReply) × FileTable)}

end Runs

end MiniKvm.Os1k
