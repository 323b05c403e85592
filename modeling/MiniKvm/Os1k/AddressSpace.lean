import MiniKvm.Os1k.Process
import MiniKvm.Vmm.Tables

/-!
# Address spaces and the allocator

The walk from the directory of a created process, for every 32-bit address
(`create_process_address_space`): both kernel regions as the VMM has mapped
them, the image with zeros behind it, and nothing else. That no two processes
share a user page, or a user page and a table, is carried through a history of
calls by `Separate`.

The allocator knows nothing of the tables the VMM has put at 1 MiB and is
walking: `allocations_spare_vmm_tables_iff` says for which kernels and which
images it never hands them out.
-/
namespace MiniKvm.Os1k

open Paging

/-- What kernel.ld promises: `procs` is part of the kernel, which ends where
free RAM begins, on a page boundary. -/
structure Layout.Linked (l : Layout) : Prop where
  procs : KERNEL_BASE + 0x1000 ≤ l.procs
  fits : l.procs + PROC_SIZE * PROCS_MAX ≤ l.freeRam
  aligned : l.freeRam % 4096 = 0
  below : l.freeRam ≤ FREE_RAM_END

/-- Where free RAM begins in physical memory. -/
def Layout.ramStart (l : Layout) : Nat := l.freeRam - KERNEL_BASE

theorem Layout.Linked.freeRam_eq {l : Layout} (h : l.Linked) :
    l.freeRam = l.ramStart + KERNEL_BASE := by
  have h1 := h.procs
  have h2 := h.fits
  unfold Layout.ramStart
  omega

theorem Layout.Linked.ramStart_mod {l : Layout} (h : l.Linked) : l.ramStart % 4096 = 0 := by
  have hram := h.freeRam_eq
  have hal := h.aligned
  rw [KERNEL_BASE_eq] at hram
  omega

/-- Every stack of `procs` ends in the kernel. -/
theorem Layout.Linked.stackTop {l : Layout} (hl : l.Linked) (i : Fin PROCS_MAX) :
    KERNEL_BASE + 0x1000 + PROC_SIZE ≤ stackTop l i ∧ stackTop l i ≤ l.freeRam := by
  have h1 := hl.procs
  have h2 := hl.fits
  have hi : i.val < 8 := i.isLt
  simp only [PROCS_MAX, PROC_SIZE] at h2
  unfold Os1k.stackTop
  simp only [PROC_SIZE, STACK_OFF, STACK_SIZE]
  omega

/-- The initial frame lies below free RAM. -/
theorem pushInitialFrame_out {l : Layout} (hl : l.Linked) (i : Fin PROCS_MAX) (m : Mem) {x : Nat}
    (hx : l.ramStart ≤ x) : (pushInitialFrame l i m).1 x = m x := by
  have hram := hl.freeRam_eq
  obtain ⟨h1, h2⟩ := hl.stackTop i
  have hle : stackTop l i ≤ x + KERNEL_BASE := by omega
  simp only [KERNEL_BASE_eq, PROC_SIZE] at h1
  rw [pushInitialFrame_eq]
  refine pushWords_out _ _ ?_ (Or.inr hle)
  simp only [KERNEL_BASE_eq, List.length_cons, List.length_nil]
  omega

/-! ## One address space -/

/-- Bytes of the user region that are mapped, for an image of `size` bytes. -/
def userBytes (size : Nat) : Nat := max (pagesOf size * 4096) 0x4000

/-- The kernel maps its first 4 MiB here. -/
def IsKernelBase (base : Nat) : Prop := base = KERNEL_BASE ∨ base = 0

/-- What the processor translates to what with the directory at `d`. -/
structure AddressSpace (image : List UInt8) (m : Mem) (d : Nat) : Prop where
  kernel : ∀ x < 0x400000, ∀ base, IsKernelBase base → ∃ w, walk32 m d (base + x) = some w ∧
    w.pa = x ∧ w.Writable ∧ ¬ user w.leaf
  asVmm : ∀ mv, Vmm.Tables32 mv → ∀ x < 0x400000, ∀ base, IsKernelBase base →
    (walk32 m d (base + x)).map (fun w => (w.pa, w.leaf)) =
      (walk32 mv 0x100000 (base + x)).map fun w => (w.pa, w.leaf)
  bytes : ∀ off (h : off < image.length), ∃ w, walk32 m d (USER_BASE + off) = some w ∧ w.User ∧
    w.Writable ∧
    m w.pa = image[off]
  lastPage : ∀ off, image.length ≤ off → off < pagesOf image.length * 4096 →
    ∃ w, walk32 m d (USER_BASE + off) = some w ∧ w.User ∧ w.Writable ∧ m w.pa = 0
  stack : ∀ off, pagesOf image.length * 4096 ≤ off → off < 0x4000 →
    ∃ w, walk32 m d (USER_BASE + off) = some w ∧ w.User ∧ w.Writable ∧ m w.pa = 0
  nothing : ∀ va < 2 ^ 32, ¬ va < 0x400000 → ¬ (KERNEL_BASE ≤ va ∧ va < KERNEL_BASE + 0x400000) →
    ¬ (USER_BASE ≤ va ∧ va < USER_BASE + userBytes image.length) → walk32 m d va = none

section Walk

variable {l : Layout} {image : List UInt8} {n : Nat} {i : Fin PROCS_MAX} {s t : Os}

theorem Created.walk (c : Created l image n i s t) {va : Nat} (hva : va < 2 ^ 32) :
    walk32 t.mem n va =
      if present (processLeaf n (userPages image.length) (va / 4096)) then
        some ⟨frame32 (processLeaf n (userPages image.length) (va / 4096)) + va % 4096,
          [processEntry n (userPages image.length) (va / 2 ^ 22)],
          processLeaf n (userPages image.length) (va / 4096)⟩
      else none := by
  have hleaf : leaf32 t.mem n va = _ := c.space.leaf va hva
  have hentry : entry32 t.mem n (va / 2 ^ 22) = _ := c.space.entry _ (by omega)
  rw [walk32_eq_entry t.mem c.space.dir.aligned hva, hleaf, hentry]

theorem processLeaf_kernel (n j : Nat) {p : Nat} (h : p / 1024 = 0 ∨ p / 1024 = 512) :
    processLeaf n j p = Vmm.ptWord (p % 1024) := if_pos h

theorem ptWord_frame {k : Nat} : frame32 (Vmm.ptWord k) = k * 4096 := by
  unfold frame32 Vmm.ptWord
  omega

theorem ptWord_flags (k : Nat) :
    present (Vmm.ptWord k) ∧ writable (Vmm.ptWord k) ∧ ¬ user (Vmm.ptWord k) := by
  unfold present writable user Vmm.ptWord
  omega

theorem processEntry_flags {n j k : Nat} (hn : n % 4096 = 0)
    (hk : k = 0 ∨ k = 512 ∨ k = 4 ∧ j ≠ 0) :
    writable (processEntry n j k) ∧ user (processEntry n j k) := by
  have h7 : ∀ p, p % 4096 = 0 → writable (p + 7) ∧ user (p + 7) := fun p hp => by
    unfold writable user
    omega
  unfold processEntry
  split
  · exact h7 _ (by omega)
  · split
    · exact h7 _ (by omega)
    · rw [if_pos (by omega)]
      exact h7 _ (by omega)

theorem Created.walk_kernel (c : Created l image n i s t) {x base : Nat} (hx : x < 0x400000)
    (hb : IsKernelBase base) :
    ∃ e, walk32 t.mem n (base + x) = some ⟨x, [e], Vmm.ptWord (x / 4096)⟩ ∧ writable e := by
  have hn := c.space.dir.aligned
  rcases hb with rfl | rfl
  · have hkb := KERNEL_BASE_eq
    have hreg : (KERNEL_BASE + x) / 4096 / 1024 = 512 := by omega
    have hpage : (KERNEL_BASE + x) / 4096 % 1024 = x / 4096 := by omega
    have hidx : (KERNEL_BASE + x) / 2 ^ 22 = 512 := by omega
    refine ⟨processEntry n (userPages image.length) 512, ?_,
      (processEntry_flags hn (Or.inr (Or.inl rfl))).1⟩
    · rw [c.walk (by omega), processLeaf_kernel _ _ (Or.inr hreg), hpage, if_pos (ptWord_flags _).1,
        ptWord_frame, hidx]
      congr 2
      omega
  · have hreg : (0 + x) / 4096 / 1024 = 0 := by omega
    have hpage : (0 + x) / 4096 % 1024 = x / 4096 := by omega
    have hidx : (0 + x) / 2 ^ 22 = 0 := by omega
    refine ⟨processEntry n (userPages image.length) 0, ?_, (processEntry_flags hn (Or.inl rfl)).1⟩
    · rw [c.walk (by omega), processLeaf_kernel _ _ (Or.inl hreg), hpage, if_pos (ptWord_flags _).1,
        ptWord_frame, hidx]
      congr 2
      omega

theorem userPages_eq (size : Nat) : userPages size * 4096 = userBytes size := by
  unfold userPages userBytes
  omega

/-- There are fewer user pages than one table has entries. -/
theorem Created.userPages_lt (c : Created l image n i s t) : userPages image.length < 1020 := by
  have hb := c.space.bound
  simp only [userPage, RAM_END] at hb
  split at hb <;> omega

theorem userPage_mod {n : Nat} (hn : n % 4096 = 0) (j : Nat) : userPage n j % 4096 = 0 := by
  unfold userPage
  split <;> omega

theorem processLeaf_user (n : Nat) {j k : Nat} (hk : k < j) (hj : j < 1020) :
    processLeaf n j (0x1000 + k) = userPage n k + 7 := by
  rw [processLeaf, if_neg (by omega), if_pos (by omega), Nat.add_sub_cancel_left]

/-- User byte `off` is mapped to its place in the pages that were filled. -/
theorem Created.walk_user (c : Created l image n i s t) {off : Nat}
    (hoff : off < userBytes image.length) :
    ∃ w, walk32 t.mem n (USER_BASE + off) = some w ∧ w.User ∧ w.Writable ∧ t.mem w.pa =
      imageByte image off := by
  have hn := c.space.dir.aligned
  have hlt := c.userPages_lt
  have hk : off / 4096 < userPages image.length := by
    rw [← userPages_eq] at hoff
    omega
  have hpage : (USER_BASE + off) / 4096 = 0x1000 + off / 4096 := by
    simp only [USER_BASE]
    omega
  have hidx : (USER_BASE + off) / 2 ^ 22 = 4 := by
    simp only [USER_BASE]
    omega
  have hmod := userPage_mod hn (off / 4096)
  have hpres : present (userPage n (off / 4096) + 7) := present_new hmod
  have hflags : writable (userPage n (off / 4096) + 7) ∧ user (userPage n (off / 4096) + 7) := by
    unfold writable user
    omega
  have hentry :=
    processEntry_flags (k := 4) (j := userPages image.length) hn (Or.inr (Or.inr ⟨rfl, by omega⟩))
  have hva : USER_BASE + off < 2 ^ 32 := by
    simp only [USER_BASE]
    omega
  refine ⟨⟨userPage n (off / 4096) + off % 4096, [processEntry n (userPages image.length) 4],
    userPage n (off / 4096) + 7⟩, ?_, ?_, ?_, ?_⟩
  · rw [c.walk hva, hpage, processLeaf_user n hk hlt, if_pos hpres, frame32_new hmod, hidx]
    congr 2
    simp only [USER_BASE]
    omega
  · simpa [Xlat.User] using ⟨hentry.2, hflags.2⟩
  · simpa [Xlat.Writable] using ⟨hentry.1, hflags.1⟩
  · have hcontent := c.space.content (off / 4096) hk (off % 4096) (Nat.mod_lt _ (by decide))
    rw [Nat.div_add_mod' off 4096] at hcontent
    exact hcontent

/-- The walk from a created directory, range by range. -/
theorem Created.addressSpace (c : Created l image n i s t) : AddressSpace image t.mem n := by
  have hlt := c.userPages_lt
  refine ⟨fun x hx base hb => ?_, fun mv hmv x hx base hb => ?_, fun off h => ?_,
    fun off h1 h2 => ?_,
    fun off h1 h2 => ?_, fun va hva hlow hhigh huser => ?_⟩
  · obtain ⟨e, hw, hwr⟩ := c.walk_kernel hx hb
    have hflags := ptWord_flags (x / 4096)
    exact ⟨_, hw, rfl, by simpa [Xlat.Writable] using ⟨hwr, hflags.2.1⟩, hflags.2.2⟩
  · obtain ⟨e, hw, -⟩ := c.walk_kernel hx hb
    rw [hw]
    rcases hb with rfl | rfl
    · rw [KERNEL_BASE_eq, Vmm.walk32_tables hmv _ (by omega), if_neg (by omega), if_pos (by omega),
        Nat.add_sub_cancel_left]
      rfl
    · rw [Nat.zero_add, Vmm.walk32_tables hmv _ (by omega), if_pos hx]
      rfl
  · have hlen : off < userBytes image.length := by
      simp only [userBytes, pagesOf, PAGE_SIZE]
      omega
    obtain ⟨w, hw, hu, hwr, hb⟩ := c.walk_user hlen
    refine ⟨w, hw, hu, hwr, hb.trans ?_⟩
    rw [imageByte, List.getD_eq_getElem?_getD, List.getElem?_eq_getElem h, Option.getD_some]
  · obtain ⟨w, hw, hu, hwr, hb⟩ :=
      c.walk_user (show off < userBytes image.length by unfold userBytes; omega)
    refine ⟨w, hw, hu, hwr, hb.trans ?_⟩
    rw [imageByte, List.getD_eq_getElem?_getD, List.getElem?_eq_none h1, Option.getD_none]
  · obtain ⟨w, hw, hu, hwr, hb⟩ :=
      c.walk_user (show off < userBytes image.length by unfold userBytes; omega)
    exact ⟨w, hw, hu, hwr, hb.trans (imageByte_behind h1)⟩
  · rw [← userPages_eq] at huser
    simp only [KERNEL_BASE_eq, USER_BASE] at hhigh huser
    have hzero : processLeaf n (userPages image.length) (va / 4096) = 0 := by
      rw [processLeaf, if_neg (by omega), if_neg (by omega)]
    rw [c.walk hva, hzero]
    rfl

end Walk

/-! ## All of them -/

/-- Every used process has its tables and its user pages in the memory handed
out so far, `[l.ramStart, hi)`. -/
structure Separate (l : Layout) (hi : Nat) (s : Os) : Prop where
  next : s.nextPaddr = hi + KERNEL_BASE
  start_le : l.ramStart ≤ hi
  aligned : hi % 4096 = 0
  bound : hi ≤ RAM_END
  dir : ∀ j, (s.procs j).state ≠ .unused → Dir s.mem l.ramStart hi (s.procs j).pageTable
  user : ∀ j, (s.procs j).state ≠ .unused →
    ∀ va < 2 ^ 32, user (leaf32 s.mem (s.procs j).pageTable va) →
    l.ramStart ≤ frame32 (leaf32 s.mem (s.procs j).pageTable va) ∧
      frame32 (leaf32 s.mem (s.procs j).pageTable va) + 4096 ≤ hi
  allocated : s.allocated = pagesFrom l.ramStart hi

theorem separate_boot {l : Layout} (hl : l.Linked) (m : Mem) :
    Separate l l.ramStart (Os.boot l m) := by
  have hram := hl.freeRam_eq
  have hal := hl.aligned
  have hend := hl.below
  simp only [FREE_RAM_END] at hend
  rw [KERNEL_BASE_eq] at hram
  refine ⟨hl.freeRam_eq, Nat.le_refl _, by omega, ?_, fun j hj => absurd rfl hj,
    fun j hj => absurd rfl hj, ?_⟩
  · simp only [RAM_END]
    omega
  · simp [pagesFrom, Os.boot]

section Create

variable {l : Layout} {image : List UInt8} {n : Nat} {i : Fin PROCS_MAX} {s t : Os}

/-- The new process is in the slot that was unused, the others are as they were. -/
theorem Created.procs_self (c : Created l image n i s t) : (t.procs i).pageTable = n := by
  rw [c.procs, Function.update_self]

theorem Created.procs_other (c : Created l image n i s t) {j : Fin PROCS_MAX} (hj : j ≠ i) :
    t.procs j = s.procs j := by
  rw [c.procs, Function.update_of_ne hj]

/-- Memory handed out before the call is left alone. -/
theorem Created.mem_old (c : Created l image n i s t) (hl : l.Linked) {x : Nat}
    (h1 : l.ramStart ≤ x) (h2 : x < n) :
    t.mem x = s.mem x := (c.space.low x h2).trans (pushInitialFrame_out hl i s.mem h1)

/-- A user page of the new process lies in new memory and is none of its tables. -/
theorem Created.user_frame (c : Created l image n i s t) {va : Nat} (hva : va < 2 ^ 32)
    (hu : user (leaf32 t.mem n va)) :
    ∃ k < userPages image.length, va / 4096 = 0x1000 + k ∧ frame32 (leaf32 t.mem n va) =
      userPage n k := by
  have hleaf : leaf32 t.mem n va = _ := c.space.leaf va hva
  have hmod := userPage_mod c.space.dir.aligned
  rw [hleaf] at hu ⊢
  unfold processLeaf at hu ⊢
  split
  · rename_i hk
    rw [if_pos hk] at hu
    exact absurd hu (ptWord_flags _).2.2
  · rename_i hk
    rw [if_neg hk] at hu
    split
    · rename_i hin
      exact ⟨_, by omega, by omega, frame32_new (hmod _)⟩
    · rename_i hin
      rw [if_neg hin] at hu
      exact absurd hu (by decide)

theorem userPage_bounds (n : Nat) {j k : Nat} (hjk : j < k) :
    n + 0x3000 ≤ userPage n j ∧ userPage n j + 4096 ≤ userPage n k ∧
      (userPage n j + 4096 ≤ n + 0x4000 ∨ n + 0x5000 ≤ userPage n j) := by
  unfold userPage
  split <;> split <;> omega

/-- A call keeps them apart. -/
theorem Created.separate (c : Created l image n i s t) (hl : l.Linked) (h : Separate l n s) :
    Separate l (userPage n (userPages image.length)) t := by
  have hn : n ≤ userPage n (userPages image.length) := by
    unfold userPage
    split <;> omega
  have hle := h.start_le
  refine ⟨c.space.next, Nat.le_trans hle hn, c.space.aligned, c.space.bound, fun j hj => ?_,
    fun j hj va hva hu => ?_,
    ?_⟩
  · by_cases hji : j = i
    · subst hji
      rw [c.procs_self]
      have hd : Dir t.mem n _ n := c.space.dir
      exact ⟨hd.aligned, hle, hd.le_hi, fun k hk hp => by have := hd.table k hk hp; omega, hd.apart⟩
    · rw [c.procs_other hji] at hj ⊢
      exact (h.dir j hj).congr (fun x h1 h2 => c.mem_old hl h1 h2) hn
  · by_cases hji : j = i
    · subst hji
      rw [c.procs_self] at hu ⊢
      obtain ⟨k, hk, -, hf⟩ := c.user_frame hva hu
      have := userPage_bounds n hk
      omega
    · rw [c.procs_other hji] at hj hu ⊢
      rw [(h.dir j hj).leaf_congr (fun x h1 h2 => c.mem_old hl h1 h2) hva] at hu ⊢
      have := h.user j hj va hva hu
      omega
  · have hal := c.space.aligned
    have hal' := h.aligned
    have hstart := hl.ramStart_mod
    have halloc : t.allocated = s.allocated ++ pagesFrom n (userPage n (userPages image.length)) :=
      c.space.allocated
    rw [halloc, h.allocated]
    exact pagesFrom_append hle hn (by omega) (by omega)

/-- The frames behind the user pages of the process in slot `i`: one page each,
none that another process has, and none that is a directory or a table. -/
structure OwnFrames (t : Os) (i : Fin PROCS_MAX) : Prop where
  pairwise : ∀ va < 2 ^ 32, ∀ va' < 2 ^ 32, ∀ w w', walk32 t.mem (t.procs i).pageTable va = some w →
    user w.leaf →
    walk32 t.mem (t.procs i).pageTable va' = some w' → user w'.leaf →
      frame32 w.leaf = frame32 w'.leaf →
    va / 4096 = va' / 4096
  others : ∀ j ≠ i, (t.procs j).state ≠ .unused → ∀ va < 2 ^ 32, ∀ va' < 2 ^ 32, ∀ w w',
    walk32 t.mem (t.procs i).pageTable va = some w → user w.leaf →
    walk32 t.mem (t.procs j).pageTable va' = some w' → user w'.leaf →
      frame32 w.leaf ≠ frame32 w'.leaf
  tables : ∀ j, (t.procs j).state ≠ .unused →
    ∀ va < 2 ^ 32, ∀ w, walk32 t.mem (t.procs i).pageTable va = some w →
    user w.leaf → ¬ Owns t.mem (t.procs j).pageTable (frame32 w.leaf)

theorem walk32_leaf {m : Mem} {cr3 va : Nat} {w : Xlat} (h : walk32 m cr3 va = some w) :
    w.leaf = leaf32 m cr3 va := by
  rw [walk32_eq_leaf] at h
  split at h
  · rw [← Option.some.inj h]
  · exact absurd h (by simp)

theorem Created.ownFrames (c : Created l image n i s t) (hl : l.Linked) (h : Separate l n s) :
    OwnFrames t i := by
  have hn := c.space.dir.aligned
  have hstart := h.start_le
  refine ⟨fun va hva va' hva' w w' hw hu hw' hu' he => ?_,
    fun j hj hs va hva va' hva' w w' hw hu hw' hu' => ?_,
    fun j hs va hva w hw hu hown => ?_⟩
  · rw [c.procs_self] at hw hw'
    rw [walk32_leaf hw] at hu he
    rw [walk32_leaf hw'] at hu' he
    obtain ⟨k, hk, hp, hf⟩ := c.user_frame hva hu
    obtain ⟨k', hk', hp', hf'⟩ := c.user_frame hva' hu'
    rw [hf, hf'] at he
    rcases Nat.lt_trichotomy k k' with hlt | heq | hlt
    · have := userPage_bounds n hlt
      omega
    · omega
    · have := userPage_bounds n hlt
      omega
  · rw [c.procs_self] at hw
    rw [c.procs_other hj] at hs hw'
    rw [walk32_leaf hw] at hu ⊢
    rw [walk32_leaf hw'] at hu' ⊢
    rw [(h.dir j hs).leaf_congr (fun x h1 h2 => c.mem_old hl h1 h2) hva'] at hu' ⊢
    obtain ⟨k, hk, -, hf⟩ := c.user_frame hva hu
    have hnew := userPage_bounds n hk
    have hold := h.user j hs va' hva' hu'
    omega
  · rw [c.procs_self] at hw
    rw [walk32_leaf hw] at hu hown
    obtain ⟨k, hk, -, hf⟩ := c.user_frame hva hu
    have hnew := userPage_bounds n hk
    rw [hf] at hown
    by_cases hji : j = i
    · subst hji
      rw [c.procs_self] at hown
      have hnot := userPage_not_owned (i := k) (o := 0) hn c.space.entry (by decide)
      exact hnot hown
    · rw [c.procs_other hji] at hs hown
      have hd := h.dir j hs
      have hhi := hd.le_hi
      rcases hown with hin | ⟨e, he, hp, h1, h2⟩
      · omega
      · rw [hd.entry_congr (fun x h1 h2 => c.mem_old hl h1 h2) he] at hp h1 h2
        have := hd.table e he hp
        omega

end Create

/-- Processes stay separate when another one is created. -/
theorem createProcess_separate {l : Layout} (hl : l.Linked) (image : List UInt8) :
    Keeps (fun s => ∃ hi, Separate l hi s) (createProcess l image) := by
  rintro s ⟨n, h⟩
  exact wp_mono (createProcess_wp l image s n h.next h.aligned h.bound)
    (fun _ _ c => ⟨_, c.separate hl h⟩) fun _ _ _ => trivial

theorem createAll_separate {l : Layout} (hl : l.Linked) (images : List (List UInt8)) :
    Keeps (fun s => ∃ hi, Separate l hi s) (createAll l images) := by
  induction images with
  | nil => exact fun _ h => h
  | cons image images ih => exact .bind (createProcess_separate hl image) fun _ => ih

/-- The address space of a created process, after any history of earlier calls. -/
theorem create_process_address_space {l : Layout} (hl : l.Linked) (m : Mem)
    (images : List (List UInt8))
    {u : Unit} {s : Os} (hs : createAll l images (Os.boot l m) = .ok u s) {image : List UInt8}
      {i : Fin PROCS_MAX}
    {t : Os} (ht : createProcess l image s = .ok i t) :
    AddressSpace image t.mem (t.procs i).pageTable ∧ OwnFrames t i := by
  obtain ⟨n, hsep⟩ :=
    wp_ok (createAll_separate hl images _ ⟨_, separate_boot hl m⟩) hs
  have hc := wp_ok (createProcess_wp l image s _ hsep.next hsep.aligned hsep.bound) ht
  refine ⟨?_, hc.ownFrames hl hsep⟩
  rw [hc.procs_self]
  exact hc.addressSpace

theorem createProcess_returns {l : Layout} {image : List UInt8} {s : Os} {n : Nat}
    (hnext : s.nextPaddr = n + KERNEL_BASE) (hn : n % 4096 = 0) (hslot : findUnused s.procs ≠ none)
    (hmem : userPage n (userPages image.length) ≤ RAM_END) :
    ∃ i t, createProcess l image s = .ok i t ∧ Created l image n i s t := by
  have hle : n ≤ userPage n (userPages image.length) := by
    unfold userPage
    split <;> omega
  have hwp := createProcess_wp l image s n hnext hn (Nat.le_trans hle hmem)
  obtain ⟨i, t, ht⟩ := wp_succeeds (wp_mono hwp (fun _ _ h => h) fun _ _ h =>
    h.elim hslot fun hlt => absurd hmem (Nat.not_le.2 hlt))
  exact ⟨i, t, ht, wp_ok hwp ht⟩

/-- A kernel of 96 KiB. -/
def smallKernel : Layout := ⟨0x80004000, 0x80001000, 0x80018000⟩

theorem smallKernel_linked : smallKernel.Linked := by
  constructor <;> decide +kernel

/-- The two processes of `kernel_main`: the idle one without an image, and one with `image`. -/
theorem smallKernel_processes (image : List UInt8) (hsize : userPages image.length ≤ 900) :
    ∃ i s j t, createProcess smallKernel [] (Os.boot smallKernel fun _ => 0) = .ok i s ∧
      createProcess smallKernel image s = .ok j t := by
  have hstart : smallKernel.ramStart = 0x18000 := by decide +kernel
  have hboot := separate_boot smallKernel_linked fun _ => 0
  rw [hstart] at hboot
  obtain ⟨i, s, hs, c⟩ : ∃ i s, createProcess smallKernel [] (Os.boot smallKernel fun _ =>
    0) = .ok i s ∧
      Created smallKernel [] 0x18000 i _ s :=
    createProcess_returns hboot.next hboot.aligned (by decide +kernel) (by decide +kernel)
  have hsep := c.separate smallKernel_linked hboot
  have hnext : userPage 0x18000 (userPages ([] : List UInt8).length) = 0x20000 := by decide +kernel
  rw [hnext] at hsep
  have hslot : findUnused s.procs ≠ none := by
    obtain ⟨j, hj⟩ : ∃ j, j ≠ i := (show ∀ i : Fin PROCS_MAX, ∃ j, j ≠ i by decide) i
    have hstate : (s.procs j).state = .unused := by
      rw [c.procs_other hj]
      rfl
    intro hnone
    have hall := List.find?_eq_none.1 hnone j (List.mem_finRange j)
    simp [hstate] at hall
  have hmem : userPage 0x20000 (userPages image.length) ≤ RAM_END := by
    simp only [userPage, RAM_END]
    split <;> omega
  obtain ⟨j, t, ht, -⟩ := createProcess_returns (l := smallKernel) hsep.next hsep.aligned hslot hmem
  exact ⟨i, s, j, t, hs, ht⟩

theorem smallKernel_creates (image : List UInt8) (hsize : userPages image.length ≤ 900) :
    ∃ u s i t, createAll smallKernel [[]] (Os.boot smallKernel fun _ => 0) = .ok u s ∧
      createProcess smallKernel image s = .ok i t ∧
      createAll smallKernel [[], image] (Os.boot smallKernel fun _ => 0) = .ok () t := by
  obtain ⟨_, s, i, t, hs, ht⟩ := smallKernel_processes image hsize
  refine ⟨(), s, i, t, ?_, ht, ?_⟩
  · rw [createAll, bind_ok hs]
    rfl
  · rw [createAll, bind_ok hs, createAll, bind_ok ht]
    rfl

theorem create_process_address_space_shell :
    ∃ t i, AddressSpace [0xEB, 0xFE] t.mem (t.procs i).pageTable ∧ OwnFrames t i := by
  obtain ⟨u, s, i, t, hs, ht, -⟩ := smallKernel_creates [0xEB, 0xFE] (by decide)
  exact ⟨t, i, create_process_address_space smallKernel_linked _ _ hs ht⟩

/-! ## The tables of the VMM -/

/-- Pages a call takes for itself and its process. -/
def pagesTaken (images : List (List UInt8)) : Nat :=
  (images.map fun image => 4 + userPages image.length).sum

/-- Some byte of the pages lies in the directory and the tables at 0x100000. -/
def TouchesVmmTables (p : Nat × Nat) : Prop :=
  ∃ x, p.1 - KERNEL_BASE ≤ x ∧ x < p.1 - KERNEL_BASE + p.2 * PAGE_SIZE ∧ 0x100000 ≤ x ∧ x < 0x103000

theorem userPage_end (n size : Nat) :
    userPage n (userPages size) = n + 4096 * (4 + userPages size) := by
  have : 4 ≤ userPages size := Nat.le_max_right _ _
  rw [userPage, if_neg (by omega)]
  omega

theorem createAll_allocated (l : Layout) (images : List (List UInt8)) (s : Os) (n : Nat)
    (hnext : s.nextPaddr = n + KERNEL_BASE) (hn : n % 4096 = 0) (hb : n ≤ RAM_END) :
    wp (createAll l images)
      (fun _ t => t.allocated = s.allocated ++ pagesFrom n (n + 4096 * pagesTaken images))
      (fun _ _ => True) s := by
  induction images generalizing s n with
  | nil =>
    show s.allocated = s.allocated ++ pagesFrom n n
    simp [pagesFrom]
  | cons image images ih =>
    rw [createAll, wp_bind]
    refine wp_mono (createProcess_wp l image s n hnext hn hb) (fun i t c => ?_) fun _ _ _ => trivial
    have hend := userPage_end n image.length
    have hal := c.space.aligned
    refine wp_mono (ih t _ c.space.next hal c.space.bound) (fun _ t' ht => ?_) fun _ _ h => h
    have hone : t.allocated = s.allocated ++ pagesFrom n (userPage n (userPages image.length)) :=
      c.space.allocated
    have htaken : pagesTaken (image :: images) = 4 + userPages image.length + pagesTaken images :=
      List.sum_cons
    have hsum : n + 4096 * pagesTaken (image :: images) =
        userPage n (userPages image.length) + 4096 * pagesTaken images := by
      rw [htaken, hend]
      omega
    rw [ht, hone, List.append_assoc, hsum,
      pagesFrom_append (by omega) (by omega) (by omega) (by omega)]

/-- The pages between a start below 1 MiB and `hi` avoid the tables exactly
when they end below them. -/
theorem pagesFrom_spare_iff {lo hi : Nat} (hlo : lo ≤ 0x100000) (hle : lo ≤ hi) (h1 : lo % 4096 = 0)
    (h2 : hi % 4096 = 0) : (∀ p ∈ pagesFrom lo hi, ¬ TouchesVmmTables p) ↔ hi ≤ 0x100000 := by
  constructor
  · intro h
    by_contra hgt
    refine h (lo + (0x100000 - lo) / 4096 * 4096 + KERNEL_BASE, 1) ?_ ⟨0x100000, ?_,
      ?_, by decide, by decide⟩
    · exact List.mem_map.2 ⟨(0x100000 - lo) / 4096, List.mem_range.2 (by omega), rfl⟩
    · simp only [Nat.add_sub_cancel]
      omega
    · simp only [Nat.add_sub_cancel, PAGE_SIZE]
      omega
  · rintro hhi p hp ⟨x, hx1, hx2, hx3, -⟩
    obtain ⟨k, hk, rfl⟩ := List.mem_map.1 hp
    have hk := List.mem_range.1 hk
    simp only [Nat.add_sub_cancel, PAGE_SIZE] at hx1 hx2
    omega

/-- `alloc_pages` never hands out the VMM's live tables exactly when everything
it hands out ends below them. -/
theorem allocations_spare_vmm_tables_iff {l : Layout} (hal : l.freeRam % 4096 = 0)
    (hlo : 0x80003000 ≤ l.freeRam)
    (hhi : l.freeRam ≤ 0x80100000) (m : Mem) {images : List (List UInt8)} {u : Unit} {t : Os}
    (ht : createAll l images (Os.boot l m) = .ok u t) :
    (∀ p ∈ t.allocated, ¬ TouchesVmmTables p) ↔
      l.freeRam + 4096 * pagesTaken images ≤ 0x80100000 := by
  have hkb := KERNEL_BASE_eq
  have hn : (l.freeRam - KERNEL_BASE) % 4096 = 0 := by omega
  have hnext : (Os.boot l m).nextPaddr = l.freeRam - KERNEL_BASE + KERNEL_BASE := by
    show l.freeRam = _
    omega
  have hb : l.freeRam - KERNEL_BASE ≤ RAM_END := by
    simp only [RAM_END]
    omega
  have halloc := wp_ok (createAll_allocated l images (Os.boot l m) _ hnext hn hb) ht
  have hempty : (Os.boot l m).allocated = [] := rfl
  rw [halloc, hempty, List.nil_append, pagesFrom_spare_iff (by omega) (by omega) hn (by omega)]
  omega

/-- A shell of 1 MiB. -/
@[irreducible] def bigShell : List UInt8 := List.replicate 0x100000 0

theorem bigShell_pages : userPages bigShell.length = 256 := by
  rw [bigShell, List.length_replicate]
  rfl

theorem allocations_spare_vmm_tables_iff_bigShell :
    ∃ t, createAll smallKernel [[], bigShell] (Os.boot smallKernel fun _ => 0) = .ok () t ∧
      ((∀ p ∈ t.allocated, ¬ TouchesVmmTables p) ↔
        smallKernel.freeRam + 4096 * pagesTaken [[], bigShell] ≤ 0x80100000) := by
  obtain ⟨-, -, -, t, -, -, ht⟩ := smallKernel_creates bigShell (by rw [bigShell_pages]; decide)
  exact ⟨t, ht, allocations_spare_vmm_tables_iff (l := smallKernel) (by decide) (by decide)
    (by decide) _ ht⟩

/-- Among the pages of the shell are the tables the processor is using. -/
theorem bigShell_takes_vmm_tables :
    ¬ ∀ (l : Layout) (m : Mem) (images : List (List UInt8)) (u : Unit) (t : Os), l.freeRam % 4096 =
      0 →
      0x80003000 ≤ l.freeRam → l.freeRam ≤ 0x80100000 → createAll l images (Os.boot l m) = .ok u t →
      ∀ p ∈ t.allocated, ¬ TouchesVmmTables p := by
  intro hall
  obtain ⟨-, -, -, t, -, -, ht⟩ := smallKernel_creates bigShell (by rw [bigShell_pages]; decide)
  have hspare := hall smallKernel _ _ () t (by decide) (by decide) (by decide) ht
  have hnext : (Os.boot smallKernel fun _ => 0).nextPaddr = 0x18000 + KERNEL_BASE := by
    rw [KERNEL_BASE_eq]
    rfl
  have halloc :=
    wp_ok (createAll_allocated smallKernel [[], bigShell] _ _ hnext (by decide) (by decide)) ht
  have htaken : pagesTaken [[], bigShell] = 268 := by
    simp only [pagesTaken, List.map_cons, List.map_nil, List.sum_cons, List.sum_nil, bigShell_pages]
    rfl
  have hempty : (Os.boot smallKernel fun _ => 0).allocated = [] := rfl
  rw [halloc, hempty, List.nil_append,
    pagesFrom_spare_iff (by decide) (by omega) (by decide) (by omega), htaken] at hspare
  exact absurd hspare (by decide)

end MiniKvm.Os1k
