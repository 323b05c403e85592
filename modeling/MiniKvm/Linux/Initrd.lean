import MiniKvm.Linux.Loader

/-!
# Where the initrd goes

`load_initrd` (kvm-vmm-x86/src/linux_boot.c:272-363) for every memory size,
every header and every file: `load_initrd_exact` says where the initrd is put,
that this is the highest page that the two limits leave, and that a refused
initrd leaves memory alone. The C code computes in `uint64_t`; `placeInitrd`
is that computation, and `noWrap` says that nothing in it wraps.
-/
namespace MiniKvm.Linux

open Vmm

/-! ## The arithmetic of the C code -/

/-- mirrors kvm-vmm-x86/src/linux_boot.c:306-311 -/
def initrdMaxEnd (addrMax : UInt32) (memSize : UInt64) : UInt64 :=
  if addrMax.toUInt64 ≥ memSize then memSize - 1 else addrMax.toUInt64

/-- mirrors kvm-vmm-x86/src/linux_boot.c:294-332 -/
def placeInitrd (addrMax initSize : UInt32) (memSize size : UInt64) : Option UInt64 :=
  if size = 0 then none
  else if size > memSize then none
  else
    let desiredEnd := initrdMaxEnd addrMax memSize
    if size > desiredEnd + 1 then none
    else
      let desiredStart := (desiredEnd + 1 - size) &&& ~~~0xfff
      let kernelEnd := UInt64.ofNat KERNEL_LOAD_ADDR + initSize.toUInt64
      if desiredStart < kernelEnd then none else some desiredStart

/-- Every expression of `placeInitrd` has its mathematical value by the time
the checks before it have passed. -/
structure NoWrap (addrMax initSize : UInt32) (memSize size : UInt64) : Prop where
  last : size ≠ 0 → size ≤ memSize → (memSize - 1).toNat + 1 = memSize.toNat
  endPlusOne : size ≠ 0 → size ≤ memSize →
    (initrdMaxEnd addrMax memSize + 1).toNat = (initrdMaxEnd addrMax memSize).toNat + 1
  start : size ≠ 0 → size ≤ memSize → size ≤ initrdMaxEnd addrMax memSize + 1 →
    (initrdMaxEnd addrMax memSize + 1 - size).toNat + size.toNat =
      (initrdMaxEnd addrMax memSize).toNat + 1
  kernelEnd : (UInt64.ofNat KERNEL_LOAD_ADDR + initSize.toUInt64).toNat =
    KERNEL_LOAD_ADDR + initSize.toNat

/-- The limit as a number: the header's, or the last byte of memory. -/
def maxEndOf (addrMax memSize : Nat) : Nat := if addrMax ≥ memSize then memSize - 1 else addrMax

section Words

variable (addrMax initSize : UInt32) {memSize size : UInt64}

theorem initrdMaxEnd_toNat (hm : 0 < memSize.toNat) :
    (initrdMaxEnd addrMax memSize).toNat = maxEndOf addrMax.toNat memSize.toNat := by
  have h1 : (1 : UInt64) ≤ memSize := UInt64.le_iff_toNat_le.2 hm
  unfold initrdMaxEnd maxEndOf
  simp only [ge_iff_le, UInt64.le_iff_toNat_le, UInt32.toNat_toUInt64]
  split
  · rw [UInt64.toNat_sub_of_le _ _ h1]
    rfl
  · exact UInt32.toNat_toUInt64 _

theorem maxEndOf_le (a m : Nat) : maxEndOf a m ≤ a := by
  unfold maxEndOf
  split <;> omega

theorem toNat_pos {size : UInt64} (h : size ≠ 0) : 0 < size.toNat :=
  Nat.pos_of_ne_zero fun h0 => h (UInt64.toNat_inj.1 h0)

theorem maxEnd_add_one (hm : 0 < memSize.toNat) :
    (initrdMaxEnd addrMax memSize + 1).toNat = (initrdMaxEnd addrMax memSize).toNat + 1 := by
  have hle := maxEndOf_le addrMax.toNat memSize.toNat
  have ha := addrMax.toNat_lt
  rw [UInt64.toNat_add, initrdMaxEnd_toNat addrMax hm]
  exact Nat.mod_eq_of_lt (show _ + 1 < _ by omega)

theorem kernelEnd_toNat :
    (UInt64.ofNat KERNEL_LOAD_ADDR + initSize.toUInt64).toNat =
      KERNEL_LOAD_ADDR + initSize.toNat := by
  have hi := initSize.toNat_lt
  rw [UInt64.toNat_add, UInt32.toNat_toUInt64]
  exact Nat.mod_eq_of_lt (show 0x100000 + initSize.toNat < _ by omega)

theorem noWrap (memSize size : UInt64) : NoWrap addrMax initSize memSize size := by
  have hpos : size ≠ 0 → size ≤ memSize → 0 < memSize.toNat := fun h0 hle =>
    Nat.lt_of_lt_of_le (toNat_pos h0) (UInt64.le_iff_toNat_le.1 hle)
  refine ⟨fun h0 hle => ?_, fun h0 hle => ?_, fun h0 hle hend => ?_, kernelEnd_toNat initSize⟩
  · have hm := hpos h0 hle
    have h1 : (1 : UInt64) ≤ memSize := UInt64.le_iff_toNat_le.2 hm
    rw [UInt64.toNat_sub_of_le _ _ h1]
    exact Nat.sub_add_cancel hm
  · exact maxEnd_add_one addrMax (hpos h0 hle)
  · have hend' := UInt64.le_iff_toNat_le.1 hend
    rw [UInt64.toNat_sub_of_le _ _ hend, Nat.sub_add_cancel hend']
    exact maxEnd_add_one addrMax (hpos h0 hle)

theorem alignDown_toNat (x : UInt64) : (x &&& ~~~0xfff).toNat = x.toNat / 4096 * 4096 := by
  have h := and_high_mask (k := 12) (n := 52) x.toNat_lt
  simpa using h

/-- The computation in `uint64_t` and the one over the numbers agree. -/
theorem placeInitrd_eq :
    placeInitrd addrMax initSize memSize size =
      if 0 < size.toNat ∧ size.toNat ≤ memSize.toNat ∧
          size.toNat ≤ maxEndOf addrMax.toNat memSize.toNat + 1 ∧
          KERNEL_LOAD_ADDR + initSize.toNat ≤
            initrdStart (maxEndOf addrMax.toNat memSize.toNat) size.toNat
      then some (UInt64.ofNat (initrdStart (maxEndOf addrMax.toNat memSize.toNat) size.toNat))
      else none := by
  by_cases h0 : size = 0
  · subst h0
    rfl
  have hpos := toNat_pos h0
  by_cases hle : size.toNat ≤ memSize.toNat
  · have hm : 0 < memSize.toNat := Nat.lt_of_lt_of_le hpos hle
    have hend := maxEnd_add_one addrMax hm
    rw [initrdMaxEnd_toNat addrMax hm] at hend
    by_cases hfit : size.toNat ≤ maxEndOf addrMax.toNat memSize.toNat + 1
    · have hsub : ((initrdMaxEnd addrMax memSize + 1 - size) &&& ~~~0xfff).toNat =
          initrdStart (maxEndOf addrMax.toNat memSize.toNat) size.toNat := by
        rw [alignDown_toNat, UInt64.toNat_sub_of_le _ _ (UInt64.le_iff_toNat_le.2 (hend ▸ hfit)),
          hend]
        rfl
      simp only [placeInitrd, h0, gt_iff_lt, UInt64.lt_iff_toNat_lt, hend, hsub, kernelEnd_toNat,
        Nat.not_lt.2 hle, Nat.not_lt.2 hfit, if_false, hpos, hle, hfit, true_and]
      rw [← hsub, UInt64.ofNat_toNat]
      by_cases hk : KERNEL_LOAD_ADDR + initSize.toNat ≤
          ((initrdMaxEnd addrMax memSize + 1 - size) &&& ~~~0xfff).toNat
      · rw [if_pos hk, if_neg (Nat.not_lt.2 hk)]
      · rw [if_neg hk, if_pos (Nat.not_le.1 hk)]
    · simp only [placeInitrd, h0, gt_iff_lt, UInt64.lt_iff_toNat_lt, hend, Nat.not_le.1 hfit,
        Nat.not_lt.2 hle, hfit, if_false, if_true, false_and, and_false]
  · simp only [placeInitrd, h0, gt_iff_lt, UInt64.lt_iff_toNat_lt, Nat.not_le.1 hle, hle, if_false,
      if_true, false_and, and_false]

end Words

/-! ## Placement -/

/-- `start` is the highest page boundary from which `size` bytes end at `last` or below. -/
structure HighestPage (size last start : Nat) : Prop where
  aligned : start % 4096 = 0
  fits : start + size - 1 ≤ last
  highest : ∀ a, a % 4096 = 0 → a + size - 1 ≤ last → a ≤ start

theorem initrdStart_highest {last size : Nat} (h0 : 0 < size) (hle : size ≤ last + 1) :
    HighestPage size last (initrdStart last size) := by
  unfold initrdStart
  refine ⟨Nat.mul_mod_left _ _, ?_, fun a ha hlast => ?_⟩
  · have := Nat.div_mul_le_self (last + 1 - size) 4096
    omega
  · have hdiv : a / 4096 * 4096 = a := Nat.div_mul_cancel (Nat.dvd_of_mod_eq_zero ha)
    rw [← hdiv]
    exact Nat.mul_le_mul_right _ (Nat.div_le_div_right (by omega))

/-- The two header fields the placement depends on. -/
def initrdAddrMax (m : Mem) : Nat := m.load 4 (LINUX_BOOT_PARAMS_ADDR + INITRD_ADDR_MAX_OFF)

def initSize (m : Mem) : Nat := m.load 4 (LINUX_BOOT_PARAMS_ADDR + INIT_SIZE_OFF)

/-- The initrd `g` has been put at `start`, the header says so, and nothing
else has changed outside the header. -/
structure InitrdLoaded (g : HostFile) (memSize : Nat) (m m' : Mem) (start : Nat) : Prop where
  image : m'.load 4 (LINUX_BOOT_PARAMS_ADDR + RAMDISK_IMAGE_OFF) = start
  size : m'.load 4 (LINUX_BOOT_PARAMS_ADDR + RAMDISK_SIZE_OFF) = g.bytes.length
  place : HighestPage g.bytes.length (min (initrdAddrMax m) (memSize - 1)) start
  above : KERNEL_LOAD_ADDR + initSize m ≤ start
  content : m'.read start g.bytes.length = g.bytes
  frame : ∀ x, ¬ (start ≤ x ∧ x < start + g.bytes.length) →
    ¬ (LINUX_BOOT_PARAMS_ADDR + HDR_OFF ≤ x ∧ x < LINUX_BOOT_PARAMS_ADDR + HDR_OFF + HDR_SIZE) →
      m' x = m x

theorem maxEndOf_eq (a m : Nat) (hm : 0 < m) : maxEndOf a m = min a (m - 1) := by
  unfold maxEndOf
  split <;> omega

/-- Memory after the copy and the three stores into the header. -/
def putInitrd (start : Nat) (g : HostFile) (m : Mem) : Mem :=
  (((m.write start g.bytes).store 4 (LINUX_BOOT_PARAMS_ADDR + RAMDISK_IMAGE_OFF) start).store 4
    (LINUX_BOOT_PARAMS_ADDR + RAMDISK_SIZE_OFF) g.bytes.length).store 4
    (LINUX_BOOT_PARAMS_ADDR + INITRD_ADDR_MAX_OFF) INITRD_ADDR_MAX

theorem putInitrd_out {start : Nat} (g : HostFile) (m : Mem) {x : Nat}
    (hx : ¬ (LINUX_BOOT_PARAMS_ADDR + HDR_OFF ≤ x ∧
      x < LINUX_BOOT_PARAMS_ADDR + HDR_OFF + HDR_SIZE)) :
    putInitrd start g m x = m.write start g.bytes x := by
  have hx' : ¬ (LINUX_BOOT_PARAMS_ADDR + 0x1f1 ≤ x ∧ x < LINUX_BOOT_PARAMS_ADDR + 0x268) := by
    simpa only [Nat.add_assoc, HDR_OFF, HDR_SIZE] using hx
  unfold putInitrd
  rw [Mem.store_out _ _ (by simp only [INITRD_ADDR_MAX_OFF]; omega),
    Mem.store_out _ _ (by simp only [RAMDISK_SIZE_OFF]; omega),
    Mem.store_out _ _ (by simp only [RAMDISK_IMAGE_OFF]; omega)]

theorem putInitrd_loaded {g : HostFile} {memSize start : Nat} {m : Mem} (hm : 0 < memSize)
    (h0 : 0 < g.bytes.length) (hle : g.bytes.length ≤ maxEndOf (initrdAddrMax m) memSize + 1)
    (hstart : start = initrdStart (maxEndOf (initrdAddrMax m) memSize) g.bytes.length)
    (habove : KERNEL_LOAD_ADDR + initSize m ≤ start) :
    InitrdLoaded g memSize m (putInitrd start g m) start := by
  have hplace := initrdStart_highest h0 hle
  rw [← hstart, maxEndOf_eq _ _ hm] at hplace
  have hmax : initrdAddrMax m < 256 ^ 4 := Mem.load_lt _ _ _
  have hfits := hplace.fits
  have hk : (0x100000 : Nat) ≤ start := Nat.le_trans (Nat.le_add_right _ _) habove
  refine ⟨?_, ?_, hplace, habove, ?_, fun x h1 h2 => ?_⟩
  · unfold putInitrd
    rw [Mem.load_store_out _ _ (by decide), Mem.load_store_out _ _ (by decide), Mem.load_store]
    exact Nat.mod_eq_of_lt (by omega)
  · unfold putInitrd
    rw [Mem.load_store_out _ _ (by decide), Mem.load_store]
    exact Nat.mod_eq_of_lt (by omega)
  · rw [Mem.read_congr fun x hx _ => putInitrd_out g m ?_]
    · exact Mem.read_write _ _ _
    · simp only [LINUX_BOOT_PARAMS_ADDR, HDR_OFF, HDR_SIZE]
      omega
  · rw [putInitrd_out g m h2, Mem.write_out _ (by omega)]

theorem loadInitrdFrom_exact (k : InitrdCalls) (g : HostFile) (s : St) :
    wp (loadInitrdFrom k g LINUX_BOOT_PARAMS_ADDR)
      (fun _ t => 0 < s.ctx.memSize ∧ 0 < g.bytes.length ∧ g.bytes.length ≤ s.ctx.memSize ∧
        g.bytes.length ≤ maxEndOf (initrdAddrMax s.mem) s.ctx.memSize + 1 ∧
        KERNEL_LOAD_ADDR + initSize s.mem ≤
          initrdStart (maxEndOf (initrdAddrMax s.mem) s.ctx.memSize) g.bytes.length ∧
        t.mem = putInitrd
          (initrdStart (maxEndOf (initrdAddrMax s.mem) s.ctx.memSize) g.bytes.length) g s.mem ∧
        t.ctx = s.ctx)
      (fun _ t => t.mem = s.mem) s := by
  simp only [loadInitrdFrom, wp_bind, wp_check, wp_require, wp_updMem, wp_get, implies_true,
    and_true]
  intro _ h0 hle hfit habove _ _
  exact ⟨by omega, h0, hle, hfit, habove, rfl⟩

/-- What the C code computes for the initrd `g` from the header in memory. -/
def placeInitrdIn (memSize : Nat) (m : Mem) (g : HostFile) : Option UInt64 :=
  placeInitrd (UInt32.ofNat (initrdAddrMax m)) (UInt32.ofNat (initSize m)) (UInt64.ofNat memSize)
    (UInt64.ofNat g.bytes.length)

theorem placeInitrdIn_eq {memSize : Nat} (hm : memSize < 2 ^ 64) (m : Mem) {g : HostFile}
    (h0 : 0 < g.bytes.length) (hle : g.bytes.length ≤ memSize)
    (hfit : g.bytes.length ≤ maxEndOf (initrdAddrMax m) memSize + 1)
    (habove : KERNEL_LOAD_ADDR + initSize m ≤ initrdStart
      (maxEndOf (initrdAddrMax m) memSize) g.bytes.length) :
    placeInitrdIn memSize m g =
      some (UInt64.ofNat (initrdStart (maxEndOf (initrdAddrMax m) memSize) g.bytes.length)) := by
  have h1 : (UInt32.ofNat (initrdAddrMax m)).toNat = initrdAddrMax m :=
    UInt32.toNat_ofNat_of_lt' (Mem.load_lt m 4 _)
  have h2 : (UInt32.ofNat (initSize m)).toNat = initSize m :=
    UInt32.toNat_ofNat_of_lt' (Mem.load_lt m 4 _)
  have h3 : (UInt64.ofNat memSize).toNat = memSize := UInt64.toNat_ofNat_of_lt' hm
  have h4 : (UInt64.ofNat g.bytes.length).toNat = g.bytes.length :=
    UInt64.toNat_ofNat_of_lt' (Nat.lt_of_le_of_lt hle hm)
  rw [placeInitrdIn, placeInitrd_eq, h1, h2, h3, h4, if_pos ⟨h0, hle, hfit, habove⟩]

/-- An accepted initrd is where the C code has computed, on the highest page
the limits leave; a refused one leaves memory alone; and the computation never
wraps. -/
theorem load_initrd_exact (k : InitrdCalls) (s : St) (hm : s.ctx.memSize < 2 ^ 64) :
    (∀ u t, loadInitrd k LINUX_BOOT_PARAMS_ADDR s = .ok u t →
      ∃ g start, k.openFile = some g ∧
        placeInitrdIn s.ctx.memSize s.mem g = some (UInt64.ofNat start) ∧
        InitrdLoaded g s.ctx.memSize s.mem t.mem start) ∧
      (∀ e t, loadInitrd k LINUX_BOOT_PARAMS_ADDR s = .error e t → t.mem = s.mem) ∧
      ∀ addrMax initSize memSize size, NoWrap addrMax initSize memSize size := by
  have hspec : wp (loadInitrd k LINUX_BOOT_PARAMS_ADDR)
      (fun _ t => ∃ g start, k.openFile = some g ∧
        placeInitrdIn s.ctx.memSize s.mem g = some (UInt64.ofNat start) ∧
        InitrdLoaded g s.ctx.memSize s.mem t.mem start)
      (fun _ t => t.mem = s.mem) s := by
    unfold loadInitrd
    split
    · rfl
    · rename_i g hg
      rw [wp_withFd]
      refine wp_mono (loadInitrdFrom_exact k g _) (fun _ t h => ?_) fun _ t h => h
      obtain ⟨hpos, h0, hle, hfit, habove, hmem, -⟩ := h
      refine ⟨g, _, hg, placeInitrdIn_eq hm s.mem h0 hle hfit habove, ?_⟩
      simp only [hmem]
      exact putInitrd_loaded hpos h0 hfit rfl habove
  exact ⟨fun u t ht => wp_ok hspec ht, fun e t ht => wp_error hspec ht, noWrap⟩

def oneByte : HostFile := ⟨[0x42], by decide⟩

def InitrdCalls.ofFile (g : HostFile) : InitrdCalls := ⟨some g, true, true, g.bytes.length⟩

/-- 16 MiB of memory, and a header with a limit of 8 MiB. -/
def limit8M : St :=
  { St.enter ⟨[], [], []⟩ { vcpuId := 0, vcpuFd := -1, memSize := 0x1000000 } with
    mem := Mem.store (fun _ => 0) 4 (LINUX_BOOT_PARAMS_ADDR + INITRD_ADDR_MAX_OFF) 0x7FFFFF }

theorem load_initrd_exact_limit8M :
    ∃ u t, loadInitrd (.ofFile oneByte) LINUX_BOOT_PARAMS_ADDR limit8M = .ok u t ∧
      ∃ g start, some oneByte = some g ∧
        placeInitrdIn 0x1000000 limit8M.mem g = some (UInt64.ofNat start) ∧
        InitrdLoaded g 0x1000000 limit8M.mem t.mem start := by
  have hrun :
      returns (loadInitrd (.ofFile oneByte) LINUX_BOOT_PARAMS_ADDR) limit8M (fun _ _ => true) =
      true := by
    decide +kernel
  obtain ⟨u, t, ht, -⟩ := ok_of_returns hrun
  exact ⟨u, t, ht, (load_initrd_exact (.ofFile oneByte) limit8M (by decide)).1 u t ht⟩

end MiniKvm.Linux
