import MiniKvm.Linux.Integrity

/-!
# Taking a bzImage apart

The boot protocol builds a bzImage as a boot sector, `S` setup sectors and the
payload, with `S` in `setup_sects`; 0 there is the old encoding of 4.
`load_linux_kernel` (kvm-vmm-x86/src/linux_boot.c:91-267) has to find the seam
again: `split_round_trip_iff`, it does unless the count is encoded as 0, for
which it takes the boot sector and three setup sectors.
-/
namespace MiniKvm.Linux

open Vmm

/-! ## The builder -/

/-- The parts of a bzImage. -/
structure BootImage where
  boot : List UInt8
  /-- The number of setup sectors, `S`. -/
  sectors : Nat
  setup : List UInt8
  payload : List UInt8
  boot_length : boot.length = 512
  sectors_pos : 1 ≤ sectors
  setup_length : setup.length = 512 * sectors
  encoded : (boot.getD HDR_OFF 0).toNat = sectors ∨ boot.getD HDR_OFF 0 = 0 ∧ sectors = 4

namespace BootImage

def setupSects (b : BootImage) : UInt8 := b.boot.getD HDR_OFF 0

def bytes (b : BootImage) : List UInt8 := b.boot ++ b.setup ++ b.payload

/-- Both parts are where they belong, and only they and the header were written. -/
structure SplitAt (b : BootImage) (m m' : Mem) : Prop where
  setup : m'.read REAL_MODE_KERNEL_ADDR (512 * (b.sectors + 1)) = b.boot ++ b.setup
  payload : m'.read KERNEL_LOAD_ADDR b.payload.length = b.payload
  frame : ∀ x,
    ¬ (LINUX_BOOT_PARAMS_ADDR + HDR_OFF ≤ x ∧ x < LINUX_BOOT_PARAMS_ADDR + HDR_OFF + HDR_SIZE) →
    ¬ (REAL_MODE_KERNEL_ADDR ≤ x ∧ x < REAL_MODE_KERNEL_ADDR + 512 * (b.sectors + 1)) →
    ¬ (KERNEL_LOAD_ADDR ≤ x ∧ x < KERNEL_LOAD_ADDR + b.payload.length) → m' x = m x

end BootImage

/-! ## The loader, for any answers of the host -/

/-- Outside the header, the setup sectors and the payload nothing is written. -/
theorem loadLinuxKernel_frame {k : KernelCalls} {f : HostFile} (hf : k.openFile = some f) (s : St) :
    wp (loadLinuxKernel k LINUX_BOOT_PARAMS_ADDR)
      (fun _ t => ∀ x,
        ¬ (LINUX_BOOT_PARAMS_ADDR + HDR_OFF ≤ x ∧ x < LINUX_BOOT_PARAMS_ADDR + HDR_OFF + HDR_SIZE) →
        ¬ (REAL_MODE_KERNEL_ADDR ≤ x ∧ x < REAL_MODE_KERNEL_ADDR + setupBytes f) →
        ¬ (KERNEL_LOAD_ADDR ≤ x ∧ x < KERNEL_LOAD_ADDR + (f.bytes.length - setupBytes f)) →
        t.mem x = s.mem x)
      (fun _ _ => True) s := by
  unfold loadLinuxKernel
  simp only [hf]
  rw [wp_withFd]
  simp only [loadLinuxKernelFrom, wp_bind, wp_check, wp_require, wp_updMem, wp_get, implies_true,
    and_true]
  intro _ _ hn _ _ _ _ hsz _ _ _ _ x h1 h2 h3
  rw [load_setup_sects hn (by omega)] at hsz ⊢
  change setupBytes f ≤ _ at hsz
  have hcode : ¬ (LINUX_BOOT_PARAMS_ADDR + CODE32_START_OFF ≤ x ∧
      x < LINUX_BOOT_PARAMS_ADDR + CODE32_START_OFF + 4) := by
    simp only [LINUX_BOOT_PARAMS_ADDR, HDR_OFF, HDR_SIZE, CODE32_START_OFF] at h1 ⊢
    omega
  have hcopies : ((s.mem.write (LINUX_BOOT_PARAMS_ADDR + HDR_OFF)
      ((k.heap.write 0 (f.bytes.take (min k.readHeader (min 4096 f.bytes.length)))).read HDR_OFF
        HDR_SIZE)).write REAL_MODE_KERNEL_ADDR (setupPart f)).write KERNEL_LOAD_ADDR
        (payloadPart f) x = s.mem x := by
    have hp : (payloadPart f).length = f.bytes.length - setupBytes f := List.length_drop
    have hs : (setupPart f).length ≤ setupBytes f := by
      rw [setupPart, List.length_take]
      exact Nat.min_le_left _ _
    rw [Mem.write_out _ (by rw [hp]; omega), Mem.write_out _ (by omega),
      Mem.write_out _ (by rw [Mem.read_length]; omega)]
  split
  · rw [Mem.store_out _ _ (by omega)]
    exact hcopies
  · exact hcopies

/-- Whether an image is accepted does not depend on what is in guest memory. -/
theorem loadLinuxKernel_accepts (k : KernelCalls) (s : St) (m : Mem) :
    (∃ u t, loadLinuxKernel k LINUX_BOOT_PARAMS_ADDR s = .ok u t) ↔
      ∃ u t, loadLinuxKernel k LINUX_BOOT_PARAMS_ADDR { s with mem := m } = .ok u t := by
  rw [← wp_succeeds_iff, ← wp_succeeds_iff]
  unfold loadLinuxKernel
  cases k.openFile with
  | none => exact Iff.rfl
  | some f =>
    simp only [wp_withFd, loadLinuxKernelFrom, wp_bind, wp_check, wp_require, wp_updMem, wp_get]

/-! ## The seam -/

namespace BootImage

variable {b : BootImage} {f : HostFile}

theorem hdr_of_bytes (hb : f.bytes = b.bytes) : f.bytes.getD HDR_OFF 0 = b.setupSects := by
  have hlt : HDR_OFF < b.boot.length := by
    rw [b.boot_length]
    decide
  rw [hb, bytes, setupSects, List.getD_eq_getElem?_getD, List.append_assoc,
    List.getElem?_append_left hlt, List.getD_eq_getElem?_getD]

theorem seam_length (b : BootImage) : (b.boot ++ b.setup).length = 512 * (b.sectors + 1) := by
  rw [List.length_append, b.boot_length, b.setup_length]
  omega

/-- A count that is written as such is taken as such. -/
theorem setupBytes_of_ne (hb : f.bytes = b.bytes) (h : b.setupSects ≠ 0) :
    setupBytes f = 512 * (b.sectors + 1) := by
  have hS : b.setupSects.toNat = b.sectors := b.encoded.resolve_right fun he => h he.1
  have hne : b.sectors ≠ 0 := Nat.ne_of_gt b.sectors_pos
  rw [setupBytes, hdr_of_bytes hb, hS, setupSize, if_neg hne]
  omega

/-- For the old encoding the loader takes one sector less than there is. -/
theorem setupBytes_of_zero (hb : f.bytes = b.bytes) (h : b.setupSects = 0) :
    setupBytes f + 512 = 512 * (b.sectors + 1) := by
  have hS : b.sectors = 4 := by
    rcases b.encoded with he | he
    · have h0 : b.setupSects.toNat = 0 := by rw [h]; rfl
      have hpos := b.sectors_pos
      unfold setupSects at h0
      omega
    · exact he.2
  rw [setupBytes, hdr_of_bytes hb, h, hS]
  rfl

theorem payloadPart_length (hb : f.bytes = b.bytes) :
    (payloadPart f).length = 512 * (b.sectors + 1) + b.payload.length - setupBytes f := by
  rw [payloadPart, List.length_drop, hb, bytes, List.length_append, seam_length]

end BootImage

open BootImage in
/-- The loader takes an accepted image apart where it was put together, whatever
is in guest memory, exactly when `setup_sects` is not 0. -/
theorem split_round_trip_iff {k : KernelCalls} {f : HostFile} (hf : k.openFile = some f)
    {b : BootImage} (hb : f.bytes = b.bytes) {s t : St} {u : Unit}
    (hs : loadLinuxKernel k LINUX_BOOT_PARAMS_ADDR s = .ok u t) :
    (∀ m, ∃ u' t', loadLinuxKernel k LINUX_BOOT_PARAMS_ADDR { s with mem := m } = .ok u' t' ∧
      b.SplitAt m t'.mem) ↔ b.setupSects ≠ 0 := by
  have hrun : ∀ m, ∃ u' t', loadLinuxKernel k LINUX_BOOT_PARAMS_ADDR { s with mem := m } =
      .ok u' t' := fun m => (loadLinuxKernel_accepts k s m).1 ⟨u, t, hs⟩
  have hloaded : ∀ {m u' t'}, loadLinuxKernel k LINUX_BOOT_PARAMS_ADDR { s with mem := m } =
      .ok u' t' → KernelLoaded f t'.mem := fun h => by
    obtain ⟨-, f', hf', hk⟩ := wp_ok (loadLinuxKernel_wp k _) h
    rwa [Option.some.inj (hf.symm.trans hf')]
  constructor
  · intro hall hzero
    -- the sector that was taken for payload pushes the end of the payload 512 bytes further
    have hseam := setupBytes_of_zero hb hzero
    have hlen := payloadPart_length hb
    have hlt : b.payload.length < (payloadPart f).length := by omega
    obtain ⟨u', t', ht, hsplit⟩ := hall fun _ => (payloadPart f)[b.payload.length] + 1
    have hbyte := Mem.read_eq_iff.1 (hloaded ht).payload _ hlt
    have hkeep := hsplit.frame (KERNEL_LOAD_ADDR + b.payload.length)
      (by simp only [KERNEL_LOAD_ADDR, LINUX_BOOT_PARAMS_ADDR, HDR_OFF, HDR_SIZE]; omega)
      (by
        have hle := setupBytes_le f
        simp only [KERNEL_LOAD_ADDR, REAL_MODE_KERNEL_ADDR]
        omega)
      (by omega)
    rw [hkeep] at hbyte
    exact absurd hbyte (by simp)
  · intro hne m
    obtain ⟨u', t', ht⟩ := hrun m
    have hk := hloaded ht
    have hseam := setupBytes_of_ne hb hne
    have hsetup : setupPart f = b.boot ++ b.setup := by
      rw [setupPart, hseam, ← seam_length, hb, bytes, List.take_left]
    have hpayload : payloadPart f = b.payload := by
      rw [payloadPart, hseam, ← seam_length, hb, bytes, List.drop_left]
    have hplen : f.bytes.length - setupBytes f = b.payload.length := by
      rw [← hpayload, payloadPart, List.length_drop]
    refine ⟨u', t', ht, ?_, ?_, ?_⟩
    · rw [← seam_length, ← hsetup]
      exact hk.setup
    · rw [← hpayload]
      exact hk.payload
    · rw [← hseam, ← hplen]
      exact wp_ok (loadLinuxKernel_frame hf _) ht

def sampleBoot (sects : UInt8) : List UInt8 :=
  List.replicate 0x1f1 0 ++ [sects] ++ List.replicate 12 0 ++ [0x55, 0xAA]

def sampleSetup (sectors : Nat) : List UInt8 :=
  [0, 0, 0x48, 0x64, 0x72, 0x53] ++ List.replicate 11 0 ++ [1] ++
    List.replicate (512 * sectors - 18) 0

/-- One setup sector and a byte of payload. -/
def oneSector : BootImage :=
  ⟨sampleBoot 1, 1, sampleSetup 1, [0x90], by decide +kernel, by decide, by decide +kernel,
    by decide +kernel⟩

/-- Four setup sectors, written as 0. -/
def oldEncoding : BootImage :=
  ⟨sampleBoot 0, 4, sampleSetup 4, [0x90], by decide +kernel, by decide, by decide +kernel,
    by decide +kernel⟩

def oneSectorFile : HostFile := ⟨oneSector.bytes, by decide +kernel⟩

def oldEncodingFile : HostFile := ⟨oldEncoding.bytes, by decide +kernel⟩

def linuxMemory : St :=
  St.enter ⟨[], [], []⟩ { vcpuId := 0, vcpuFd := -1, memSize := LINUX_MEM_SIZE }

theorem split_round_trip_iff_oneSector :
    ∃ u t, loadLinuxKernel (.ofFile oneSectorFile) LINUX_BOOT_PARAMS_ADDR linuxMemory = .ok u t ∧
      ((∀ m, ∃ u' t', loadLinuxKernel (.ofFile oneSectorFile) LINUX_BOOT_PARAMS_ADDR
        { linuxMemory with mem := m } = .ok u' t' ∧ oneSector.SplitAt m t'.mem) ↔
          oneSector.setupSects ≠ 0) := by
  have hrun : returns (loadLinuxKernel (.ofFile oneSectorFile) LINUX_BOOT_PARAMS_ADDR) linuxMemory
      (fun _ _ => true) = true := by
    decide +kernel
  obtain ⟨u, t, ht, -⟩ := ok_of_returns hrun
  exact ⟨u, t, ht, split_round_trip_iff (f := oneSectorFile) rfl rfl ht⟩

/-- The fourth setup sector, all zeros, is placed at 0x100000 instead of the payload. -/
theorem old_encoding_misplaced :
    ¬ ∀ (k : KernelCalls) (f : HostFile) (b : BootImage) (s t : St) (u : Unit),
      k.openFile = some f → f.bytes = b.bytes →
      loadLinuxKernel k LINUX_BOOT_PARAMS_ADDR s = .ok u t → b.SplitAt s.mem t.mem := by
  intro hall
  have hrun : returns (loadLinuxKernel (.ofFile oldEncodingFile) LINUX_BOOT_PARAMS_ADDR) linuxMemory
      (fun _ t => t.mem KERNEL_LOAD_ADDR == 0) = true := by
    decide +kernel
  obtain ⟨u, t, ht, hzero⟩ := ok_of_returns hrun
  have hpayload := (hall _ oldEncodingFile oldEncoding _ t u rfl rfl ht).payload
  have hbyte := Mem.read_eq_iff.1 hpayload 0 (by decide)
  rw [Nat.add_zero, beq_iff_eq.1 hzero] at hbyte
  exact absurd hbyte (by decide)

end MiniKvm.Linux
