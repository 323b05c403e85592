import MiniKvm.Linux.Integrity

/-!
# What the kernel loader does, exactly

`load_linux_kernel` (kvm-vmm-x86/src/linux_boot.c:91-267) as a function of the
file, for every memory size: when it accepts, what is in memory then, and that
nothing else changes.

The header is parsed in a buffer of which a short file fills only a part. That
the rest of it is arbitrary does not matter: an accepted image is at least as
long as its setup sectors, which are longer than the header.
-/
namespace MiniKvm.Linux

open Vmm

/-! ## The kernel image -/

/-- Every call succeeds and every read returns what the file has; what the file
does not fill of the header buffer is `heap`. -/
def KernelCalls.ofFileOver (f : HostFile) (heap : Mem) : KernelCalls :=
  { KernelCalls.ofFile f with heap }

/-- What makes an image acceptable, by its own bytes and the memory size. -/
structure Accepts (f : HostFile) (memSize : Nat) : Prop where
  length : 512 ≤ f.bytes.length
  bootFlag : (fileMem f).load 2 BOOT_FLAG_OFF = 0xAA55
  magic : (fileMem f).load 4 HEADER_OFF = LINUX_BOOT_SIGNATURE
  high : (fileMem f).load 1 LOADFLAGS_OFF &&& LOADED_HIGH ≠ 0
  setup : setupBytes f ≤ f.bytes.length
  setupFits : REAL_MODE_KERNEL_ADDR + setupBytes f ≤ memSize
  kernelFits : KERNEL_LOAD_ADDR + (f.bytes.length - setupBytes f) ≤ memSize

/-- The image with `code32_start` filled in. -/
def headerImage (f : HostFile) : Mem :=
  if (fileMem f).load 4 CODE32_START_OFF = 0 then
    (fileMem f).store 4 CODE32_START_OFF KERNEL_LOAD_ADDR
  else fileMem f

/-- The header in `boot_params`, both parts of the image in memory, and every
other byte as before. -/
structure KernelPlaced (f : HostFile) (m m' : Mem) : Prop where
  header : m'.read (LINUX_BOOT_PARAMS_ADDR + HDR_OFF) HDR_SIZE =
    (headerImage f).read HDR_OFF HDR_SIZE
  setup : m'.read REAL_MODE_KERNEL_ADDR (setupBytes f) = setupPart f
  payload : m'.read KERNEL_LOAD_ADDR (f.bytes.length - setupBytes f) = payloadPart f
  frame : ∀ x,
    ¬ (LINUX_BOOT_PARAMS_ADDR + HDR_OFF ≤ x ∧ x < LINUX_BOOT_PARAMS_ADDR + HDR_OFF + HDR_SIZE) →
    ¬ (REAL_MODE_KERNEL_ADDR ≤ x ∧ x < REAL_MODE_KERNEL_ADDR + setupBytes f) →
    ¬ (KERNEL_LOAD_ADDR ≤ x ∧ x < KERNEL_LOAD_ADDR + (f.bytes.length - setupBytes f)) → m' x = m x

/-- The header lies within the setup sectors. -/
theorem setupBytes_ge (f : HostFile) : HDR_OFF + HDR_SIZE ≤ setupBytes f := by
  unfold setupBytes setupSize HDR_OFF HDR_SIZE
  split <;> omega

theorem setupBytes_eq (f : HostFile) : setupSize ((fileMem f).load 1 HDR_OFF) = setupBytes f := by
  rw [setupBytes]
  simp [Mem.load, Mem.read, List.range_succ, leVal, fileMem]

theorem Accepts.header {f : HostFile} {memSize : Nat} (h : Accepts f memSize) :
    HDR_OFF + HDR_SIZE ≤ f.bytes.length := Nat.le_trans (setupBytes_ge f) h.setup

section Buffer

variable {heap : Mem} {f : HostFile}

/-- The header buffer, after the read of the first 4 KiB. -/
def headerBuffer (heap : Mem) (f : HostFile) : Mem :=
  heap.write 0 (f.bytes.take (min 4096 (min 4096 f.bytes.length)))

theorem headerBuffer_byte (hlen : HDR_OFF + HDR_SIZE ≤ f.bytes.length) {x : Nat}
    (hx : x < HDR_OFF + HDR_SIZE) :
    headerBuffer heap f x = fileMem f x := by
  have hs : HDR_OFF + HDR_SIZE = 0x268 := rfl
  unfold headerBuffer
  rw [Mem.write_in _ (Nat.zero_le x) (by rw [List.length_take]; omega), fileMem]
  simp only [List.getD_eq_getElem?_getD, Nat.sub_zero]
  rw [List.getElem?_take_of_lt (by omega)]

theorem headerBuffer_load (hlen : HDR_OFF + HDR_SIZE ≤ f.bytes.length) {w off : Nat}
    (hw : off + w ≤ HDR_OFF + HDR_SIZE) :
    (headerBuffer heap f).load w off = (fileMem f).load w off :=
  Mem.load_congr fun _ _ h => headerBuffer_byte hlen (by omega)

end Buffer

/-- A block and its copy at a distance stay copies when both are written alike. -/
theorem write_shift {m n : Mem} {d a x : Nat} (bs : List UInt8) (h : m (d + x) = n x) :
    m.write (d + a) bs (d + x) = n.write a bs x := by
  by_cases hin : a ≤ x ∧ x < a + bs.length
  · rw [Mem.write_in _ (by omega) (by omega), Mem.write_in _ hin.1 hin.2]
    congr 1
    omega
  · rw [Mem.write_out _ (by omega), Mem.write_out _ (by omega), h]

/-- Memory after the last copy, before `code32_start` is filled in. -/
def afterCopies (heap : Mem) (f : HostFile) (m : Mem) : Mem :=
  ((m.write (LINUX_BOOT_PARAMS_ADDR + HDR_OFF) ((headerBuffer heap f).read HDR_OFF HDR_SIZE)).write
    REAL_MODE_KERNEL_ADDR (setupPart f)).write KERNEL_LOAD_ADDR (payloadPart f)

def fillCode32 (m : Mem) : Mem :=
  if m.load 4 (LINUX_BOOT_PARAMS_ADDR + CODE32_START_OFF) = 0 then
    m.store 4 (LINUX_BOOT_PARAMS_ADDR + CODE32_START_OFF) KERNEL_LOAD_ADDR
  else m

theorem afterCopies_header {heap : Mem} {f : HostFile} (hset : setupBytes f ≤ f.bytes.length)
    (m : Mem) {x : Nat} (h1 : HDR_OFF ≤ x) (h2 : x < HDR_OFF + HDR_SIZE) :
    afterCopies heap f m (LINUX_BOOT_PARAMS_ADDR + x) = fileMem f x := by
  have hle := setupBytes_le f
  have hs : (setupPart f).length ≤ setupBytes f := by
    rw [setupPart, List.length_take]
    exact Nat.min_le_left _ _
  have hx : x < 0x268 := h2
  unfold afterCopies
  rw [Mem.write_out _ (Or.inl (by simp only [LINUX_BOOT_PARAMS_ADDR, KERNEL_LOAD_ADDR]; omega)),
    Mem.write_out _ (Or.inr (by simp only [LINUX_BOOT_PARAMS_ADDR, REAL_MODE_KERNEL_ADDR]; omega)),
    Mem.write_read _ _ h1 h2]
  exact headerBuffer_byte (Nat.le_trans (setupBytes_ge f) hset) h2

/-- `code32_start` is a field of the header, so filling it in touches nothing else. -/
theorem fillCode32_out (m : Mem) {x : Nat}
    (hx : ¬ (LINUX_BOOT_PARAMS_ADDR + HDR_OFF ≤ x ∧
      x < LINUX_BOOT_PARAMS_ADDR + HDR_OFF + HDR_SIZE)) : fillCode32 m x = m x := by
  unfold fillCode32
  split
  · refine Mem.store_out _ _ ?_
    simp only [LINUX_BOOT_PARAMS_ADDR, HDR_OFF, HDR_SIZE, CODE32_START_OFF] at hx ⊢
    omega
  · rfl

theorem kernelPlaced_of_writes (heap : Mem) {f : HostFile} (hset : setupBytes f ≤ f.bytes.length)
    (m : Mem) :
    KernelPlaced f m (fillCode32 (afterCopies heap f m)) := by
  have hle := setupBytes_le f
  have hl : (setupPart f).length = setupBytes f := by
    rw [setupPart, List.length_take]
    exact Nat.min_eq_left hset
  have hp : (payloadPart f).length = f.bytes.length - setupBytes f := by
    rw [payloadPart, List.length_drop]
  have hhdr : ∀ x, HDR_OFF ≤ x → x < HDR_OFF + HDR_SIZE →
      afterCopies heap f m (LINUX_BOOT_PARAMS_ADDR + x) = fileMem f x :=
    fun x h1 h2 => afterCopies_header hset m h1 h2
  have hload : (afterCopies heap f m).load 4 (LINUX_BOOT_PARAMS_ADDR + CODE32_START_OFF)
      = (fileMem f).load 4 CODE32_START_OFF := by
    refine Mem.load_shift fun i hi => ?_
    rw [Nat.add_assoc]
    exact hhdr _ (by simp only [HDR_OFF, CODE32_START_OFF]; omega)
      (by simp only [HDR_OFF, HDR_SIZE, CODE32_START_OFF]; omega)
  refine ⟨?_, ?_, ?_, ?_⟩
  · unfold Mem.read
    apply List.map_congr_left
    intro i hi
    have hi' := List.mem_range.1 hi
    have hb := hhdr (HDR_OFF + i) (Nat.le_add_right _ _) (by omega)
    rw [Nat.add_assoc]
    unfold fillCode32 headerImage
    rw [hload]
    split
    · exact write_shift _ hb
    · exact hb
  · have hcopy : (afterCopies heap f m).read REAL_MODE_KERNEL_ADDR (setupPart f).length =
        setupPart f := by
      unfold afterCopies
      rw [Mem.read_write_iff (Mem.read_write _ _ _)]
      refine Mem.agree_of_disjoint (Or.inl ?_)
      simp only [REAL_MODE_KERNEL_ADDR, KERNEL_LOAD_ADDR, hl]
      omega
    rw [← hl, Mem.read_congr fun x hx hx' => fillCode32_out _ ?_]
    · exact hcopy
    · simp only [REAL_MODE_KERNEL_ADDR, hl] at hx'
      simp only [LINUX_BOOT_PARAMS_ADDR, HDR_OFF, HDR_SIZE]
      omega
  · rw [← hp, Mem.read_congr fun x hx _ => fillCode32_out _ ?_]
    · exact Mem.read_write _ _ _
    · simp only [KERNEL_LOAD_ADDR] at hx
      simp only [LINUX_BOOT_PARAMS_ADDR, HDR_OFF, HDR_SIZE]
      omega
  · intro x h1 h2 h3
    rw [fillCode32_out _ h1]
    unfold afterCopies
    rw [Mem.write_out _ (by rw [hp]; omega), Mem.write_out _ (by rw [hl]; omega),
      Mem.write_out _ (by rw [Mem.read_length]; omega)]

/-- What succeeds was acceptable, and is placed. -/
theorem loadLinuxKernelFrom_sound (f : HostFile) (heap : Mem) (s : St) :
    wp (loadLinuxKernelFrom (.ofFileOver f heap) f LINUX_BOOT_PARAMS_ADDR)
      (fun _ t => Accepts f s.ctx.memSize ∧ KernelPlaced f s.mem t.mem) (fun _ _ => True) s := by
  unfold KernelCalls.ofFileOver KernelCalls.ofFile
  simp only [loadLinuxKernelFrom, wp_bind, wp_check, wp_require, wp_updMem, wp_get, implies_true,
    and_true, true_implies]
  intro hn hflag hmagic hhigh hset hreal _ hpay
  rw [load_setup_sects hn (by omega)] at hset hreal hpay ⊢
  rw [Nat.min_self] at hset
  have hb : HDR_OFF + HDR_SIZE ≤ f.bytes.length := Nat.le_trans (setupBytes_ge f) hset
  have hload : ∀ {w off}, off + w ≤ HDR_OFF + HDR_SIZE →
      (heap.write 0 (f.bytes.take (min 4096 (min 4096 f.bytes.length)))).load w off =
        (fileMem f).load w off :=
    headerBuffer_load hb
  rw [hload (by decide)] at hflag hmagic hhigh
  exact ⟨⟨by omega, hflag, hmagic, hhigh, hset, hreal, hpay⟩,
    kernelPlaced_of_writes heap hset s.mem⟩

/-- What is acceptable succeeds. -/
theorem loadLinuxKernelFrom_complete {f : HostFile} (heap : Mem) {s : St}
    (h : Accepts f s.ctx.memSize) :
    wp (loadLinuxKernelFrom (.ofFileOver f heap) f LINUX_BOOT_PARAMS_ADDR)
      (fun _ t => t.ctx = s.ctx) (fun _ _ => False) s := by
  have hb := h.header
  have hset := h.setup
  have hreal := h.setupFits
  have hfit := h.kernelFits
  have hlen := h.length
  have hmin : 512 ≤ min 4096 (min 4096 f.bytes.length) := by omega
  have hl : ∀ w off, off + w ≤ HDR_OFF + HDR_SIZE →
      (heap.write 0 (f.bytes.take (min 4096 (min 4096 f.bytes.length)))).load w off =
        (fileMem f).load w off :=
    fun _ _ => headerBuffer_load hb
  unfold KernelCalls.ofFileOver KernelCalls.ofFile
  simp only [loadLinuxKernelFrom, wp_bind, wp_check, wp_require, wp_updMem, wp_get,
    hl 2 BOOT_FLAG_OFF (by decide), hl 4 HEADER_OFF (by decide), hl 1 LOADFLAGS_OFF (by decide),
    hl 1 HDR_OFF (by decide), h.bootFlag, h.magic, h.high, setupBytes_eq, hmin, hreal, hfit,
    min_self, hset, Nat.sub_le, not_true, ne_eq, not_false_iff, and_self, imp_false, implies_true,
    reduceCtorEq]

/-- The kernel loader accepts exactly the images of `Accepts`, whatever was in
the buffer before, and what it accepts is placed. -/
theorem load_linux_kernel_exact (f : HostFile) (heap : Mem) (s : St) :
    ((∃ u t, loadLinuxKernel (.ofFileOver f heap) LINUX_BOOT_PARAMS_ADDR s = .ok u t) ↔
        Accepts f s.ctx.memSize) ∧
      ∀ u t, loadLinuxKernel (.ofFileOver f heap) LINUX_BOOT_PARAMS_ADDR s = .ok u t →
        KernelPlaced f s.mem t.mem := by
  have hsound : wp (loadLinuxKernel (.ofFileOver f heap) LINUX_BOOT_PARAMS_ADDR)
      (fun _ t => Accepts f s.ctx.memSize ∧ KernelPlaced f s.mem t.mem) (fun _ _ => True) s := by
    show wp (withFd _) _ _ s
    rw [wp_withFd]
    exact loadLinuxKernelFrom_sound f heap _
  refine ⟨⟨fun ⟨u, t, ht⟩ => (wp_ok hsound ht).1, fun h => ?_⟩, fun u t ht => (wp_ok hsound ht).2⟩
  refine wp_succeeds (show wp (withFd _) (fun _ _ => True) _ s from ?_)
  rw [wp_withFd]
  exact wp_mono (loadLinuxKernelFrom_complete heap h) (fun _ _ _ => trivial) fun _ _ h => h

end MiniKvm.Linux
