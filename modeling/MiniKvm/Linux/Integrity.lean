import MiniKvm.Linux.Boot

/-!
# What is in memory when a Linux guest starts

Six writers follow each other: the zero page, the IVT, the kernel image, the
boot parameters, the initrd with the command line behind it, and the tables of
the entry mode. Each step has a specification that says what it loads and
which bytes it leaves alone; together they say exactly when the image is still
complete at the end (`linux_image_intact_iff`).

Two pairs of regions are not kept apart by any check: the setup sectors may
reach the command line at 0x20000, and the initrd is only kept above the
header's `init_size`, not above the payload that was really loaded.
-/
namespace MiniKvm.Linux

open Vmm

/-! ## The image -/

/-- Size of the setup sectors, by the count in the first one. -/
def setupBytes (f : HostFile) : Nat := setupSize (f.bytes.getD HDR_OFF 0).toNat

def setupPart (f : HostFile) : List UInt8 := f.bytes.take (setupBytes f)

def payloadPart (f : HostFile) : List UInt8 := f.bytes.drop (setupBytes f)

theorem setupBytes_le (f : HostFile) : setupBytes f ≤ 0x20000 := by
  have h := (f.bytes.getD HDR_OFF 0).toNat_lt
  unfold setupBytes setupSize
  split <;> omega

def fileMem (f : HostFile) : Mem := fun i => f.bytes.getD i 0

/-- In the header buffer, what the file has given is the file. -/
theorem load_header {heap : Mem} {f : HostFile} {n w off : Nat} (hn : off + w ≤ n)
    (hlen : n ≤ f.bytes.length) :
    (heap.write 0 (f.bytes.take n)).load w off = (fileMem f).load w off := by
  refine Mem.load_congr fun x h1 h2 => ?_
  rw [Mem.write_in _ (by omega) (by rw [List.length_take]; omega), fileMem]
  simp only [List.getD_eq_getElem?_getD, Nat.sub_zero]
  rw [List.getElem?_take_of_lt (by omega)]

theorem load_setup_sects {heap : Mem} {f : HostFile} {n : Nat} (hn : 512 ≤ n)
    (hlen : n ≤ f.bytes.length) :
    (heap.write 0 (f.bytes.take n)).load 1 HDR_OFF = (f.bytes.getD HDR_OFF 0).toNat := by
  rw [load_header (by simp only [HDR_OFF]; omega) hlen]
  simp [Mem.load, Mem.read, List.range_succ, leVal, fileMem]

/-- The image is in memory. -/
structure KernelLoaded (f : HostFile) (m : Mem) : Prop where
  size : setupBytes f ≤ f.bytes.length
  setup : m.read REAL_MODE_KERNEL_ADDR (setupPart f).length = setupPart f
  payload : m.read KERNEL_LOAD_ADDR (payloadPart f).length = payloadPart f

theorem KernelLoaded.setup_length {f : HostFile} {m : Mem} (h : KernelLoaded f m) :
    (setupPart f).length = setupBytes f := by
  rw [setupPart, List.length_take]
  exact Nat.min_eq_left h.size

/-- Only the page of `boot_params` differs. -/
def SameOutsideZeroPage (m m' : Mem) : Prop :=
  ∀ x, x < LINUX_BOOT_PARAMS_ADDR ∨ LINUX_BOOT_PARAMS_ADDR + BOOT_PARAMS_SIZE ≤ x → m' x = m x

theorem KernelLoaded.congr {f : HostFile} {m m' : Mem} (h : KernelLoaded f m)
    (hm : SameOutsideZeroPage m m') : KernelLoaded f m' := by
  have hs := setupBytes_le f
  have hl := h.setup_length
  refine ⟨h.size, ?_, ?_⟩
  · rw [Mem.read_congr fun x h1 h2 => hm x (Or.inl ?_)]
    · exact h.setup
    · simp only [REAL_MODE_KERNEL_ADDR] at h2
      simp only [LINUX_BOOT_PARAMS_ADDR]
      omega
  · rw [Mem.read_congr fun x h1 h2 => hm x (Or.inr ?_)]
    · exact h.payload
    · simp only [KERNEL_LOAD_ADDR] at h1
      simp only [LINUX_BOOT_PARAMS_ADDR, BOOT_PARAMS_SIZE]
      omega

theorem kernelLoaded_of_writes {f : HostFile} (m : Mem) (hsize : setupBytes f ≤ f.bytes.length) :
    KernelLoaded f ((m.write REAL_MODE_KERNEL_ADDR (setupPart f)).write KERNEL_LOAD_ADDR
      (payloadPart f)) := by
  refine ⟨hsize, ?_, Mem.read_write _ _ _⟩
  have hs := setupBytes_le f
  rw [Mem.read_write_iff (Mem.read_write _ _ _)]
  refine Mem.agree_of_disjoint (Or.inl ?_)
  simp only [REAL_MODE_KERNEL_ADDR, KERNEL_LOAD_ADDR, setupPart, List.length_take]
  omega

/-! ## Each step -/

theorem loadLinuxKernelFrom_wp (k : KernelCalls) (f : HostFile) (s : St) :
    wp (loadLinuxKernelFrom k f LINUX_BOOT_PARAMS_ADDR)
      (fun _ t => s.Keeps t ∧ KernelLoaded f t.mem)
      (fun _ t => s.Keeps t) s := by
  simp only [loadLinuxKernelFrom, wp_bind, wp_check, wp_require, wp_updMem, wp_get, St.Keeps,
    and_self, implies_true, and_true, true_and]
  intro _ _ hn _ _ _ _ hsz _ _ _ _
  rw [load_setup_sects hn (by omega)] at hsz ⊢
  have hloaded := kernelLoaded_of_writes (f := f) (s.mem.write (LINUX_BOOT_PARAMS_ADDR + HDR_OFF)
    ((k.heap.write 0 (List.take (min k.readHeader (min 4096 f.bytes.length)) f.bytes)).read HDR_OFF
      HDR_SIZE)) (Nat.le_trans hsz (Nat.min_le_right _ _))
  split
  · refine hloaded.congr fun x hx => Mem.store_out _ _ ?_
    simp only [LINUX_BOOT_PARAMS_ADDR, BOOT_PARAMS_SIZE, CODE32_START_OFF] at hx ⊢
    omega
  · exact hloaded

theorem loadLinuxKernel_wp (k : KernelCalls) (s : St) :
    wp (loadLinuxKernel k LINUX_BOOT_PARAMS_ADDR)
      (fun _ t => s.Closed t ∧ ∃ f, k.openFile = some f ∧ KernelLoaded f t.mem)
      (fun _ t => s.Closed t) s := by
  unfold loadLinuxKernel
  split
  · exact ⟨s.fds.filesOnly_refl, rfl⟩
  · rename_i f hf
    rw [wp_withFd]
    refine wp_mono (loadLinuxKernelFrom_wp k f _) (fun _ t h => ?_) fun _ t h => ?_
    · obtain ⟨⟨hfds, hctx⟩, hk⟩ := h
      refine ⟨⟨?_, hctx⟩, f, hf, hk⟩
      simpa only [hfds] using s.fds.filesOnly_open_close
    · refine ⟨?_, h.2⟩
      simpa only [h.1] using s.fds.filesOnly_open_close

theorem addE820Entry_frame (m : Mem) (addr size type : Nat) :
    SameOutsideZeroPage m (addE820Entry m LINUX_BOOT_PARAMS_ADDR addr size type) := by
  intro x hx
  unfold addE820Entry
  split
  · rfl
  · rename_i hn
    simp only [LINUX_BOOT_PARAMS_ADDR, BOOT_PARAMS_SIZE, E820_ENTRIES_OFF, E820_MAP_OFF] at hx hn ⊢
    rw [Mem.store_out _ _ (by omega), Mem.store_out _ _ (by omega), Mem.store_out _ _ (by omega),
      Mem.store_out _ _ (by omega)]

theorem SameOutsideZeroPage.trans {a b c : Mem} (h1 : SameOutsideZeroPage a b)
    (h2 : SameOutsideZeroPage b c) : SameOutsideZeroPage a c :=
      fun x hx => (h2 x hx).trans (h1 x hx)

theorem setupLinuxBootParams_spec (memSize : Nat) (cmdline : Bool) (m : Mem) :
    SameOutsideZeroPage m (setupLinuxBootParams LINUX_BOOT_PARAMS_ADDR memSize cmdline m) ∧
      (setupLinuxBootParams LINUX_BOOT_PARAMS_ADDR memSize cmdline m).load 4
        (LINUX_BOOT_PARAMS_ADDR + INITRD_ADDR_MAX_OFF) = INITRD_ADDR_MAX := by
  constructor
  · unfold setupLinuxBootParams
    have hstore : ∀ (m : Mem) w off v, off + w ≤ BOOT_PARAMS_SIZE →
        SameOutsideZeroPage m (m.store w (LINUX_BOOT_PARAMS_ADDR + off) v) :=
          fun m w off v h x hx =>
      Mem.store_out _ _ (by omega)
    have hwrite : ∀ (m : Mem) off bs, off + bs.length ≤ BOOT_PARAMS_SIZE →
        SameOutsideZeroPage m (m.write (LINUX_BOOT_PARAMS_ADDR + off) bs) := fun m off bs h x hx =>
      Mem.write_out _ (by omega)
    have hfill : SameOutsideZeroPage m (m.fill LINUX_BOOT_PARAMS_ADDR BOOT_PARAMS_SIZE 0) :=
      fun x hx =>
      Mem.fill_out _ _ hx
    have hdr :
        HDR_OFF + ((m.read (LINUX_BOOT_PARAMS_ADDR + HDR_OFF) HDR_SIZE)).length ≤
        BOOT_PARAMS_SIZE := by
      rw [Mem.read_length]
      decide
    refine SameOutsideZeroPage.trans ?_ (hstore _ 4 INITRD_ADDR_MAX_OFF _ (by decide))
    refine SameOutsideZeroPage.trans ?_ (hstore _ 1 TYPE_OF_LOADER_OFF _ (by decide))
    have h3 :=
      ((hfill.trans (hwrite _ HDR_OFF _ hdr)).trans
      (addE820Entry_frame _ 0 (640 * 1024) E820_RAM)).trans
      (addE820Entry_frame _ (640 * 1024) (384 * 1024) E820_RESERVED)
    split
    · refine SameOutsideZeroPage.trans ?_ (hstore _ 4 CMD_LINE_PTR_OFF _ (by decide))
      split
      · exact h3.trans (addE820Entry_frame _ _ _ _)
      · exact h3
    · split
      · exact h3.trans (addE820Entry_frame _ _ _ _)
      · exact h3
  · unfold setupLinuxBootParams
    exact Mem.load_store _ _ _ _

/-- The initrd has been copied to its place and the header names it. -/
structure InitrdPlaced (g : HostFile) (memSize : Nat) (m m' : Mem) : Prop where
  above : KERNEL_LOAD_ADDR ≤ initrdStart (memSize - 1) g.bytes.length
  mem : SameOutsideZeroPage (m.write (initrdStart (memSize - 1) g.bytes.length) g.bytes) m'
  image : m'.load 4 (LINUX_BOOT_PARAMS_ADDR + RAMDISK_IMAGE_OFF) =
    initrdStart (memSize - 1) g.bytes.length
  size : m'.load 4 (LINUX_BOOT_PARAMS_ADDR + RAMDISK_SIZE_OFF) = g.bytes.length

/-- RAM of a Linux guest. -/
def LINUX_MEM_SIZE : Nat := 256 * 1024 * 1024

theorem loadInitrdFrom_wp (k : InitrdCalls) (g : HostFile) (s : St)
    (hmax : s.mem.load 4 (LINUX_BOOT_PARAMS_ADDR + INITRD_ADDR_MAX_OFF) = INITRD_ADDR_MAX)
    (hmem : s.ctx.memSize = LINUX_MEM_SIZE) :
    wp (loadInitrdFrom k g LINUX_BOOT_PARAMS_ADDR)
      (fun _ t => s.Keeps t ∧ InitrdPlaced g LINUX_MEM_SIZE s.mem t.mem)
      (fun _ t => s.Keeps t) s := by
  have hend : (if INITRD_ADDR_MAX ≥ LINUX_MEM_SIZE then LINUX_MEM_SIZE - 1 else INITRD_ADDR_MAX) =
      LINUX_MEM_SIZE - 1 := by decide
  simp only [loadInitrdFrom, wp_bind, wp_check, wp_require, wp_updMem, wp_get, St.Keeps, and_self,
    implies_true, and_true, true_and, hmax, hmem, hend]
  intro _ _ hle _ habove _ _
  have hlt : LINUX_MEM_SIZE = 0x10000000 := rfl
  have hstart : initrdStart (LINUX_MEM_SIZE - 1) g.bytes.length ≤ LINUX_MEM_SIZE := by
    unfold initrdStart
    omega
  refine ⟨by omega, fun x hx => ?_, ?_, ?_⟩
  · simp only [LINUX_BOOT_PARAMS_ADDR, BOOT_PARAMS_SIZE, RAMDISK_IMAGE_OFF, RAMDISK_SIZE_OFF,
      INITRD_ADDR_MAX_OFF] at hx ⊢
    rw [Mem.store_out _ _ (by omega), Mem.store_out _ _ (by omega), Mem.store_out _ _ (by omega)]
  · rw [Mem.load_store_out _ _ (by decide), Mem.load_store_out _ _ (by decide), Mem.load_store]
    exact Nat.mod_eq_of_lt (by omega)
  · rw [Mem.load_store_out _ _ (by decide), Mem.load_store]
    exact Nat.mod_eq_of_lt (by omega)

theorem loadInitrd_wp (k : InitrdCalls) (s : St)
    (hmax : s.mem.load 4 (LINUX_BOOT_PARAMS_ADDR + INITRD_ADDR_MAX_OFF) = INITRD_ADDR_MAX)
    (hmem : s.ctx.memSize = LINUX_MEM_SIZE) :
    wp (loadInitrd k LINUX_BOOT_PARAMS_ADDR)
      (fun _ t => s.Closed t ∧ ∃ g, k.openFile = some g ∧ InitrdPlaced g LINUX_MEM_SIZE s.mem t.mem)
      (fun _ t => s.Closed t) s := by
  unfold loadInitrd
  split
  · exact ⟨s.fds.filesOnly_refl, rfl⟩
  · rename_i g hg
    rw [wp_withFd]
    refine wp_mono (loadInitrdFrom_wp k g { s with fds := s.fds.open } hmax hmem) (fun _ t h => ?_)
      fun _ t h => ?_
    · obtain ⟨⟨hfds, hctx⟩, hk⟩ := h
      refine ⟨⟨?_, hctx⟩, g, hg, hk⟩
      simpa only [hfds] using s.fds.filesOnly_open_close
    · refine ⟨?_, h.2⟩
      simpa only [h.1] using s.fds.filesOnly_open_close

theorem cmdlineBytes_length (c : CStr) : (cmdlineBytes c).length ≤ 256 := by
  rw [cmdlineBytes, List.length_take]
  exact Nat.min_le_left _ _

theorem copyCmdline_out (cmdline : Option CStr) (m : Mem) {x : Nat}
    (h : x < COMMAND_LINE_ADDR ∨ COMMAND_LINE_ADDR + 256 ≤ x) : copyCmdline cmdline m x = m x := by
  cases cmdline with
  | none => rfl
  | some c =>
    have := cmdlineBytes_length c
    exact Mem.write_out _ (by omega)

theorem setupLinuxBootGdt_out (m : Mem) {x : Nat} (h : 0x528 ≤ x) :
    setupLinuxBootGdt m x = m x := by
  have hlen : ∀ b l a f, (createGdtEntry b l a f).length = 8 := fun _ _ _ _ => rfl
  simp only [setupLinuxBootGdt, setGdtEntry, GDT_ADDR, GDT_ENTRY_SIZE, GDT_TOTAL_SIZE, GDT_SIZE]
  rw [Mem.write_out _ (by rw [hlen]; omega), Mem.write_out _ (by rw [hlen]; omega),
    Mem.write_out _ (by rw [hlen]; omega), Mem.write_out _ (by rw [hlen]; omega),
    Mem.write_out _ (by rw [hlen]; omega), Mem.fill_out _ _ (by omega)]

theorem setupLinuxProtIdt_out (m : Mem) {x : Nat} (h : 0x8000 ≤ x) :
    setupLinuxProtIdt m x = m x := by
  have hlen : handlerCode.length = 15 := rfl
  simp only [setupLinuxProtIdt, IDT_ENTRY_SIZE, idtAddr, GDT_ADDR, GDT_TOTAL_SIZE, GDT_SIZE,
    GDT_ENTRY_SIZE]
  rw [Mem.writeArr_out _ (w := 8) (fun _ => rfl) _ (by omega),
    Mem.write_out _ (by rw [hlen]; omega)]

theorem setupLinuxBootGdt64bit_out (m : Mem) {x : Nat} (h : 0x6000 ≤ x) :
    setupLinuxBootGdt64bit m 0x5000 x = m x := by
  have hlen : ∀ a g, (gdtEntry64 a g).length = 8 := fun _ _ => rfl
  simp only [setupLinuxBootGdt64bit, setGdtEntry, GDT_ENTRY_SIZE]
  rw [Mem.write_out _ (by rw [hlen]; omega), Mem.write_out _ (by rw [hlen]; omega),
    Mem.fill_out _ _ (by omega)]

/-- The tables of every entry mode lie below the real-mode kernel. -/
theorem linuxEntryMem_out (c : Vcpu) (m : Mem) {x : Nat} (h : 0x8000 ≤ x) :
    linuxEntryMem c m x = m x := by
  unfold linuxEntryMem
  cases c.linuxEntry with
  | boot64 =>
    show setupLinuxBootGdt64bit _ 0x5000 x = m x
    rw [setupLinuxBootGdt64bit_out _ (by omega)]
    exact (setupPageTables64bit_spec _ _).2.1 x (by omega)
  | code32 =>
    show setupLinuxProtIdt _ x = m x
    rw [setupLinuxProtIdt_out _ h, setupLinuxBootGdt_out _ (by omega)]
  | setup => rfl

/-! ## The whole path -/

/-- All parts of the image are in memory as the files have them: the setup
sectors, the payload, and the initrd where the header says it is. -/
structure ImageIntact (f : HostFile) (initrd : Option HostFile) (m : Mem) : Prop where
  setup : m.read REAL_MODE_KERNEL_ADDR (setupBytes f) = setupPart f
  payload : m.read KERNEL_LOAD_ADDR (f.bytes.length - setupBytes f) = payloadPart f
  initrd : ∀ g ∈ initrd, m.read (m.load 4 (LINUX_BOOT_PARAMS_ADDR + RAMDISK_IMAGE_OFF))
    (m.load 4 (LINUX_BOOT_PARAMS_ADDR + RAMDISK_SIZE_OFF)) = g.bytes

/-- Where a later copy overlaps the setup sectors or the payload, it brings the
bytes that are there already. -/
def CopiesAgree (cmdline : Option CStr) (f : HostFile) (initrd : Option HostFile) : Prop :=
  (∀ c ∈ cmdline, Mem.Agree REAL_MODE_KERNEL_ADDR (setupPart f) COMMAND_LINE_ADDR
    (cmdlineBytes c)) ∧
    ∀ g ∈ initrd, Mem.Agree KERNEL_LOAD_ADDR (payloadPart f)
      (initrdStart (LINUX_MEM_SIZE - 1) g.bytes.length) g.bytes

/-- Memory after the initrd step, from memory before it. -/
def AfterInitrd (initrd : Option HostFile) (m m' : Mem) : Prop :=
  match initrd with
  | none => m' = m
  | some g => InitrdPlaced g LINUX_MEM_SIZE m m'

/-- Below the zero page the initrd step changes nothing. -/
theorem AfterInitrd.low {initrd : Option HostFile} {m m' : Mem} (h : AfterInitrd initrd m m')
    {x : Nat} (hx : x < LINUX_BOOT_PARAMS_ADDR) : m' x = m x := by
  cases initrd with
  | none => exact congrFun h x
  | some g =>
    have habove := InitrdPlaced.above h
    rw [InitrdPlaced.mem h x (Or.inl hx), Mem.write_out _ (Or.inl ?_)]
    simp only [LINUX_BOOT_PARAMS_ADDR, KERNEL_LOAD_ADDR] at hx habove
    omega

section Path

variable {f : HostFile} {initrd : Option HostFile} {cmdline : Option CStr} {m1 m2 m : Mem}

theorem setup_intact_iff (h1 : KernelLoaded f m1) (h2 : AfterInitrd initrd m1 m2)
    (h3 : ∀ x, 0x8000 ≤ x → m x = copyCmdline cmdline m2 x) :
    m.read REAL_MODE_KERNEL_ADDR (setupBytes f) = setupPart f ↔
      ∀ c ∈ cmdline, Mem.Agree REAL_MODE_KERNEL_ADDR (setupPart f) COMMAND_LINE_ADDR
        (cmdlineBytes c) := by
  have hs := setupBytes_le f
  have hl := h1.setup_length
  have e2 : m2.read REAL_MODE_KERNEL_ADDR (setupPart f).length = setupPart f := by
    rw [Mem.read_congr fun x hx hx' => h2.low ?_]
    · exact h1.setup
    · simp only [REAL_MODE_KERNEL_ADDR] at hx'
      simp only [LINUX_BOOT_PARAMS_ADDR]
      omega
  rw [← hl, Mem.read_congr fun x hx _ => h3 x (by simp only [REAL_MODE_KERNEL_ADDR] at hx; omega)]
  cases cmdline with
  | none => simp [copyCmdline, e2]
  | some c => simpa [copyCmdline] using Mem.read_write_iff e2

/-- From 1 MiB on, memory is what the initrd step has left. -/
theorem high_eq (h3 : ∀ x, 0x8000 ≤ x → m x = copyCmdline cmdline m2 x) {x : Nat}
    (hx : LINUX_BOOT_PARAMS_ADDR ≤ x) : m x = m2 x := by
  simp only [LINUX_BOOT_PARAMS_ADDR] at hx
  rw [h3 x (by omega), copyCmdline_out _ _ (by simp only [COMMAND_LINE_ADDR]; omega)]

theorem payload_intact_iff (h1 : KernelLoaded f m1) (h2 : AfterInitrd initrd m1 m2)
    (h3 : ∀ x, 0x8000 ≤ x → m x = copyCmdline cmdline m2 x) :
    m.read KERNEL_LOAD_ADDR (f.bytes.length - setupBytes f) = payloadPart f ↔
      ∀ g ∈ initrd, Mem.Agree KERNEL_LOAD_ADDR (payloadPart f)
        (initrdStart (LINUX_MEM_SIZE - 1) g.bytes.length) g.bytes := by
  have hl : (payloadPart f).length = f.bytes.length - setupBytes f := by
    rw [payloadPart, List.length_drop]
  have hhigh : ∀ x, KERNEL_LOAD_ADDR ≤ x → LINUX_BOOT_PARAMS_ADDR + BOOT_PARAMS_SIZE ≤ x :=
      fun x hx => by
    simp only [LINUX_BOOT_PARAMS_ADDR, BOOT_PARAMS_SIZE, KERNEL_LOAD_ADDR] at hx ⊢
    omega
  rw [← hl, Mem.read_congr fun x hx _ => high_eq h3 (by have := hhigh x hx; omega)]
  cases initrd with
  | none =>
    rw [show m2 = m1 from h2]
    simp [h1.payload]
  | some g =>
    rw [Mem.read_congr fun x hx _ => InitrdPlaced.mem h2 x (Or.inr (hhigh x hx))]
    simpa using Mem.read_write_iff h1.payload

theorem initrd_intact (h2 : AfterInitrd initrd m1 m2)
    (h3 : ∀ x, 0x8000 ≤ x → m x = copyCmdline cmdline m2 x) :
    ∀ g ∈ initrd, m.read (m.load 4 (LINUX_BOOT_PARAMS_ADDR + RAMDISK_IMAGE_OFF))
      (m.load 4 (LINUX_BOOT_PARAMS_ADDR + RAMDISK_SIZE_OFF)) = g.bytes := by
  intro g hg
  obtain rfl := Option.mem_def.1 hg
  have habove := InitrdPlaced.above h2
  rw [Mem.load_congr fun x hx _ => high_eq h3 (by omega), Mem.load_congr fun x hx _ =>
    high_eq h3 (by omega),
    InitrdPlaced.image h2, InitrdPlaced.size h2]
  rw [Mem.read_congr (m := m1.write (initrdStart (LINUX_MEM_SIZE - 1) g.bytes.length) g.bytes)]
  · exact Mem.read_write _ _ _
  · intro x hx _
    simp only [KERNEL_LOAD_ADDR] at habove
    rw [high_eq h3 (by simp only [LINUX_BOOT_PARAMS_ADDR]; omega),
      InitrdPlaced.mem h2 x
        (Or.inr (by simp only [LINUX_BOOT_PARAMS_ADDR, BOOT_PARAMS_SIZE]; omega))]

end Path

/-- The file `--initrd` names, if there is one. -/
def initrdFile (k : LinuxCalls) : Option HostFile := k.initrd.bind (·.openFile)

theorem loadInitrdIfGiven_wp (k : LinuxCalls) (s : St)
    (hmax : s.mem.load 4 (LINUX_BOOT_PARAMS_ADDR + INITRD_ADDR_MAX_OFF) = INITRD_ADDR_MAX)
    (hmem : s.ctx.memSize = LINUX_MEM_SIZE) :
    wp (loadInitrdIfGiven k.initrd LINUX_BOOT_PARAMS_ADDR)
      (fun _ t => s.Closed t ∧ AfterInitrd (initrdFile k) s.mem t.mem)
      (fun _ t => s.Closed t) s := by
  unfold loadInitrdIfGiven initrdFile
  cases k.initrd with
  | none => exact ⟨⟨s.fds.filesOnly_refl, rfl⟩, rfl⟩
  | some ki =>
    refine wp_mono (loadInitrd_wp ki s hmax hmem) (fun _ t h => ?_) fun _ t h => h
    obtain ⟨hc, g, hg, hp⟩ := h
    refine ⟨hc, ?_⟩
    rw [Option.bind_some, hg]
    exact hp

theorem chooseEntry_wp (entry : LinuxEntryMode) (bp : Nat) (s : St) :
    wp (chooseEntry entry bp)
      (fun _ t => t.fds = s.fds ∧ t.mem = s.mem ∧ t.ctx.vcpuFd = s.ctx.vcpuFd ∧ t.ctx.linuxGuest =
        s.ctx.linuxGuest)
      (fun _ t => t.fds = s.fds ∧ t.ctx.vcpuFd = s.ctx.vcpuFd) s := by
  simp [chooseEntry]

theorem startSinglestep_wp (k : Option Bool) (s : St) :
    wp (startSinglestep k)
      (fun _ t => t.fds = s.fds ∧ t.mem = s.mem ∧ t.ctx.vcpuFd = s.ctx.vcpuFd)
      (fun _ t => t.fds = s.fds ∧ t.ctx.vcpuFd = s.ctx.vcpuFd) s := by
  cases k <;> simp [startSinglestep]

/-- Memory when the vCPU starts, by the steps that made it. -/
def Booted (o : LinuxOpts) (k : LinuxCalls) (m : Mem) : Prop :=
  ∃ f m1 m2, k.kernel.openFile = some f ∧ KernelLoaded f m1 ∧ AfterInitrd (initrdFile k) m1 m2 ∧
    ∀ x, 0x8000 ≤ x → m x = copyCmdline o.cmdline m2 x

/-- What `main` does after the initrd step: no table of the entry modes reaches
above 0x8000, so only the command line is written there. -/
theorem setupLinux_tail_wp (o : LinuxOpts) (k : LinuxCalls) (s : St)
    (hlin : s.ctx.linuxGuest = true) (hfd : s.ctx.vcpuFd = -1) :
    wp (do
        chooseEntry o.entry LINUX_BOOT_PARAMS_ADDR
        updMem (copyCmdline o.cmdline)
        setupVcpuContext k.vcpu
        startSinglestep k.singlestep)
      (fun _ t => s.Opened t ∧ ∀ x, 0x8000 ≤ x → t.mem x = copyCmdline o.cmdline s.mem x)
      (fun _ t => s.Aborted t) s := by
  have hrefl := s.fds.filesOnly_refl
  rw [wp_bind]
  refine wp_mono (chooseEntry_wp _ _ _) (fun _ s5 h5 => ?_) fun _ t h =>
    Or.inl ⟨h.1 ▸ hrefl, h.2 ▸ hfd⟩
  obtain ⟨hf5, hm5, hfd5, hlin5⟩ := h5
  rw [wp_bind, wp_updMem, wp_bind]
  have hf5' : s.fds.FilesOnly s5.fds := hf5 ▸ hrefl
  refine wp_mono (setupVcpuContext_wp _ _) (fun _ s6 h6 => ?_) fun _ t h => h.of_filesOnly hf5'
  obtain ⟨hf6, hc6, hm6⟩ := h6
  simp only at hf6 hm6
  rw [if_pos (hlin5.trans hlin)] at hm6
  have hopen : s.Opened s6 := ⟨s5.fds, hf5', hf6, by rw [hc6]; rfl⟩
  refine wp_mono (startSinglestep_wp _ _) (fun _ t h => ?_) fun _ t h => Or.inr ?_
  · obtain ⟨hft, hmt, hfdt⟩ := h
    refine ⟨?_, fun x hx => ?_⟩
    · obtain ⟨mid, h1, h2, h3⟩ := hopen
      exact ⟨mid, h1, hft.trans h2, hfdt.trans h3⟩
    · rw [hmt, hm6, linuxEntryMem_out _ _ hx, hm5]
  · obtain ⟨mid, h1, h2, h3⟩ := hopen
    exact ⟨mid, h1, h.1.trans h2, h.2.trans h3⟩

theorem setupLinux_wp (o : LinuxOpts) (k : LinuxCalls) (fds : Fds) :
    wp (setupLinux o k)
      (fun _ t => (St.enter fds (initLinuxContext o)).Opened t ∧ Booted o k t.mem)
      (fun _ t => (St.enter fds (initLinuxContext o)).Aborted t)
        (St.enter fds (initLinuxContext o)) := by
  have hrefl := (St.enter fds (initLinuxContext o)).fds.filesOnly_refl
  unfold setupLinux
  rw [wp_bind]
  refine wp_mono (setupVcpuMemory_wp _ _) (fun _ s1 h1 => ?_) fun _ t h => Or.inl ⟨h.1 ▸ hrefl, h.2⟩
  obtain ⟨hf1, hc1, -, -⟩ := h1
  have hmem1 : s1.ctx.memSize = LINUX_MEM_SIZE := by rw [hc1]; rfl
  have hfd1 : s1.ctx.vcpuFd = -1 := by rw [hc1]; rfl
  have hlin1 : s1.ctx.linuxGuest = true := by rw [hc1]; rfl
  rw [wp_bind, wp_updMem, wp_bind, wp_updMem, wp_bind]
  refine wp_mono (loadLinuxKernel_wp _ _) (fun _ s2 h2 => ?_) fun _ t h =>
    Or.inl ⟨hf1 ▸ h.1, h.2 ▸ hfd1⟩
  obtain ⟨⟨hf2, hc2⟩, f, hf, hk2⟩ := h2
  simp only [hf1] at hf2
  simp only at hc2
  rw [wp_bind, wp_get, wp_bind, wp_updMem, wp_bind]
  have hbp := setupLinuxBootParams_spec s2.ctx.memSize o.cmdline.isSome s2.mem
  have hk3 := hk2.congr hbp.1
  generalize setupLinuxBootParams LINUX_BOOT_PARAMS_ADDR s2.ctx.memSize o.cmdline.isSome s2.mem =
    m3 at *
  refine wp_mono (loadInitrdIfGiven_wp k { s2 with mem := m3 } hbp.2 (hc2 ▸ hmem1))
    (fun _ s4 h4 => ?_)
    fun _ t h => Or.inl ⟨hf2.trans h.1, by rw [h.2]; exact hc2 ▸ hfd1⟩
  obtain ⟨⟨hf4, hc4⟩, ha4⟩ := h4
  have hf4 := hf2.trans hf4
  have hfd4 : s4.ctx.vcpuFd = -1 := by rw [hc4]; exact hc2 ▸ hfd1
  have hlin4 : s4.ctx.linuxGuest = true := by rw [hc4]; exact hc2 ▸ hlin1
  refine wp_mono (setupLinux_tail_wp o k s4 hlin4 hfd4) (fun _ t h => ?_) fun _ t h =>
    h.of_filesOnly hf4
  exact ⟨h.1.of_filesOnly hf4, f, m3, s4.mem, hf, hk3, ha4, h.2⟩

/-- When the vCPU starts, the image is complete exactly when the command line
agrees with the setup sectors and the initrd with the payload wherever they
overlap. -/
theorem linux_image_intact_iff {o : LinuxOpts} {k : LinuxCalls} {fds : Fds} {s : St} {u : Unit}
    (hs : setupLinux o k (St.enter fds (initLinuxContext o)) = .ok u s) {f : HostFile}
    (hf : k.kernel.openFile = some f) :
    ImageIntact f (initrdFile k) s.mem ↔ CopiesAgree o.cmdline f (initrdFile k) := by
  obtain ⟨-, f', m1, m2, hf', h1, h2, h3⟩ := wp_ok (setupLinux_wp o k fds) hs
  obtain rfl : f = f' := Option.some.inj (hf.symm.trans hf')
  rw [CopiesAgree, ← setup_intact_iff h1 h2 h3, ← payload_intact_iff h1 h2 h3]
  exact ⟨fun h => ⟨h.setup, h.payload⟩, fun h => ⟨h.1, h.2, initrd_intact h2 h3⟩⟩

/-! ## A path that meets no error -/

/-- What `load_linux_kernel` checks of an image. -/
structure BzImage (f : HostFile) : Prop where
  header : HDR_OFF + HDR_SIZE ≤ f.bytes.length
  bootFlag : (fileMem f).load 2 BOOT_FLAG_OFF = 0xAA55
  magic : (fileMem f).load 4 HEADER_OFF = LINUX_BOOT_SIGNATURE
  high : (fileMem f).load 1 LOADFLAGS_OFF &&& LOADED_HIGH ≠ 0
  setup : setupBytes f ≤ f.bytes.length
  fits : KERNEL_LOAD_ADDR + (f.bytes.length - setupBytes f) ≤ LINUX_MEM_SIZE

def KernelCalls.ofFile (f : HostFile) : KernelCalls :=
  { openFile := some f, fstat := true, mallocHeader := true, readHeader := 4096, heap := fun _ => 0,
    mallocSetup := true, readSetup := f.bytes.length, mallocKernel := true,
    readKernel := f.bytes.length }

theorem loadLinuxKernel_succeeds {f : HostFile} (hf : BzImage f) (s : St)
    (hmem : s.ctx.memSize = LINUX_MEM_SIZE) :
    wp (loadLinuxKernel (.ofFile f) LINUX_BOOT_PARAMS_ADDR) (fun _ t => t.ctx = s.ctx)
      (fun _ _ => False) s := by
  have hh := hf.header
  simp only [HDR_OFF, HDR_SIZE] at hh
  have hn : min 4096 (min 4096 f.bytes.length) ≤ f.bytes.length := by omega
  have hl : ∀ w off, off + w ≤ 0x268 →
      (Mem.write (fun _ => 0) 0 (f.bytes.take (min 4096 (min 4096 f.bytes.length)))).load w off =
        (fileMem f).load w off := fun w off h => load_header (by omega) hn
  have hsects : setupSize ((fileMem f).load 1 HDR_OFF) = setupBytes f := by
    rw [setupBytes]
    simp [Mem.load, Mem.read, List.range_succ, leVal, fileMem]
  have hset := hf.setup
  have hfit := hf.fits
  have hle := setupBytes_le f
  have hmin : 512 ≤ min 4096 (min 4096 f.bytes.length) := by omega
  have hreal : REAL_MODE_KERNEL_ADDR + setupBytes f ≤ LINUX_MEM_SIZE := by
    simp only [REAL_MODE_KERNEL_ADDR, LINUX_MEM_SIZE]
    omega
  rw [loadLinuxKernel, KernelCalls.ofFile]
  simp only
  rw [wp_withFd]
  simp only [loadLinuxKernelFrom, wp_bind, wp_check, wp_require, wp_updMem, wp_get, hmem,
    hl 2 BOOT_FLAG_OFF (by decide), hl 4 HEADER_OFF (by decide), hl 1 LOADFLAGS_OFF (by decide),
    hl 1 HDR_OFF (by decide), hf.bootFlag, hf.magic, hf.high, hsects, hmin, hreal, hfit, min_self,
    hset, Nat.sub_le, not_true, ne_eq, not_false_iff, and_self, imp_false, implies_true,
    reduceCtorEq]

theorem setupVcpuContext_succeeds (s : St) (hlin : s.ctx.linuxGuest = true) :
    wp (setupVcpuContext .allOk) (fun _ _ => True) (fun _ _ => False) s := by
  unfold setupVcpuContext
  rw [wp_bind]
  have hcreate :
      wp (createVcpu .allOk) (fun _ t => t.ctx.linuxGuest = s.ctx.linuxGuest)
      (fun _ _ => False) s := by
    simp [createVcpu, VcpuCalls.allOk]
  refine wp_mono hcreate (fun sr s1 h1 => ?_) fun _ _ h => h
  rw [wp_bind, wp_get, wp_bind, if_pos (h1.trans hlin)]
  have hentry : wp (setupLinuxEntry .allOk sr) (fun _ _ => True) (fun _ _ => False) s1 := by
    unfold setupLinuxEntry
    rw [wp_bind, wp_get]
    cases s1.ctx.linuxEntry with
    | boot64 => simp [configureLinuxBoot64Entry, VcpuCalls.allOk, CpuidCalls.allOk]
    | code32 => simp [configureLinuxCode32Entry, VcpuCalls.allOk, CpuidCalls.allOk]
    | setup => simp [configureLinuxSetupEntry, VcpuCalls.allOk, CpuidCalls.allOk]
  exact wp_mono hentry (fun _ _ _ => trivial) fun _ _ h => h

/-- Without an initrd and with no failing call, every valid image is booted. -/
theorem setupLinux_succeeds {f : HostFile} (hf : BzImage f) {entry : LinuxEntryMode}
    (he : entry ≠ .boot64) (rsi : LinuxRsiMode) (cmdline : Option CStr) (fds : Fds) :
    wp (setupLinux ⟨entry, rsi, cmdline⟩ ⟨.allOk, .ofFile f, none, none⟩) (fun _ _ => True)
      (fun _ _ => False)
      (St.enter fds (initLinuxContext ⟨entry, rsi, cmdline⟩)) := by
  unfold setupLinux
  rw [wp_bind]
  have hmem :
      wp (setupVcpuMemory .allOk)
        (fun _ t => t.ctx.memSize = LINUX_MEM_SIZE ∧ t.ctx.linuxGuest = true)
        (fun _ _ => False) (St.enter fds (initLinuxContext ⟨entry, rsi, cmdline⟩)) := by
    simp [setupVcpuMemory, VcpuCalls.allOk, St.enter, initLinuxContext, vcpuMemSize, LINUX_MEM_SIZE]
  refine wp_mono hmem (fun _ s1 h1 => ?_) fun _ _ h => h
  rw [wp_bind, wp_updMem, wp_bind, wp_updMem, wp_bind]
  refine wp_mono (loadLinuxKernel_succeeds hf _ h1.1) (fun _ s2 h2 => ?_) fun _ _ h => h
  simp only at h2
  rw [wp_bind, wp_get, wp_bind, wp_updMem, wp_bind, loadInitrdIfGiven, wp_pure, wp_bind]
  have hentry : ∀ s, wp (chooseEntry entry LINUX_BOOT_PARAMS_ADDR)
      (fun _ t => t.ctx.linuxGuest = s.ctx.linuxGuest) (fun _ _ => False) s := fun s => by
    simp [chooseEntry, he]
  refine wp_mono (hentry _) (fun _ s3 h3 => ?_) fun _ _ h => h
  rw [wp_bind, wp_updMem, wp_bind]
  refine wp_mono (setupVcpuContext_succeeds _ ?_) (fun _ _ _ => trivial) fun _ _ h => h
  show s3.ctx.linuxGuest = true
  rw [h3, h2]
  exact h1.2

/-! ### An image whose setup sectors reach the command line -/

def bigSetupHeader : List UInt8 :=
  List.replicate 0x1f1 0 ++ [0x80] ++ List.replicate 12 0 ++ [0x55, 0xAA, 0, 0, 0x48, 0x64, 0x72,
    0x53] ++
    List.replicate 11 0 ++ [1]

theorem bigSetupHeader_length : bigSetupHeader.length = 0x212 := by
  simp only [bigSetupHeader, List.length_append, List.length_replicate, List.length_cons,
    List.length_nil]

/-- 129 sectors of setup code and no payload: a header, then zeros. -/
@[irreducible] def bigSetup : HostFile :=
  ⟨bigSetupHeader ++ List.replicate (0x10200 - 0x212) 0, by
    rw [List.length_append, bigSetupHeader_length, List.length_replicate]
    decide⟩

theorem bigSetup_bytes : bigSetup.bytes = bigSetupHeader ++ List.replicate (0x10200 - 0x212) 0 := by
  rw [bigSetup]

theorem bigSetup_length : bigSetup.bytes.length = 0x10200 := by
  rw [bigSetup_bytes, List.length_append, bigSetupHeader_length, List.length_replicate]

theorem bigSetup_tail {i : Nat} (h : 0x212 ≤ i) : bigSetup.bytes.getD i 0 = 0 := by
  have hlen := bigSetupHeader_length
  rw [bigSetup_bytes, List.getD_eq_getElem?_getD, List.getElem?_append_right (by omega),
    List.getElem?_replicate]
  split <;> rfl

theorem bigSetup_bzImage : BzImage bigSetup where
  header := by rw [bigSetup_length]; decide
  bootFlag := by decide +kernel
  magic := by decide +kernel
  high := by decide +kernel
  setup := by rw [bigSetup_length]; decide +kernel
  fits := by rw [bigSetup_length]; decide +kernel

/-- The command line `a`. -/
def cmdlineA : CStr := ⟨[0x61], by decide⟩

def bootBigSetup : LinuxOpts := ⟨.code32, .base, some cmdlineA⟩

def bigSetupCalls : LinuxCalls := ⟨.allOk, .ofFile bigSetup, none, none⟩

theorem bigSetup_boots (fds : Fds) :
    ∃ u s, setupLinux bootBigSetup bigSetupCalls
      (St.enter fds (initLinuxContext bootBigSetup)) = .ok u s :=
  wp_succeeds (setupLinux_succeeds bigSetup_bzImage
    (show LinuxEntryMode.code32 ≠ .boot64 by decide) .base (some cmdlineA) fds)

theorem linux_image_intact_iff_bigSetup :
    ∃ u s, setupLinux bootBigSetup bigSetupCalls
        (St.enter ⟨[4, 3, 2, 1, 0], [3, 4], []⟩ (initLinuxContext bootBigSetup)) = .ok u s ∧
      (ImageIntact bigSetup none s.mem ↔ CopiesAgree (some cmdlineA) bigSetup none) := by
  obtain ⟨u, s, hs⟩ := bigSetup_boots ⟨[4, 3, 2, 1, 0], [3, 4], []⟩
  exact ⟨u, s, hs, linux_image_intact_iff (f := bigSetup) hs rfl⟩

/-- The command line is copied into the setup sectors. -/
theorem cmdline_overwrites_setup :
    ¬ ∀ (o : LinuxOpts) (k : LinuxCalls) (fds : Fds) (u : Unit) (s : St) (f : HostFile),
      setupLinux o k (St.enter fds (initLinuxContext o)) = .ok u s → k.kernel.openFile = some f →
        ImageIntact f (initrdFile k) s.mem := by
  intro hall
  obtain ⟨u, s, hs⟩ := bigSetup_boots ⟨[4, 3, 2, 1, 0], [3, 4], []⟩
  have hint := hall bootBigSetup bigSetupCalls _ u s bigSetup hs rfl
  obtain ⟨-, f, m1, m2, hf, h1, h2, h3⟩ := wp_ok (setupLinux_wp bootBigSetup bigSetupCalls _) hs
  obtain rfl : bigSetup = f := Option.some.inj hf
  have hset : setupBytes bigSetup = 0x10200 := by decide +kernel
  have hlen := h1.setup_length
  have hag := (setup_intact_iff h1 h2 h3).1 hint.setup cmdlineA rfl 0x20000 (by decide)
    (by rw [hlen, hset]; decide) (by decide) (by decide)
  rw [setupPart, List.getD_eq_getElem?_getD, List.getElem?_take_of_lt (by rw [hset]; decide),
    ← List.getD_eq_getElem?_getD, bigSetup_tail (by decide)] at hag
  exact absurd hag (by decide)

end MiniKvm.Linux
