import MiniKvm.Linux.Initrd

/-!
# Which header the kernel reads

Two copies of the setup header are in guest memory: the one in the zero page,
which `setup_linux_boot_params` and `load_initrd` fill in, and the one in the
setup sectors at 0x10000, which nothing touches after it was loaded.

`initrd_limit_honoured_iff`: the limit `load_initrd` obeys is the constant
0x37FFFFFF, stored over the limit the image declares.

`boot_params_reach_kernel_iff`: the 32-bit and 64-bit entries read the zero page.
The 16-bit entry reads the loaded setup sectors, where the parameters are only
if the file already had them.
-/
namespace MiniKvm.Linux

open Vmm

/-! ## The kernel's own initrd limit -/

/-- The three calls in which the limit is parsed, rewritten and used.
mirrors kvm-vmm-x86/src/main.c:3027-3051 -/
def loadLinux (k : KernelCalls) (ki : InitrdCalls) (cmdline : Bool) : EStateM Unit St Unit := do
  loadLinuxKernel k LINUX_BOOT_PARAMS_ADDR
  let s ← get
  updMem (setupLinuxBootParams LINUX_BOOT_PARAMS_ADDR s.ctx.memSize cmdline)
  loadInitrd ki LINUX_BOOT_PARAMS_ADDR

/-- The limit the image declares. -/
def declaredLimit (f : HostFile) : Nat := (fileMem f).load 4 INITRD_ADDR_MAX_OFF

/-- The last byte of the initrd, where the header in memory says it is. -/
def initrdLast (m : Mem) : Nat :=
  m.load 4 (LINUX_BOOT_PARAMS_ADDR + RAMDISK_IMAGE_OFF) +
    m.load 4 (LINUX_BOOT_PARAMS_ADDR + RAMDISK_SIZE_OFF) - 1

theorem loadInitrd_spec (ki : InitrdCalls) (s : St) :
    wp (loadInitrd ki LINUX_BOOT_PARAMS_ADDR)
      (fun _ t => ∃ g start,
        ki.openFile = some g ∧ t.ctx = s.ctx ∧ t.mem = putInitrd start g s.mem ∧
        start = initrdStart (min (initrdAddrMax s.mem) (s.ctx.memSize - 1)) g.bytes.length ∧
        InitrdLoaded g s.ctx.memSize s.mem t.mem start)
      (fun _ t => t.mem = s.mem) s := by
  unfold loadInitrd
  split
  · rfl
  · rename_i g hg
    rw [wp_withFd]
    refine wp_mono (loadInitrdFrom_exact ki g _) (fun _ t h => ?_) fun _ t h => h
    obtain ⟨hpos, h0, hle, hfit, habove, hmem, hctx⟩ := h
    simp only at hpos h0 hle hfit habove hmem hctx ⊢
    refine ⟨g, _, hg, hctx, hmem, ?_, ?_⟩
    · rw [maxEndOf_eq _ _ hpos]
    · rw [hmem]
      exact putInitrd_loaded hpos h0 hfit rfl habove

theorem loadLinux_spec (k : KernelCalls) (ki : InitrdCalls) (cmdline : Bool) (s : St) :
    wp (loadLinux k ki cmdline)
      (fun _ t => ∃ f g, k.openFile = some f ∧ ki.openFile = some g ∧
        initrdLast t.mem =
          initrdStart (min INITRD_ADDR_MAX (s.ctx.memSize - 1)) g.bytes.length + g.bytes.length - 1)
      (fun _ _ => True) s := by
  unfold loadLinux
  rw [wp_bind]
  refine wp_mono (loadLinuxKernel_wp k s) (fun _ s1 h1 => ?_) fun _ _ _ => trivial
  obtain ⟨⟨-, hc1⟩, f, hf, -⟩ := h1
  rw [wp_bind, wp_get, wp_bind, wp_updMem]
  refine wp_mono (loadInitrd_spec ki _) (fun _ t h => ?_) fun _ _ _ => trivial
  obtain ⟨g, start, hg, -, -, hstart, hload⟩ := h
  -- by now the limit in the header is the constant
  have hmax := (setupLinuxBootParams_spec s1.ctx.memSize cmdline s1.mem).2
  rw [hc1] at hmax
  simp only [initrdAddrMax, hc1, hmax] at hstart
  exact ⟨f, g, hf, hg, by rw [initrdLast, hload.image, hload.size, hstart]⟩

/-- The initrd ends within the limit its kernel declares exactly when the
highest place below 0x37FFFFFF and the end of memory already does. -/
theorem initrd_limit_honoured_iff {k : KernelCalls} {ki : InitrdCalls} {cmdline : Bool} {s t : St}
    {u : Unit} (h : loadLinux k ki cmdline s = .ok u t) :
    ∃ f g, k.openFile = some f ∧ ki.openFile = some g ∧
      (initrdLast t.mem ≤ declaredLimit f ↔
        initrdStart (min INITRD_ADDR_MAX (s.ctx.memSize - 1)) g.bytes.length + g.bytes.length - 1 ≤
          declaredLimit f) := by
  obtain ⟨f, g, hf, hg, hlast⟩ := wp_ok (loadLinux_spec k ki cmdline s) h
  exact ⟨f, g, hf, hg, by rw [hlast]⟩

def limit128MHeader : List UInt8 :=
  List.replicate 0x1f1 0 ++ [1] ++ List.replicate 12 0 ++ [0x55, 0xAA, 0, 0, 0x48, 0x64, 0x72,
    0x53] ++
    List.replicate 11 0 ++ [1] ++ List.replicate 26 0 ++ [0xFF, 0xFF, 0xFF, 0x07]

/-- An image without payload that declares a limit of 0x07FFFFFF. -/
def limit128M : HostFile := ⟨limit128MHeader ++ List.replicate (0x400 - 0x230) 0, by decide +kernel⟩

def mem256M : St := St.enter ⟨[], [], []⟩ { vcpuId := 0, vcpuFd := -1, memSize := LINUX_MEM_SIZE }

theorem loadLinux_limit128M :
    ∃ u t, loadLinux (.ofFile limit128M) (.ofFile oneByte) false mem256M = .ok u t ∧
      initrdLast t.mem = 0x0FFFF000 := by
  have hrun : returns (loadLinux (.ofFile limit128M) (.ofFile oneByte) false) mem256M
      (fun _ t => initrdLast t.mem == 0x0FFFF000) = true := by
    decide +kernel
  obtain ⟨u, t, ht, hlast⟩ := ok_of_returns hrun
  exact ⟨u, t, ht, beq_iff_eq.1 hlast⟩

theorem initrd_limit_honoured_iff_limit128M :
    ∃ u t, loadLinux (.ofFile limit128M) (.ofFile oneByte) false mem256M = .ok u t ∧
      ∃ f g, some limit128M = some f ∧ some oneByte = some g ∧
        (initrdLast t.mem ≤ declaredLimit f ↔
          initrdStart (min INITRD_ADDR_MAX (LINUX_MEM_SIZE - 1)) g.bytes.length +
            g.bytes.length - 1 ≤
            declaredLimit f) := by
  obtain ⟨u, t, ht, -⟩ := loadLinux_limit128M
  exact ⟨u, t, ht, initrd_limit_honoured_iff ht⟩

/-- The initrd is put at 0x0FFFF000, above the declared 0x07FFFFFF. -/
theorem initrd_above_declared_limit :
    ¬ ∀ (k : KernelCalls) (ki : InitrdCalls) (cmdline : Bool) (s t : St) (u : Unit) (f : HostFile),
      loadLinux k ki cmdline s = .ok u t → k.openFile = some f →
        initrdLast t.mem ≤ declaredLimit f := by
  intro hall
  obtain ⟨u, t, ht, hlast⟩ := loadLinux_limit128M
  have hle := hall _ _ _ _ t u limit128M ht rfl
  rw [hlast] at hle
  exact absurd hle (by decide +kernel)

/-! ## The header of each entry -/

/-- Where the kernel reads its setup header, by the entry it is started at. -/
def headerBase : LinuxEntryMode → Nat
  | .setup => REAL_MODE_KERNEL_ADDR
  | .code32 => LINUX_BOOT_PARAMS_ADDR
  | .boot64 => LINUX_BOOT_PARAMS_ADDR

/-- The header in `m` at `base` has the loader's type, the command line and the
place of the initrd. -/
structure ParamsSet (o : LinuxOpts) (initrd : Option HostFile) (m : Mem) (base : Nat) : Prop where
  loader : m.load 1 (base + TYPE_OF_LOADER_OFF) = LOADER_TYPE_UNDEFINED
  cmdline : o.cmdline.isSome → m.load 4 (base + CMD_LINE_PTR_OFF) = COMMAND_LINE_ADDR
  initrd : ∀ g ∈ initrd,
    m.load 4 (base + RAMDISK_IMAGE_OFF) = initrdStart (LINUX_MEM_SIZE - 1) g.bytes.length ∧
      m.load 4 (base + RAMDISK_SIZE_OFF) = g.bytes.length

/-- `ParamsSet` looks only at the header. -/
theorem ParamsSet.congr {o : LinuxOpts} {initrd : Option HostFile} {m m' : Mem} {base base' : Nat}
    (h : ∀ w off, HDR_OFF ≤ off → off + w ≤ HDR_OFF + HDR_SIZE →
      m'.load w (base' + off) = m.load w (base + off)) :
    ParamsSet o initrd m' base' ↔ ParamsSet o initrd m base := by
  have h1 := h 1 TYPE_OF_LOADER_OFF (by decide) (by decide)
  have h2 := h 4 CMD_LINE_PTR_OFF (by decide) (by decide)
  have h3 := h 4 RAMDISK_IMAGE_OFF (by decide) (by decide)
  have h4 := h 4 RAMDISK_SIZE_OFF (by decide) (by decide)
  constructor
  · intro hp
    exact ⟨h1 ▸ hp.loader, h2 ▸ hp.cmdline, h3 ▸ h4 ▸ hp.initrd⟩
  · intro hp
    exact ⟨h1.trans hp.loader, fun hc => h2.trans (hp.cmdline hc), fun g hg =>
      ⟨h3.trans (hp.initrd g hg).1, h4.trans (hp.initrd g hg).2⟩⟩

theorem setupLinuxBootParams_set (memSize : Nat) (cmdline : Bool) (m : Mem) :
    (setupLinuxBootParams LINUX_BOOT_PARAMS_ADDR memSize cmdline m).load 1
        (LINUX_BOOT_PARAMS_ADDR + TYPE_OF_LOADER_OFF) = LOADER_TYPE_UNDEFINED ∧
      (cmdline = true → (setupLinuxBootParams LINUX_BOOT_PARAMS_ADDR memSize cmdline m).load 4
        (LINUX_BOOT_PARAMS_ADDR + CMD_LINE_PTR_OFF) = COMMAND_LINE_ADDR) := by
  unfold setupLinuxBootParams
  constructor
  · rw [Mem.load_store_out _ _ (by decide), Mem.load_store]
    rfl
  · intro hc
    subst hc
    rw [Mem.load_store_out _ _ (by decide), Mem.load_store_out _ _ (by decide), if_pos rfl,
      Mem.load_store]
    rfl

/-- The initrd step touches three fields of the header. -/
theorem putInitrd_load {start : Nat} (g : HostFile) (m : Mem) (hk : KERNEL_LOAD_ADDR ≤ start)
    {w off : Nat} (h : off + w ≤ BOOT_PARAMS_SIZE)
    (hout : off + w ≤ RAMDISK_IMAGE_OFF ∨ RAMDISK_SIZE_OFF + 4 ≤ off ∧
      off + w ≤ INITRD_ADDR_MAX_OFF ∨
      INITRD_ADDR_MAX_OFF + 4 ≤ off) :
    (putInitrd start g m).load w (LINUX_BOOT_PARAMS_ADDR + off) =
      m.load w (LINUX_BOOT_PARAMS_ADDR + off) := by
  simp only [RAMDISK_IMAGE_OFF, RAMDISK_SIZE_OFF, INITRD_ADDR_MAX_OFF, BOOT_PARAMS_SIZE,
    KERNEL_LOAD_ADDR]
    at h hout hk
  unfold putInitrd
  rw [Mem.load_store_out _ _ (by simp only [INITRD_ADDR_MAX_OFF]; omega),
    Mem.load_store_out _ _ (by simp only [RAMDISK_SIZE_OFF]; omega),
    Mem.load_store_out _ _ (by simp only [RAMDISK_IMAGE_OFF]; omega)]
  refine Mem.load_congr fun x h1 h2 => Mem.write_out _ (Or.inl ?_)
  simp only [LINUX_BOOT_PARAMS_ADDR] at h1 h2
  omega

theorem loadInitrdIfGiven_set (o : LinuxOpts) (k : LinuxCalls) (s : St)
    (hmem : s.ctx.memSize = LINUX_MEM_SIZE) (hmax : initrdAddrMax s.mem = INITRD_ADDR_MAX)
      (hset : ParamsSet o none s.mem LINUX_BOOT_PARAMS_ADDR) :
    wp (loadInitrdIfGiven k.initrd LINUX_BOOT_PARAMS_ADDR)
      (fun _ t => t.ctx = s.ctx ∧ ParamsSet o (initrdFile k) t.mem LINUX_BOOT_PARAMS_ADDR)
      (fun _ _ => True) s := by
  unfold loadInitrdIfGiven initrdFile
  cases k.initrd with
  | none => exact ⟨rfl, hset⟩
  | some ki =>
    refine wp_mono (loadInitrd_spec ki s) (fun _ t h => ?_) fun _ _ _ => trivial
    obtain ⟨g, start, hg, hctx, hput, hstart, hload⟩ := h
    have hk : KERNEL_LOAD_ADDR ≤ start := Nat.le_trans (Nat.le_add_right _ _) hload.above
    refine ⟨hctx, ?_, fun hc => ?_, fun g' hg' => ?_⟩
    · rw [hput, putInitrd_load g s.mem hk (by decide) (by decide)]
      exact hset.loader
    · rw [hput, putInitrd_load g s.mem hk (by decide) (by decide)]
      exact hset.cmdline hc
    · rw [Option.bind_some, hg] at hg'
      obtain rfl : g = g' := Option.some.inj hg'
      rw [hmax, hmem,
        show min INITRD_ADDR_MAX (LINUX_MEM_SIZE - 1) = LINUX_MEM_SIZE - 1 from rfl] at hstart
      exact ⟨hload.image.trans hstart, hload.size⟩

/-- In the zero page the parameters are always set. -/
theorem setupLinux_params_wp (o : LinuxOpts) (k : LinuxCalls) (fds : Fds) :
    wp (setupLinux o k) (fun _ t => ParamsSet o (initrdFile k) t.mem LINUX_BOOT_PARAMS_ADDR)
      (fun _ _ => True)
      (St.enter fds (initLinuxContext o)) := by
  unfold setupLinux
  rw [wp_bind]
  refine wp_mono (setupVcpuMemory_wp _ _) (fun _ s1 h1 => ?_) fun _ _ _ => trivial
  have hmem1 : s1.ctx.memSize = LINUX_MEM_SIZE := by rw [h1.2.1]; rfl
  have hfd1 : s1.ctx.vcpuFd = -1 := by rw [h1.2.1]; rfl
  have hlin1 : s1.ctx.linuxGuest = true := by rw [h1.2.1]; rfl
  rw [wp_bind, wp_updMem, wp_bind, wp_updMem, wp_bind]
  refine wp_mono (loadLinuxKernel_wp _ _) (fun _ s2 h2 => ?_) fun _ _ _ => trivial
  have hc2 : s2.ctx = s1.ctx := h2.1.2
  rw [wp_bind, wp_get, wp_bind, wp_updMem, wp_bind]
  have hbp := setupLinuxBootParams_set s2.ctx.memSize o.cmdline.isSome s2.mem
  have hmax := (setupLinuxBootParams_spec s2.ctx.memSize o.cmdline.isSome s2.mem).2
  refine wp_mono (loadInitrdIfGiven_set o k _ (hc2 ▸ hmem1) hmax ⟨hbp.1, hbp.2, fun _ h =>
    nomatch h⟩)
    (fun _ s4 h4 => ?_) fun _ _ _ => trivial
  obtain ⟨hc4, hset⟩ := h4
  have hc4 : s4.ctx = s1.ctx := hc4.trans hc2
  refine wp_mono (setupLinux_tail_wp o k s4 (hc4 ▸ hlin1) (hc4 ▸ hfd1))
    (fun _ t h => ?_) fun _ _ _ => trivial
  -- the command line at 0x20000 is the only thing written after that
  refine (ParamsSet.congr fun w off h1 h2 => Mem.load_congr fun x hx hx' => ?_).2 hset
  simp only [LINUX_BOOT_PARAMS_ADDR] at hx
  rw [h.2 x (by omega), copyCmdline_out _ _ (Or.inr (by simp only [COMMAND_LINE_ADDR]; omega))]

/-- The header of the loaded setup sectors is the file's. -/
theorem Booted.setup_header {o : LinuxOpts} {k : LinuxCalls} {m : Mem} (h : Booted o k m)
    {f : HostFile}
    (hf : k.kernel.openFile = some f) {w off : Nat} (hw : off + w ≤ HDR_OFF + HDR_SIZE) :
    m.load w (REAL_MODE_KERNEL_ADDR + off) = (fileMem f).load w (0 + off) := by
  obtain ⟨f', m1, m2, hf', h1, h2, h3⟩ := h
  obtain rfl : f = f' := Option.some.inj (hf.symm.trans hf')
  have hge := setupBytes_ge f
  have hlen := h1.setup_length
  refine Mem.load_shift fun i hi => ?_
  have hlt : off + i < (setupPart f).length := by omega
  have hsmall : off + i < 0x268 := Nat.lt_of_lt_of_le (Nat.add_lt_add_left hi _) hw
  have hbyte := Mem.read_eq_iff.1 h1.setup (off + i) hlt
  rw [h3 _ (by simp only [REAL_MODE_KERNEL_ADDR]; omega),
    copyCmdline_out _ _ (Or.inl (by simp only [REAL_MODE_KERNEL_ADDR, COMMAND_LINE_ADDR]; omega)),
    h2.low (by simp only [REAL_MODE_KERNEL_ADDR, LINUX_BOOT_PARAMS_ADDR]; omega), Nat.add_assoc,
    hbyte]
  simp only [setupPart, List.getElem_take, fileMem, Nat.zero_add, List.getD_eq_getElem?_getD]
  rw [List.getElem?_eq_getElem, Option.getD_some]

theorem Booted.setup_params_iff {o : LinuxOpts} {k : LinuxCalls} {m : Mem} (h : Booted o k m)
    {f : HostFile} (hf : k.kernel.openFile = some f) :
    ParamsSet o (initrdFile k) m REAL_MODE_KERNEL_ADDR ↔ ParamsSet o (initrdFile k) (fileMem f) 0 :=
  ParamsSet.congr fun _ _ _ h2 => h.setup_header hf h2

/-- When the vCPU starts, the header that its entry reads has the boot
parameters, unless the entry is the 16-bit one and the file did not have them. -/
theorem boot_params_reach_kernel_iff {o : LinuxOpts} {k : LinuxCalls} {fds : Fds} {s : St}
    {u : Unit} (hs : setupLinux o k (St.enter fds (initLinuxContext o)) = .ok u s)
    {f : HostFile} (hf : k.kernel.openFile = some f) :
    ParamsSet o (initrdFile k) s.mem (headerBase o.entry) ↔
      (o.entry = .setup → ParamsSet o (initrdFile k) (fileMem f) 0) := by
  have hzero := wp_ok (setupLinux_params_wp o k fds) hs
  have hbooted := (wp_ok (setupLinux_wp o k fds) hs).2
  cases he : o.entry with
  | setup => exact (hbooted.setup_params_iff hf).trans ⟨fun h _ => h, fun h => h rfl⟩
  | code32 => exact ⟨fun _ hne => absurd hne (by decide), fun _ => hzero⟩
  | boot64 => exact ⟨fun _ hne => absurd hne (by decide), fun _ => hzero⟩

def bootSetupEntry : LinuxOpts := ⟨.setup, .base, none⟩

theorem bigSetup_boots_setup (fds : Fds) :
    ∃ u s, setupLinux bootSetupEntry bigSetupCalls
      (St.enter fds (initLinuxContext bootSetupEntry)) = .ok u s :=
  wp_succeeds (setupLinux_succeeds bigSetup_bzImage
    (show LinuxEntryMode.setup ≠ .boot64 by decide) .base none fds)

theorem boot_params_reach_kernel_iff_setup :
    ∃ u s, setupLinux bootSetupEntry bigSetupCalls
        (St.enter ⟨[4, 3, 2, 1, 0], [3, 4], []⟩ (initLinuxContext bootSetupEntry)) = .ok u s ∧
      (ParamsSet bootSetupEntry none s.mem REAL_MODE_KERNEL_ADDR ↔
        (LinuxEntryMode.setup = .setup → ParamsSet bootSetupEntry none (fileMem bigSetup) 0)) := by
  obtain ⟨u, s, hs⟩ := bigSetup_boots_setup ⟨[4, 3, 2, 1, 0], [3, 4], []⟩
  exact ⟨u, s, hs, boot_params_reach_kernel_iff (f := bigSetup) hs rfl⟩

/-- The loaded setup sectors still have the file's loader type, which is zero. -/
theorem setup_entry_reads_old_header :
    ¬ ∀ (o : LinuxOpts) (k : LinuxCalls) (fds : Fds) (u : Unit) (s : St),
      setupLinux o k (St.enter fds (initLinuxContext o)) = .ok u s →
        ParamsSet o (initrdFile k) s.mem (headerBase o.entry) := by
  intro hall
  obtain ⟨u, s, hs⟩ := bigSetup_boots_setup ⟨[4, 3, 2, 1, 0], [3, 4], []⟩
  have hset := hall bootSetupEntry bigSetupCalls _ u s hs
  have hbooted := (wp_ok (setupLinux_wp bootSetupEntry bigSetupCalls _) hs).2
  have hfile := (hbooted.setup_params_iff (f := bigSetup) rfl).1 hset
  exact absurd hfile.loader (by decide +kernel)

end MiniKvm.Linux
