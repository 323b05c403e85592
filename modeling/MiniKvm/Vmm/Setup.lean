import Mathlib.Data.List.Perm.Subperm
import Mathlib.Data.List.Range
import MiniKvm.Core.Prog
import MiniKvm.Vmm.Tables
import MiniKvm.Vmm.Vcpu

/-!
# Setting up one vCPU

`setup_vcpu_memory`, `load_guest_binary` and `setup_vcpu_context`
(kvm-vmm-x86/src/main.c) as programs over the vCPU's context and the process's
descriptors. What the host answers is a parameter: one record says for each
system call made on the way whether it succeeds (`VcpuCalls`, `LoadCalls`), so
a theorem about all records covers every pattern of failures. A failed call is
a `throw`: the function returns -1 and the context keeps what was stored so
far.

Left out: the progress messages, the contents of the CPUID leaves, and the
size of the `kvm_run` mapping.
-/
namespace MiniKvm.Vmm

/-! ## Descriptors -/

/-- Descriptors of the process: the open ones, and every `open` and `close`
this program has made so far. -/
structure Fds where
  live : List Nat
  opens : List Nat
  closes : List Int
  deriving DecidableEq, Repr

/-- The lowest number that is not in use, as `open(2)` returns it. -/
def freshFd (live : List Nat) : Nat :=
  ((List.range (live.length + 1)).find? (· ∉ live)).getD live.length

theorem freshFd_notMem (live : List Nat) : freshFd live ∉ live := by
  unfold freshFd
  cases h : (List.range (live.length + 1)).find? (· ∉ live) with
  | some n => simpa using List.find?_some h
  | none =>
    exfalso
    rw [List.find?_eq_none] at h
    have hsub : List.range (live.length + 1) ⊆ live := fun n hn => by simpa using h n hn
    have := (List.nodup_range.subperm hsub).length_le
    rw [List.length_range] at this
    omega

/-- The state one setup function works on: the process's descriptors, the
context, and the vCPU behind it (`Machine`), field by field. -/
structure St where
  fds : Fds
  ctx : Vcpu
  mem : Mem
  slot : Option MemSlot
  sregs : Sregs
  regs : Regs

def St.machine (s : St) : Machine :=
  { mem := s.mem, slot := s.slot, sregs := s.sregs, regs := s.regs }

/-- The state in which the setup of a vCPU starts. -/
def St.enter (fds : Fds) (c : Vcpu) : St :=
  { fds, ctx := c, mem := fun _ => 0, slot := none, sregs := {}, regs := {} }

/-- A call whose failure makes the function return -1. -/
def check (ok : Bool) : EStateM Unit St Unit := if ok then pure () else throw ()

def require (p : Prop) [Decidable p] : EStateM Unit St Unit := if p then pure () else throw ()

def upd (f : Vcpu → Vcpu) : EStateM Unit St Unit := modify fun s => { s with ctx := f s.ctx }

def updMem (f : Mem → Mem) : EStateM Unit St Unit := modify fun s => { s with mem := f s.mem }

def setSlot (sl : MemSlot) : EStateM Unit St Unit := modify fun s => { s with slot := some sl }

def updSregs (f : Sregs → Sregs) : EStateM Unit St Unit :=
  modify fun s => { s with sregs := f s.sregs }

def setSregs (sr : Sregs) : EStateM Unit St Unit := updSregs fun _ => sr

def setRegs (r : Regs) : EStateM Unit St Unit := modify fun s => { s with regs := r }

def Fds.open (f : Fds) : Fds :=
  { f with live := freshFd f.live :: f.live, opens := f.opens ++ [freshFd f.live] }

def openFd : EStateM Unit St Nat :=
  modifyGet fun s => (freshFd s.fds.live, { s with fds := s.fds.open })

def Fds.close (f : Fds) (fd : Int) : Fds :=
  { f with live := if 0 ≤ fd then f.live.erase fd.toNat else f.live, closes := f.closes ++ [fd] }

def closeFd (fd : Int) : EStateM Unit St Unit := modify fun s => { s with fds := s.fds.close fd }

/-- Opens a file, runs `body`, and closes the file on every way out of it. -/
def withFd (body : EStateM Unit St Unit) : EStateM Unit St Unit := fun s =>
  match body { s with fds := s.fds.open } with
  | .ok _ t => .ok () { t with fds := t.fds.close (freshFd s.fds.live) }
  | .error _ t => .error () { t with fds := t.fds.close (freshFd s.fds.live) }

section Steps

variable {Q : Unit → St → Prop} {E : Unit → St → Prop} {s : St}

@[simp] theorem wp_check (ok : Bool) :
    wp (check ok) Q E s ↔ (ok = true → Q () s) ∧ (ok = false → E () s) := by
  cases ok <;> simp [check]

@[simp] theorem wp_require (p : Prop) [Decidable p] :
    wp (require p) Q E s ↔ (p → Q () s) ∧ (¬ p → E () s) := by
  unfold require
  rw [wp_ite, wp_pure, wp_throw]

theorem wp_withFd {body : EStateM Unit St Unit} :
    wp (withFd body) Q E s ↔
      wp body (fun _ t => Q () { t with fds := t.fds.close (freshFd s.fds.live) })
        (fun _ t => E () { t with fds := t.fds.close (freshFd s.fds.live) })
        { s with fds := s.fds.open } := by
  unfold wp withFd
  cases body { s with fds := s.fds.open } <;> exact Iff.rfl

@[simp] theorem wp_upd (f : Vcpu → Vcpu) : wp (upd f) Q E s ↔ Q () { s with ctx := f s.ctx } :=
  ⟨id, id⟩

@[simp] theorem wp_updMem (f : Mem → Mem) :
    wp (updMem f) Q E s ↔ Q () { s with mem := f s.mem } := ⟨id, id⟩

@[simp] theorem wp_setSlot (sl : MemSlot) :
    wp (setSlot sl) Q E s ↔ Q () { s with slot := some sl } := ⟨id, id⟩

@[simp] theorem wp_updSregs (f : Sregs → Sregs) :
    wp (updSregs f) Q E s ↔ Q () { s with sregs := f s.sregs } := ⟨id, id⟩

@[simp] theorem wp_setSregs (sr : Sregs) :
    wp (setSregs sr) Q E s ↔ Q () { s with sregs := sr } := ⟨id, id⟩

@[simp] theorem wp_setRegs (r : Regs) :
    wp (setRegs r) Q E s ↔ Q () { s with regs := r } := ⟨id, id⟩

@[simp] theorem wp_openFd {Q : Nat → St → Prop} : wp openFd Q E s ↔
    Q (freshFd s.fds.live) { s with fds := s.fds.open } := ⟨id, id⟩

@[simp] theorem wp_closeFd (fd : Int) :
    wp (closeFd fd) Q E s ↔ Q () { s with fds := s.fds.close fd } := ⟨id, id⟩

end Steps

/-! ## Host answers -/

/-- A file on the host; `ftell` reports its size in a `long`. -/
structure HostFile where
  bytes : List UInt8
  size_lt : bytes.length < 2 ^ 63

/-- `fopen` / `ftell` / `fread` of one guest file; `nread` is what `fread`
returns. -/
structure LoadCalls where
  fopen : Option HostFile
  ftell : Bool
  nread : Nat

/-- The special registers of a vCPU that has just been created: the processor
comes up in real mode, with CR0.PG and EFER.LMA clear. -/
structure ResetSregs where
  sregs : Sregs
  pg_clear : sregs.cr0.toNat / 2 ^ 31 % 2 = 0
  lma_clear : sregs.efer.toNat / 2 ^ 10 % 2 = 0

structure CpuidCalls where
  calloc : Bool
  getSupported : Bool
  setCpuid2 : Bool

/-- The calls made while one vCPU is set up. The `mode*` fields are those of
the mode-specific function (`setup_vcpu_longmode`, `configure_*`), which
repeats some of the calls. -/
structure VcpuCalls where
  mmapMem : Bool
  setMemoryRegion : Bool
  createVcpu : Bool
  resetSregs : ResetSregs
  getVcpuMmapSize : Bool
  mmapRun : Bool
  getSregs : Bool
  setSregs : Bool
  cpuid : CpuidCalls
  setRegs : Bool
  setMpState : Bool
  modeCpuid : CpuidCalls
  modeGetSregs : Bool
  modeSetSregs : Bool
  modeSetRegs : Bool
  modeSetMsrs : Bool
  modeSetMpState : Bool

/-! ### Every call succeeds -/

/-- CR0 as a reset leaves it, everything else zero. -/
def ResetSregs.init : ResetSregs := ⟨{ cr0 := 0x60000010 }, by decide, by decide⟩

def CpuidCalls.allOk : CpuidCalls := ⟨true, true, true⟩

def VcpuCalls.allOk : VcpuCalls :=
  { mmapMem := true, setMemoryRegion := true, createVcpu := true, resetSregs := .init,
    getVcpuMmapSize := true, mmapRun := true, getSregs := true, setSregs := true, cpuid := .allOk,
    setRegs := true, setMpState := true, modeCpuid := .allOk, modeGetSregs := true,
    modeSetSregs := true, modeSetRegs := true, modeSetMsrs := true, modeSetMpState := true }

def LoadCalls.ofFile (f : HostFile) : LoadCalls := ⟨some f, true, f.bytes.length⟩

/-- The one-instruction guest `hlt`. -/
def HostFile.hlt : HostFile := ⟨[0xF4], by decide⟩

/-! ## Memory and guest image -/

/-- mirrors kvm-vmm-x86/src/main.c:635-649 -/
def vcpuMemSize (linuxGuest usePaging : Bool) : Nat :=
  if linuxGuest then 256 * 1024 * 1024
  else if usePaging then 4 * 1024 * 1024
  else 256 * 1024

/-- mirrors kvm-vmm-x86/src/main.c:631-687 -/
def setupVcpuMemory (k : VcpuCalls) : EStateM Unit St Unit := do
  upd fun c => { c with memSize := vcpuMemSize c.linuxGuest c.usePaging }
  upd fun c => { c with guestMem := if k.mmapMem then .mapped else .failed }
  check k.mmapMem
  -- the pages of an anonymous mapping read as zero
  updMem fun _ _ => 0
  check k.setMemoryRegion
  let c := (← get).ctx
  setSlot ⟨c.vcpuId, c.vcpuId * c.memSize, c.memSize⟩

/-- mirrors kvm-vmm-x86/src/main.c:265-327 -/
def loadGuestBinary (k : LoadCalls) : EStateM Unit St Unit := do
  match k.fopen with
  | none => throw ()
  | some f =>
    let fd ← openFd
    if !k.ftell then
      closeFd fd
      throw ()
    let fsize := f.bytes.length
    let c := (← get).ctx
    if (fsize + c.loadOffset.toNat) % 2 ^ 64 > c.memSize then
      closeFd fd
      throw ()
    let nread := min k.nread fsize
    updMem fun m => m.write c.loadOffset.toNat (f.bytes.take nread)
    if nread ≠ fsize then
      closeFd fd
      throw ()
    closeFd fd

/-! ## Registers -/

def REAL_MODE_KERNEL_ADDR : Nat := 0x10000

/-- A 64 KiB real-mode segment. -/
def realmodeSegment (type : UInt8) (base : UInt64) (selector : UInt16) : Segment :=
  { base, selector, type, limit := 0xFFFF, present := 1, dpl := 0, db := 0, s := 1, l := 0, g := 0,
    avl := 0 }

/-- A flat 4 GiB segment. -/
def flatSegment (type : UInt8) (selector : UInt16) (db l : UInt8) : Segment :=
  { base := 0, selector, type, limit := 0xFFFFFFFF, present := 1, dpl := 0, db, s := 1, l, g := 1,
    avl := 0 }

/-- `cs` in CS, `ds` in the five data segment registers. -/
def Sregs.withSegments (sr : Sregs) (cs ds : Segment) : Sregs :=
  { sr with cs, ds, es := ds, fs := ds, gs := ds, ss := ds }

/-- The paragraph number of the vCPU's memory, in a `uint16_t`.
mirrors kvm-vmm-x86/src/main.c:1337 -/
def csValue (c : Vcpu) : UInt16 := UInt16.ofNat (c.vcpuId * (c.memSize / 16))

/-- mirrors kvm-vmm-x86/src/main.c:1297-1364 -/
def setupRealmodeSegments (sr : Sregs) (c : Vcpu) : Sregs :=
  if c.linuxGuest then
    let base := UInt64.ofNat REAL_MODE_KERNEL_ADDR
    let sel := UInt16.ofNat (REAL_MODE_KERNEL_ADDR / 16)
    sr.withSegments (realmodeSegment 0x9b base sel) (realmodeSegment 0x93 base sel)
  else
    let base := UInt64.ofNat ((csValue c).toNat * 16)
    sr.withSegments (realmodeSegment 0x9b base (csValue c)) (realmodeSegment 0x93 base (csValue c))

/-- mirrors kvm-vmm-x86/src/main.c:1369-1400 -/
def setupProtectedmodeSegments (sr : Sregs) : Sregs :=
  sr.withSegments (flatSegment 0x0a 0x08 1 0) (flatSegment 0x02 0x10 1 0)

/-- mirrors kvm-vmm-x86/src/main.c:1402-1431 -/
def setupLinuxBootSegments (sr : Sregs) : Sregs :=
  sr.withSegments (flatSegment 0x0a 0x10 1 0) (flatSegment 0x02 0x18 1 0)

def EFER_SCE : UInt64 := (1 : UInt64) <<< 0
def EFER_LME : UInt64 := (1 : UInt64) <<< 8
def EFER_LMA : UInt64 := (1 : UInt64) <<< 10
def EFER_NXE : UInt64 := (1 : UInt64) <<< 11

/-- CR0 with paging on: PE, ET, NE, PG. -/
def cr0LongMode : UInt64 :=
  (1 : UInt64) <<< 0 ||| (1 : UInt64) <<< 4 ||| (1 : UInt64) <<< 5 ||| (1 : UInt64) <<< 31

/-- CR4.PAE. -/
def cr4Pae : UInt64 := (1 : UInt64) <<< 5

/-! ## Mode-specific configuration -/

/-- mirrors kvm-vmm-x86/src/cpuid.c:21-150 -/
def setupCpuid (k : CpuidCalls) : EStateM Unit St Unit := do
  check k.calloc
  check k.getSupported
  check k.setCpuid2

/-- The EFER write of `setup_msrs_64bit`; KVM keeps LMA as it is. Callers
ignore a failure.
mirrors kvm-vmm-x86/src/msr.c:17-74 -/
def setupMsrs64bit (ok : Bool) (sr : Sregs) : Sregs :=
  if ok then { sr with efer := sr.efer &&& EFER_LMA ||| EFER_LME ||| EFER_SCE ||| EFER_NXE } else sr

/-- mirrors kvm-vmm-x86/src/main.c:901-942 -/
def longmodeSregs (sr : Sregs) (gdtBase cr3 : Nat) : Sregs :=
  { sr with
    gdt := ⟨UInt64.ofNat gdtBase, 5 * 8 - 1⟩
    idt := ⟨0x6000, 0⟩
    cr3 := UInt64.ofNat cr3
    cr4 := cr4Pae
    cr0 := cr0LongMode
    efer := EFER_LME ||| EFER_LMA }.withSegments (flatSegment 0xb 0x08 0 1)
      (flatSegment 0x3 0x10 1 0)

/-- mirrors kvm-vmm-x86/src/main.c:875-993 -/
def setupVcpuLongmode (k : VcpuCalls) : EStateM Unit St Unit := do
  let s ← get
  updMem (setupPageTables64bit s.ctx.memSize)
  let cr3 := GUEST_64_PML4_ADDR
  let gdtBase := 0x5000
  updMem fun m => setupGdt64bit m gdtBase
  setupCpuid k.modeCpuid
  check k.modeGetSregs
  check k.modeSetSregs
  updSregs fun sr => longmodeSregs sr gdtBase cr3
  check k.modeSetRegs
  setRegs { rip := UInt64.ofNat s.ctx.loadOffset.toNat, rflags := 0x2, rsp := 0x8000 }
  updSregs fun sr => setupMsrs64bit k.modeSetMsrs sr

/-- mirrors kvm-vmm-x86/src/main.c:1459-1481 -/
def protectedModeSregs (sr : Sregs) (cr3 : Nat) : Sregs :=
  setupProtectedmodeSegments { sr with
    gdt := ⟨UInt64.ofNat GDT_ADDR, UInt16.ofNat (GDT_TOTAL_SIZE - 1)⟩
    idt := ⟨UInt64.ofNat idtAddr, UInt16.ofNat (256 * IDT_ENTRY_SIZE - 1)⟩
    cr3 := UInt64.ofNat cr3
    cr0 := 0x80000011
    cr4 := 0 }

/-- mirrors kvm-vmm-x86/src/main.c:1436-1520 -/
def configureProtectedMode (k : VcpuCalls) : EStateM Unit St Unit := do
  updMem setupGdt
  updMem setupIdt
  let s ← get
  match setupPageTables s.ctx.memSize s.mem with
  | none => throw ()
  | some (m, cr3) =>
    updMem fun _ => m
    check k.modeGetSregs
    check k.modeSetSregs
    updSregs fun sr => protectedModeSregs sr cr3
    check k.modeSetRegs
    setRegs { rip := UInt64.ofNat s.ctx.entryPoint.toNat, rflags := 0x2 }

def LINUX_BOOT_PARAMS_ADDR : Nat := 0x90000

/-- mirrors kvm-vmm-x86/src/main.c:1545-1556 -/
def linuxCode32Sregs (sr : Sregs) : Sregs :=
  setupLinuxBootSegments { sr with
    gdt := ⟨UInt64.ofNat GDT_ADDR, UInt16.ofNat (GDT_TOTAL_SIZE - 1)⟩
    idt := ⟨UInt64.ofNat idtAddr, UInt16.ofNat (256 * IDT_ENTRY_SIZE - 1)⟩
    cr0 := 0x11
    cr3 := 0
    cr4 := 0
    efer := 0 }

/-- mirrors kvm-vmm-x86/src/main.c:1530-1596 -/
def configureLinuxCode32Entry (k : VcpuCalls) (bootParamsAddr : Nat) : EStateM Unit St Unit := do
  updMem setupLinuxBootGdt
  updMem setupLinuxProtIdt
  check k.modeGetSregs
  check k.modeSetSregs
  updSregs fun sr => linuxCode32Sregs sr
  setupCpuid k.modeCpuid
  let c := (← get).ctx
  let rsi := if c.linuxRsi = .hdr then bootParamsAddr + 0x1f1 else bootParamsAddr
  check k.modeSetRegs
  setRegs { rip := UInt64.ofNat c.entryPoint.toNat, rsi := UInt64.ofNat rsi, rsp := 0x9ff00,
            rflags := 0x2 }
  check k.modeSetMpState

/-- mirrors kvm-vmm-x86/src/main.c:1634-1675 -/
def linuxBoot64Sregs (sr : Sregs) (gdtBase cr3 : Nat) : Sregs :=
  { sr with
    gdt := ⟨UInt64.ofNat gdtBase, 5 * 8 - 1⟩
    idt := ⟨0, 0⟩
    cr3 := UInt64.ofNat cr3
    cr4 := cr4Pae
    cr0 := cr0LongMode
    efer := EFER_LME ||| EFER_LMA }.withSegments (flatSegment 0xb 0x10 0 1)
      (flatSegment 0x3 0x18 1 0)

/-- mirrors kvm-vmm-x86/src/main.c:1613-1708 -/
def configureLinuxBoot64Entry (k : VcpuCalls) : EStateM Unit St Unit := do
  let s ← get
  updMem (setupPageTables64bit s.ctx.memSize)
  let cr3 := GUEST_64_PML4_ADDR
  let gdtBase := 0x5000
  updMem fun m => setupLinuxBootGdt64bit m gdtBase
  setupCpuid k.modeCpuid
  check k.modeGetSregs
  check k.modeSetSregs
  updSregs fun sr => linuxBoot64Sregs sr gdtBase cr3
  check k.modeSetRegs
  setRegs { rip := UInt64.ofNat s.ctx.entryPoint.toNat, rsi := UInt64.ofNat LINUX_BOOT_PARAMS_ADDR,
            rsp := 0x9ff00, rflags := 0x2 }
  updSregs fun sr => setupMsrs64bit k.modeSetMsrs sr
  check k.modeSetMpState

/-- The real-mode entry of `--linux-entry setup`.
mirrors kvm-vmm-x86/src/main.c:1775-1812 -/
def configureLinuxSetupEntry (k : VcpuCalls) (sr : Sregs) : EStateM Unit St Unit := do
  let sr := { sr with cr0 := 0x10, cr3 := 0, cr4 := 0, efer := 0 }
  let c := (← get).ctx
  let sr := setupRealmodeSegments sr c
  check k.setSregs
  setSregs sr
  setupCpuid k.cpuid
  check k.setRegs
  setRegs { rip := 0x200, rsp := 0x9ff00, rbp := 0x9ff00, rsi := 0, rflags := 0x2 }
  check k.setMpState

/-- The real-mode state every guest of this program is given first.
mirrors kvm-vmm-x86/src/main.c:1819-1862 -/
def configureRealMode (k : VcpuCalls) (sr : Sregs) : EStateM Unit St Unit := do
  let c := (← get).ctx
  let sr := setupRealmodeSegments sr c
  check k.setSregs
  setSregs sr
  setupCpuid k.cpuid
  check k.setRegs
  setRegs { rip := 0, rflags := 0x2 }
  check k.setMpState

/-- KVM_CREATE_VCPU and the `kvm_run` mapping; returns the registers read back
with KVM_GET_SREGS.
mirrors kvm-vmm-x86/src/main.c:1719-1757 -/
def createVcpu (k : VcpuCalls) : EStateM Unit St Sregs := do
  if !k.createVcpu then
    upd fun c => { c with vcpuFd := -1 }
    throw ()
  let fd ← openFd
  upd fun c => { c with vcpuFd := fd }
  setSregs k.resetSregs.sregs
  check k.getVcpuMmapSize
  upd fun c => { c with kvmRun := if k.mmapRun then .mapped else .failed }
  check k.mmapRun
  check k.getSregs
  return k.resetSregs.sregs

/-- mirrors kvm-vmm-x86/src/main.c:1759-1812 -/
def setupLinuxEntry (k : VcpuCalls) (sr : Sregs) : EStateM Unit St Unit := do
  let s ← get
  match s.ctx.linuxEntry with
  | .boot64 => configureLinuxBoot64Entry k
  | .code32 => configureLinuxCode32Entry k LINUX_BOOT_PARAMS_ADDR
  | .setup => configureLinuxSetupEntry k sr

/-- mirrors kvm-vmm-x86/src/main.c:1819-1890 -/
def setupGuestMode (k : VcpuCalls) (sr : Sregs) : EStateM Unit St Unit := do
  configureRealMode k sr
  let s ← get
  if s.ctx.longMode then setupVcpuLongmode k
  else if s.ctx.usePaging then configureProtectedMode k
  else pure ()

/-- mirrors kvm-vmm-x86/src/main.c:1713-1896 -/
def setupVcpuContext (k : VcpuCalls) : EStateM Unit St Unit := do
  let sr ← createVcpu k
  let s ← get
  (if s.ctx.linuxGuest then setupLinuxEntry k sr else setupGuestMode k sr)
  upd fun c => { c with running := true, exitCount := 0 }

/-! ## What each function does

Every specification has two halves: the state a successful call leaves, and
the state left by a failed one. The second says only what the cleanup of
`main` depends on, the descriptors. -/

/-- Descriptors of the process and the context as they were. -/
def St.Keeps (s t : St) : Prop := t.fds = s.fds ∧ t.ctx = s.ctx

/-- From `a` to `b` files were opened, under numbers that were free, and every
one of them is closed again. -/
def Fds.FilesOnly (a b : Fds) : Prop :=
  b.live = a.live ∧ ∃ l : List Nat, (∀ fd ∈ l, fd ∉ a.live) ∧ b.opens = a.opens ++ l ∧
    b.closes = a.closes ++ l.map Int.ofNat

theorem Fds.filesOnly_refl (a : Fds) : a.FilesOnly a := ⟨rfl, [], by simp⟩

theorem Fds.FilesOnly.trans {a b c : Fds} (h1 : a.FilesOnly b) (h2 : b.FilesOnly c) :
    a.FilesOnly c := by
  obtain ⟨hl1, l1, hn1, ho1, hc1⟩ := h1
  obtain ⟨hl2, l2, hn2, ho2, hc2⟩ := h2
  refine ⟨hl2.trans hl1, l1 ++ l2, fun fd hfd => ?_, by rw [ho2, ho1, List.append_assoc],
    by rw [hc2, hc1, List.map_append, List.append_assoc]⟩
  rcases List.mem_append.1 hfd with h | h
  · exact hn1 fd h
  · exact hl1 ▸ hn2 fd h

theorem Fds.filesOnly_open_close (a : Fds) : a.FilesOnly (a.open.close (freshFd a.live)) :=
  ⟨by simp [Fds.close, Fds.open], [freshFd a.live], by simpa using freshFd_notMem a.live, rfl, rfl⟩

/-- The context as it was, and no file left open. -/
def St.Closed (s t : St) : Prop := s.fds.FilesOnly t.fds ∧ t.ctx = s.ctx

theorem setupVcpuMemory_wp (k : VcpuCalls) (s : St) :
    wp (setupVcpuMemory k)
      (fun _ t => t.fds = s.fds ∧
        t.ctx = { s.ctx with memSize := vcpuMemSize s.ctx.linuxGuest s.ctx.usePaging,
                             guestMem := .mapped } ∧
        t.mem = (fun _ => 0) ∧ t.slot = some ⟨s.ctx.vcpuId,
          s.ctx.vcpuId * vcpuMemSize s.ctx.linuxGuest s.ctx.usePaging,
          vcpuMemSize s.ctx.linuxGuest s.ctx.usePaging⟩)
      (fun _ t => t.fds = s.fds ∧ t.ctx.vcpuFd = s.ctx.vcpuFd) s := by
  cases h : k.mmapMem <;> simp [setupVcpuMemory, h]

theorem configureProtectedMode_wp (k : VcpuCalls) (s : St) :
    wp (configureProtectedMode k)
      (fun _ t => s.Keeps t ∧ t.slot = s.slot ∧
        PagingTables s.mem t.mem ∧ t.sregs = protectedModeSregs s.sregs 0x100000)
      (fun _ t => s.Keeps t) s := by
  simp only [configureProtectedMode, wp_bind, wp_updMem, wp_get]
  split
  · simp [St.Keeps]
  · rename_i m cr3 hp
    obtain ⟨rfl, ht⟩ := pagingTables_of_setup hp
    simp [St.Keeps, ht]

@[simp] theorem wp_setupCpuid (k : CpuidCalls) {Q E : Unit → St → Prop} {s : St} :
    wp (setupCpuid k) Q E s ↔ ((k.calloc && k.getSupported && k.setCpuid2) = true → Q () s) ∧
      ((k.calloc && k.getSupported && k.setCpuid2) = false → E () s) := by
  cases h1 : k.calloc <;> cases h2 : k.getSupported <;> cases h3 : k.setCpuid2 <;>
    simp [setupCpuid, h1, h2, h3]

theorem setupVcpuLongmode_wp (k : VcpuCalls) (s : St) :
    wp (setupVcpuLongmode k)
      (fun _ t => s.Keeps t ∧ t.slot = s.slot ∧
        LongTables (min (numPages2mb s.ctx.memSize) 512) s.mem t.mem ∧
        t.sregs = setupMsrs64bit k.modeSetMsrs (longmodeSregs s.sregs 0x5000 0x2000))
      (fun _ t => s.Keeps t) s := by
  have ht := longTables_of_setup s.ctx.memSize s.mem
  simp [setupVcpuLongmode, GUEST_64_PML4_ADDR, St.Keeps, ht]

theorem createVcpu_wp (k : VcpuCalls) (s : St) :
    wp (createVcpu k)
      (fun sr t => sr = k.resetSregs.sregs ∧
        t.fds = s.fds.open ∧
        t.ctx = { s.ctx with vcpuFd := freshFd s.fds.live, kvmRun := .mapped } ∧
        t.mem = s.mem ∧ t.slot = s.slot ∧ t.sregs = sr)
      (fun _ t => t.fds = s.fds ∧ t.ctx.vcpuFd = -1 ∨
        t.fds = s.fds.open ∧
          t.ctx.vcpuFd = freshFd s.fds.live) s := by
  cases hc : k.createVcpu <;> cases hr : k.mmapRun <;> simp [createVcpu, hc, hr]

theorem configureRealMode_wp (k : VcpuCalls) (sr : Sregs) (s : St) :
    wp (configureRealMode k sr)
      (fun _ t => s.Keeps t ∧ t.slot = s.slot ∧ t.mem = s.mem ∧
        t.sregs = setupRealmodeSegments sr s.ctx)
      (fun _ t => s.Keeps t) s := by
  simp [configureRealMode, St.Keeps]

/-- The file a successful load has written to `load_offset`. -/
def LoadedFile (k : LoadCalls) (c : Vcpu) (m m' : Mem) : Prop :=
  ∃ f, k.fopen = some f ∧ c.loadOffset.toNat + f.bytes.length ≤ c.memSize ∧
    m' = m.write c.loadOffset.toNat f.bytes

theorem loadGuestBinary_wp (k : LoadCalls) (s : St) :
    wp (loadGuestBinary k)
      (fun _ t => s.Closed t ∧ t.slot = s.slot ∧ LoadedFile k s.ctx s.mem t.mem)
      (fun _ t => s.Closed t) s := by
  unfold loadGuestBinary
  have hoc := s.fds.filesOnly_open_close
  split
  · exact ⟨s.fds.filesOnly_refl, rfl⟩
  · rename_i f hf
    have hlt : (f.bytes.length + s.ctx.loadOffset.toNat) % 2 ^ 64 =
        f.bytes.length + s.ctx.loadOffset.toNat := by
      have h1 := f.size_lt
      have h2 := s.ctx.loadOffset.toNat_lt
      omega
    simp only [wp_bind, wp_openFd, wp_ite, wp_closeFd, wp_throw, wp_get, wp_updMem, hlt, LoadedFile,
      hf, St.Closed, hoc, true_and, and_true, implies_true]
    intro _ hsize hread
    refine ⟨f, rfl, by omega, ?_⟩
    rw [Decidable.not_not.1 hread, List.take_length]

theorem configureLinuxCode32Entry_wp (k : VcpuCalls) (a : Nat) (s : St) :
    wp (configureLinuxCode32Entry k a)
      (fun _ t => s.Keeps t ∧ t.mem = setupLinuxProtIdt (setupLinuxBootGdt s.mem))
      (fun _ t => s.Keeps t) s := by
  simp [configureLinuxCode32Entry, St.Keeps]

theorem configureLinuxBoot64Entry_wp (k : VcpuCalls) (s : St) :
    wp (configureLinuxBoot64Entry k)
      (fun _ t => s.Keeps t ∧
        t.mem = setupLinuxBootGdt64bit (setupPageTables64bit s.ctx.memSize s.mem) 0x5000)
      (fun _ t => s.Keeps t) s := by
  simp [configureLinuxBoot64Entry, St.Keeps]

theorem configureLinuxSetupEntry_wp (k : VcpuCalls) (sr : Sregs) (s : St) :
    wp (configureLinuxSetupEntry k sr) (fun _ t => s.Keeps t ∧ t.mem = s.mem)
      (fun _ t => s.Keeps t) s := by
  simp [configureLinuxSetupEntry, St.Keeps]

/-- Memory and special registers of a guest that is ready to run, from those
before `setup_vcpu_context`. -/
def Configured (k : VcpuCalls) (c : Vcpu) (m m' : Mem) (sr : Sregs) : Prop :=
  let real := setupRealmodeSegments k.resetSregs.sregs c
  if c.longMode then
    LongTables (min (numPages2mb c.memSize) 512) m m' ∧
      sr = setupMsrs64bit k.modeSetMsrs (longmodeSregs real 0x5000 0x2000)
  else if c.usePaging then PagingTables m m' ∧ sr = protectedModeSregs real 0x100000
  else m' = m ∧ sr = real

/-- What the Linux entries write into guest memory. -/
def linuxEntryMem (c : Vcpu) (m : Mem) : Mem :=
  match c.linuxEntry with
  | .boot64 => setupLinuxBootGdt64bit (setupPageTables64bit c.memSize m) 0x5000
  | .code32 => setupLinuxProtIdt (setupLinuxBootGdt m)
  | .setup => m

/-- The context after a successful `setup_vcpu_context`. -/
def Vcpu.started (c : Vcpu) (fd : Nat) : Vcpu :=
  { c with vcpuFd := fd, kvmRun := .mapped, running := true, exitCount := 0 }

/-- Besides files, the vCPU's descriptor was opened, and the context has it. -/
def St.Opened (s t : St) : Prop :=
  ∃ mid, s.fds.FilesOnly mid ∧ t.fds = mid.open ∧ t.ctx.vcpuFd = freshFd mid.live

/-- What a setup that fails on its way leaves: the vCPU's descriptor not yet
opened, and -1 in the context, or as after `Opened`. -/
def St.Aborted (s t : St) : Prop := s.fds.FilesOnly t.fds ∧ t.ctx.vcpuFd = -1 ∨ s.Opened t

theorem St.Opened.of_filesOnly {s s1 t : St} (h : s1.Opened t) (h1 : s.fds.FilesOnly s1.fds) :
    s.Opened t := by
  obtain ⟨mid, hmid, ht⟩ := h
  exact ⟨mid, h1.trans hmid, ht⟩

theorem St.Aborted.of_filesOnly {s s1 t : St} (h : s1.Aborted t) (h1 : s.fds.FilesOnly s1.fds) :
    s.Aborted t := by
  rcases h with ⟨h, hfd⟩ | h
  · exact Or.inl ⟨h1.trans h, hfd⟩
  · exact Or.inr (h.of_filesOnly h1)

theorem setupLinuxEntry_wp (k : VcpuCalls) (sr : Sregs) (s : St) :
    wp (setupLinuxEntry k sr) (fun _ t => s.Keeps t ∧ t.mem = linuxEntryMem s.ctx s.mem)
      (fun _ t => s.Keeps t) s := by
  unfold setupLinuxEntry linuxEntryMem
  rw [wp_bind, wp_get]
  cases s.ctx.linuxEntry with
  | boot64 => exact configureLinuxBoot64Entry_wp k s
  | code32 => exact configureLinuxCode32Entry_wp k _ s
  | setup => exact configureLinuxSetupEntry_wp k sr s

theorem setupGuestMode_wp (k : VcpuCalls) (s : St) :
    wp (setupGuestMode k k.resetSregs.sregs)
      (fun _ t => s.Keeps t ∧ t.slot = s.slot ∧ Configured k s.ctx s.mem t.mem t.sregs)
      (fun _ t => s.Keeps t) s := by
  unfold setupGuestMode
  rw [wp_bind]
  refine wp_mono (configureRealMode_wp k _ s) (fun _ s1 h1 => ?_) fun _ _ h => h
  obtain ⟨⟨hfds, hctx⟩, hslot, hmem, hsr⟩ := h1
  have hkeep : ∀ t, s1.Keeps t → s.Keeps t := fun t h => ⟨h.1.trans hfds, h.2.trans hctx⟩
  rw [wp_bind, wp_get, hctx]
  unfold Configured
  split
  · refine wp_mono (setupVcpuLongmode_wp k s1) (fun _ t h => ?_) fun _ t h => hkeep t h
    obtain ⟨hk, hs, ht, hr⟩ := h
    rw [hctx, hmem] at ht
    rw [hsr] at hr
    exact ⟨hkeep t hk, hs.trans hslot, ht, hr⟩
  · split
    · refine wp_mono (configureProtectedMode_wp k s1) (fun _ t h => ?_) fun _ t h => hkeep t h
      obtain ⟨hk, hs, ht, hr⟩ := h
      rw [hmem] at ht
      rw [hsr] at hr
      exact ⟨hkeep t hk, hs.trans hslot, ht, hr⟩
    · exact ⟨⟨hfds, hctx⟩, hslot, hmem, hsr⟩

theorem setupVcpuContext_wp (k : VcpuCalls) (s : St) :
    wp (setupVcpuContext k)
      (fun _ t => t.fds = s.fds.open ∧ t.ctx = s.ctx.started (freshFd s.fds.live) ∧
        if s.ctx.linuxGuest then t.mem = linuxEntryMem s.ctx s.mem
        else t.slot = s.slot ∧ Configured k s.ctx s.mem t.mem t.sregs)
      (fun _ t => s.Aborted t) s := by
  unfold setupVcpuContext
  rw [wp_bind]
  have hrefl := s.fds.filesOnly_refl
  refine wp_mono (createVcpu_wp k s) (fun sr s1 h1 => ?_) fun _ t h => ?_
  rotate_left
  · rcases h with ⟨hfds, hfd⟩ | h
    · exact Or.inl ⟨hfds ▸ hrefl, hfd⟩
    · exact Or.inr ⟨s.fds, hrefl, h⟩
  obtain ⟨rfl, hfds, hctx, hmem, hslot, -⟩ := h1
  have hfail : ∀ t, s1.Keeps t → s.Aborted t := fun t ht =>
    Or.inr ⟨s.fds, hrefl, ht.1.trans hfds, by rw [ht.2, hctx]⟩
  have hdone : ∀ t, s1.Keeps t → t.fds = s.fds.open ∧
      { t.ctx with running := true, exitCount := 0 } = s.ctx.started (freshFd s.fds.live) :=
    fun t ht => ⟨ht.1.trans hfds, by rw [ht.2, hctx]; rfl⟩
  have hlin : s1.ctx.linuxGuest = s.ctx.linuxGuest := by rw [hctx]
  rw [wp_bind, wp_get, wp_bind, hlin]
  split
  · refine wp_mono (setupLinuxEntry_wp k _ s1) (fun _ t h => ?_) fun _ t h => hfail t h
    obtain ⟨hk, hm⟩ := h
    refine (wp_upd _).2 ⟨(hdone t hk).1, (hdone t hk).2, ?_⟩
    rw [hmem, hctx] at hm
    exact hm
  · refine wp_mono (setupGuestMode_wp k s1) (fun _ t h => ?_) fun _ t h => hfail t h
    obtain ⟨hk, hs, hc⟩ := h
    refine (wp_upd _).2 ⟨(hdone t hk).1, (hdone t hk).2, hs.trans hslot, ?_⟩
    rw [hmem, hctx] at hc
    exact hc

end MiniKvm.Vmm
