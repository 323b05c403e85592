import MiniKvm.Vmm.Setup

/-!
# Loading a Linux kernel

`linux_boot.c`, and the Linux path of `main`. `boot_params` is not a value of
its own: it is the page at 0x90000 of guest memory, and its fields are read
and written there at the offsets of `linux_boot.h`. The header of the image is
the first 4 KiB the file gives, in a buffer whose rest is whatever `malloc`
left there.
-/
namespace MiniKvm.Linux

open Vmm

def LINUX_BOOT_SIGNATURE : Nat := 0x53726448
def LOADER_TYPE_UNDEFINED : Nat := 0xFF
def KERNEL_LOAD_ADDR : Nat := 0x100000
def COMMAND_LINE_ADDR : Nat := 0x20000
def INITRD_ADDR_MAX : Nat := 0x37FFFFFF
def E820_RAM : Nat := 1
def E820_RESERVED : Nat := 2
def LOADED_HIGH : Nat := 1 <<< 0
def XLF_KERNEL_64 : Nat := 1 <<< 0

/-! ## Fields of `boot_params` -/

/-- `sizeof(struct boot_params)`. -/
def BOOT_PARAMS_SIZE : Nat := 4096
def E820_ENTRIES_OFF : Nat := 0x1e8
/-- The setup header, at the same offset in the image and in `boot_params`. -/
def HDR_OFF : Nat := 0x1f1
/-- `sizeof(struct linux_setup_header)`. -/
def HDR_SIZE : Nat := 0x268 - 0x1f1
def BOOT_FLAG_OFF : Nat := 0x1fe
def HEADER_OFF : Nat := 0x202
def TYPE_OF_LOADER_OFF : Nat := 0x210
def LOADFLAGS_OFF : Nat := 0x211
def CODE32_START_OFF : Nat := 0x214
def RAMDISK_IMAGE_OFF : Nat := 0x218
def RAMDISK_SIZE_OFF : Nat := 0x21c
def CMD_LINE_PTR_OFF : Nat := 0x228
def INITRD_ADDR_MAX_OFF : Nat := 0x22c
def XLOADFLAGS_OFF : Nat := 0x236
def INIT_SIZE_OFF : Nat := 0x260
def E820_MAP_OFF : Nat := 0x2d0

/-! ## `linux_boot.c` -/

/-- mirrors kvm-vmm-x86/src/linux_boot.c:27-46 -/
def addE820Entry (m : Mem) (bp addr size type : Nat) : Mem :=
  let n := (m (bp + E820_ENTRIES_OFF)).toNat
  if n ≥ 128 then m
  else
    let entry := bp + E820_MAP_OFF + n * 20
    let m := m.store 8 entry addr
    let m := m.store 8 (entry + 8) size
    let m := m.store 4 (entry + 16) type
    m.store 1 (bp + E820_ENTRIES_OFF) (n + 1)

/-- mirrors kvm-vmm-x86/src/linux_boot.c:51-85 -/
def setupLinuxBootParams (bp memSize : Nat) (cmdline : Bool) (m : Mem) : Mem :=
  let savedHdr := m.read (bp + HDR_OFF) HDR_SIZE
  let m := m.fill bp BOOT_PARAMS_SIZE 0
  let m := m.write (bp + HDR_OFF) savedHdr
  let m := addE820Entry m bp 0 (640 * 1024) E820_RAM
  let m := addE820Entry m bp (640 * 1024) (384 * 1024) E820_RESERVED
  let m := if memSize > 1024 * 1024 then
      addE820Entry m bp (1024 * 1024) (memSize - 1024 * 1024) E820_RAM
    else m
  let m := if cmdline then m.store 4 (bp + CMD_LINE_PTR_OFF) COMMAND_LINE_ADDR else m
  let m := m.store 1 (bp + TYPE_OF_LOADER_OFF) LOADER_TYPE_UNDEFINED
  m.store 4 (bp + INITRD_ADDR_MAX_OFF) INITRD_ADDR_MAX

/-- Answers to the calls of `load_linux_kernel`; `read*` is what `read(2)`
returns, `heap` what the buffer of `malloc(4096)` contains. -/
structure KernelCalls where
  openFile : Option HostFile
  fstat : Bool
  mallocHeader : Bool
  readHeader : Nat
  heap : Mem
  mallocSetup : Bool
  readSetup : Nat
  mallocKernel : Bool
  readKernel : Nat

/-- mirrors kvm-vmm-x86/src/linux_boot.c:165-169 -/
def setupSize (setupSects : Nat) : Nat := if setupSects = 0 then 4 * 512 else (setupSects + 1) * 512

/-- What follows the `open` of the image.
mirrors kvm-vmm-x86/src/linux_boot.c:111-265 -/
def loadLinuxKernelFrom (k : KernelCalls) (f : HostFile) (bp : Nat) : EStateM Unit St Unit := do
  check k.fstat
  check k.mallocHeader
  let n := min k.readHeader (min 4096 f.bytes.length)
  require (512 ≤ n)
  let buf := k.heap.write 0 (f.bytes.take n)
  require (buf.load 2 BOOT_FLAG_OFF = 0xAA55)
  require (buf.load 4 HEADER_OFF = LINUX_BOOT_SIGNATURE)
  require (buf.load 1 LOADFLAGS_OFF &&& LOADED_HIGH ≠ 0)
  let size := setupSize (buf.load 1 HDR_OFF)
  updMem fun m => m.write (bp + HDR_OFF) (buf.read HDR_OFF HDR_SIZE)
  check k.mallocSetup
  require (size ≤ min k.readSetup f.bytes.length)
  let c := (← get).ctx
  require (REAL_MODE_KERNEL_ADDR + size ≤ c.memSize)
  updMem fun m => m.write REAL_MODE_KERNEL_ADDR (f.bytes.take size)
  let kernelSize := f.bytes.length - size
  check k.mallocKernel
  require (kernelSize ≤ k.readKernel)
  require (KERNEL_LOAD_ADDR + kernelSize ≤ c.memSize)
  updMem fun m => m.write KERNEL_LOAD_ADDR (f.bytes.drop size)
  updMem fun m => if m.load 4 (bp + CODE32_START_OFF) = 0 then
    m.store 4 (bp + CODE32_START_OFF) KERNEL_LOAD_ADDR else m

/-- mirrors kvm-vmm-x86/src/linux_boot.c:91-267 -/
def loadLinuxKernel (k : KernelCalls) (bp : Nat) : EStateM Unit St Unit :=
  match k.openFile with
  | none => throw ()
  | some f => withFd (loadLinuxKernelFrom k f bp)

structure InitrdCalls where
  openFile : Option HostFile
  fstat : Bool
  malloc : Bool
  read : Nat

/-- Where an initrd of `size` bytes goes: as high as `maxEnd` allows, on a page boundary.
mirrors kvm-vmm-x86/src/linux_boot.c:320-321 -/
def initrdStart (maxEnd size : Nat) : Nat := (maxEnd + 1 - size) / 4096 * 4096

/-- What follows the `open` of the initrd.
mirrors kvm-vmm-x86/src/linux_boot.c:293-361 -/
def loadInitrdFrom (k : InitrdCalls) (f : HostFile) (bp : Nat) : EStateM Unit St Unit := do
  check k.fstat
  let s ← get
  let size := f.bytes.length
  require (0 < size)
  require (size ≤ s.ctx.memSize)
  let maxEnd := s.mem.load 4 (bp + INITRD_ADDR_MAX_OFF)
  let maxEnd := if maxEnd ≥ s.ctx.memSize then s.ctx.memSize - 1 else maxEnd
  require (size ≤ maxEnd + 1)
  let start := initrdStart maxEnd size
  require (KERNEL_LOAD_ADDR + s.mem.load 4 (bp + INIT_SIZE_OFF) ≤ start)
  check k.malloc
  require (size ≤ k.read)
  updMem fun m => m.write start f.bytes
  updMem fun m => m.store 4 (bp + RAMDISK_IMAGE_OFF) start
  updMem fun m => m.store 4 (bp + RAMDISK_SIZE_OFF) size
  updMem fun m => m.store 4 (bp + INITRD_ADDR_MAX_OFF) INITRD_ADDR_MAX

/-- mirrors kvm-vmm-x86/src/linux_boot.c:272-363 -/
def loadInitrd (k : InitrdCalls) (bp : Nat) : EStateM Unit St Unit :=
  match k.openFile with
  | none => throw ()
  | some f => withFd (loadInitrdFrom k f bp)

/-! ## The Linux path of `main` -/

/-- A C string: no byte of it is zero. -/
structure CStr where
  bytes : List UInt8
  noNul : 0 ∉ bytes

structure LinuxOpts where
  entry : LinuxEntryMode
  rsi : LinuxRsiMode
  cmdline : Option CStr

structure LinuxCalls where
  vcpu : VcpuCalls
  kernel : KernelCalls
  /-- `none` without `--initrd`. -/
  initrd : Option InitrdCalls
  /-- KVM_SET_GUEST_DEBUG of `--debug 3`; `none` at a lower level. -/
  singlestep : Option Bool

/-- mirrors kvm-vmm-x86/src/main.c:3015-3029 -/
def initLinuxContext (o : LinuxOpts) : Vcpu :=
  { vcpuId := 0, vcpuFd := -1, linuxGuest := true, linuxEntry := o.entry, linuxRsi := o.rsi }

/-- The copy of the command line: with its terminator, at most 256 bytes.
mirrors kvm-vmm-x86/src/main.c:3086-3096 -/
def cmdlineBytes (c : CStr) : List UInt8 := (c.bytes ++ [0]).take 256

def loadInitrdIfGiven (k : Option InitrdCalls) (bp : Nat) : EStateM Unit St Unit :=
  match k with
  | some k => loadInitrd k bp
  | none => pure ()

/-- mirrors kvm-vmm-x86/src/main.c:3056-3080 -/
def chooseEntry (entry : LinuxEntryMode) (bp : Nat) : EStateM Unit St Unit := do
  let s ← get
  let kernel64 := s.mem.load 2 (bp + XLOADFLAGS_OFF) &&& XLF_KERNEL_64 ≠ 0
  upd fun c => { c with longMode := kernel64 }
  require (entry = .boot64 → kernel64)
  upd fun c =>
    { c with entryPoint := if entry = .boot64 then UInt32.ofNat (KERNEL_LOAD_ADDR + 0x200)
                                      else UInt32.ofNat (s.mem.load 4 (bp + CODE32_START_OFF)) }

def copyCmdline (cmdline : Option CStr) (m : Mem) : Mem :=
  match cmdline with
  | some c => m.write COMMAND_LINE_ADDR (cmdlineBytes c)
  | none => m

def startSinglestep (k : Option Bool) : EStateM Unit St Unit :=
  match k with
  | some ok => do
    upd fun c => { c with singlestepRemaining := 2000, singlestepPaused := false, singlestepExits :=
      0 }
    check ok
  | none => pure ()

/-- mirrors kvm-vmm-x86/src/main.c:3010-3114 -/
def setupLinux (o : LinuxOpts) (k : LinuxCalls) : EStateM Unit St Unit := do
  setupVcpuMemory k.vcpu
  updMem fun m => m.fill LINUX_BOOT_PARAMS_ADDR BOOT_PARAMS_SIZE 0
  updMem setupLinuxIvt
  loadLinuxKernel k.kernel LINUX_BOOT_PARAMS_ADDR
  let s ← get
  updMem (setupLinuxBootParams LINUX_BOOT_PARAMS_ADDR s.ctx.memSize o.cmdline.isSome)
  loadInitrdIfGiven k.initrd LINUX_BOOT_PARAMS_ADDR
  chooseEntry o.entry LINUX_BOOT_PARAMS_ADDR
  updMem (copyCmdline o.cmdline)
  setupVcpuContext k.vcpu
  startSinglestep k.singlestep

end MiniKvm.Linux
