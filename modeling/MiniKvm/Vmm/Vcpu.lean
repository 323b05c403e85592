import MiniKvm.Core.Bytes

/-!
# The per-vCPU state

`vcpu_context_t` (kvm-vmm-x86/src/main.c:94-138), and beside it the part of a
vCPU that is not in the struct (`Machine`): the bytes behind `guest_mem`, the
memory slot registered for them, and what KVM holds, the registers last set
with KVM_SET_REGS / KVM_SET_SREGS and the single-step control.
-/
namespace MiniKvm.Vmm

/-- `struct kvm_segment`. -/
structure Segment where
  base : UInt64 := 0
  limit : UInt32 := 0
  selector : UInt16 := 0
  type : UInt8 := 0
  present : UInt8 := 0
  dpl : UInt8 := 0
  db : UInt8 := 0
  s : UInt8 := 0
  l : UInt8 := 0
  g : UInt8 := 0
  avl : UInt8 := 0
  deriving DecidableEq, Repr

/-- `struct kvm_dtable`. -/
structure Dtable where
  base : UInt64 := 0
  limit : UInt16 := 0
  deriving DecidableEq, Repr

structure Sregs where
  cs : Segment := {}
  ds : Segment := {}
  es : Segment := {}
  fs : Segment := {}
  gs : Segment := {}
  ss : Segment := {}
  gdt : Dtable := {}
  idt : Dtable := {}
  cr0 : UInt64 := 0
  cr3 : UInt64 := 0
  cr4 : UInt64 := 0
  efer : UInt64 := 0
  deriving DecidableEq, Repr

structure Regs where
  rax : UInt64 := 0
  rbx : UInt64 := 0
  rcx : UInt64 := 0
  rdx : UInt64 := 0
  rsi : UInt64 := 0
  rdi : UInt64 := 0
  rsp : UInt64 := 0
  rbp : UInt64 := 0
  rip : UInt64 := 0
  rflags : UInt64 := 0
  deriving DecidableEq, Repr

/-- A pointer that `mmap` fills in: still zero, `MAP_FAILED`, or a mapping. -/
inductive Mapping where
  | null | failed | mapped
  deriving DecidableEq, Repr

/-- `struct kvm_userspace_memory_region`; `userspace_addr` is the `guest_mem`
of the vCPU that registers it. -/
structure MemSlot where
  slot : Nat
  guestPhysAddr : Nat
  memorySize : Nat
  deriving DecidableEq, Repr

inductive LinuxEntryMode where
  | setup | code32 | boot64
  deriving DecidableEq, Repr

inductive LinuxRsiMode where
  | base | hdr
  deriving DecidableEq, Repr

/-- The `last_*` fields: what the latest single step saw. -/
structure LastStep where
  regs : Regs := {}
  cr0 : UInt64 := 0
  cs : UInt16 := 0
  es : UInt16 := 0
  esBase : UInt64 := 0
  esLimit : UInt32 := 0
  idtBase : UInt64 := 0
  idtLimit : UInt16 := 0
  bytes : List UInt8 := [0, 0, 0, 0]
  deriving DecidableEq, Repr

/-- `vcpu_context_t`. The defaults are the static zero state, which is also
what `memset(ctx, 0, sizeof(*ctx))` leaves. -/
structure Vcpu where
  vcpuId : Nat := 0
  vcpuFd : Int := 0
  kvmRun : Mapping := .null
  guestMem : Mapping := .null
  memSize : Nat := 0
  exitCount : Nat := 0
  running : Bool := false
  usePaging : Bool := false
  longMode : Bool := false
  entryPoint : UInt32 := 0
  loadOffset : UInt32 := 0
  pendingGetchar : Bool := false
  getcharResult : Int := 0
  linuxGuest : Bool := false
  linuxEntry : LinuxEntryMode := .setup
  linuxRsi : LinuxRsiMode := .base
  singlestepRemaining : Int := 0
  singlestepPaused : Bool := false
  singlestepExits : Nat := 0
  last : LastStep := {}
  deriving DecidableEq, Repr

structure Machine where
  /-- The bytes behind `guest_mem`. -/
  mem : Mem := fun _ => 0
  /-- Registered with KVM_SET_USER_MEMORY_REGION. -/
  slot : Option MemSlot := none
  sregs : Sregs := {}
  regs : Regs := {}
  /-- As last programmed with KVM_SET_GUEST_DEBUG. -/
  stepping : Bool := false

def MAX_VCPUS : Nat := 4

end MiniKvm.Vmm
