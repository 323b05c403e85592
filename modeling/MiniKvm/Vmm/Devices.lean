import MiniKvm.Core.Ring
import MiniKvm.Vmm.Vcpu

/-!
# Emulated devices and port I/O

The keyboard buffer, COM1, the legacy ports and the hypercall port
(kvm-vmm-x86/src/main.c), up to `handle_io`. The devices are file-level
variables, one set for all vCPUs (`Devices`); what a handler changes per vCPU
is its context (`Vcpu`) and the data bytes of the exit.

Standard output is the list of bytes written so far, log lines included. The
counters that limit the log lines are C `int`s and stand here as naturals: they
are compared with their limit and printed only below it.
-/
namespace MiniKvm.Vmm

/-! ## Output -/

def ascii (s : String) : List UInt8 := s.toList.map fun c => UInt8.ofNat c.toNat

/-- `%d` of a number that is not negative. -/
def dec (n : Nat) : List UInt8 := (Nat.toDigits 10 n).map fun c => UInt8.ofNat c.toNat

/-- `%d`. -/
def decInt (i : Int) : List UInt8 := if i < 0 then ascii "-" ++ dec i.natAbs else dec i.natAbs

/-- `%x`. -/
def hex (n : Nat) : List UInt8 := (Nat.toDigits 16 n).map fun c => UInt8.ofNat c.toNat

/-- `%02x` of a byte. -/
def hex02 (b : UInt8) : List UInt8 := if b < 16 then ascii "0" ++ hex b.toNat else hex b.toNat

/-- What the handlers read and never change: the options of the VMM and the
names of the guests. -/
structure Globals where
  verbose : Bool
  linuxSerialInputEnabled : Bool
  numVcpus : Nat
  name : Nat → List UInt8
  vmFd : Int

/-- mirrors kvm-vmm-x86/src/main.c:154-173, for hues that are not negative. -/
def hueToAnsi256 (hue : Nat) : Nat :=
  let hue := hue % 360
  let offset := hue % 60
  let rgb : Nat × Nat × Nat := match hue / 60 with
    | 0 => (5, offset * 5 / 60, 0)
    | 1 => (5 - offset * 5 / 60, 5, 0)
    | 2 => (0, 5, offset * 5 / 60)
    | 3 => (0, 5 - offset * 5 / 60, 5)
    | 4 => (offset * 5 / 60, 0, 5)
    | _ => (5, 0, 5)
  16 + 36 * rgb.1 + 6 * rgb.2.1 + rgb.2.2

/-- `vcpu_colors` as `init_vcpu_colors(n)` leaves it.
mirrors kvm-vmm-x86/src/main.c:179-189 -/
def vcpuColors (n i : Nat) : Nat :=
  if i < n ∧ i < MAX_VCPUS then hueToAnsi256 (120 + i * 300 / n) else 0

/-! ## State -/

abbrev KEYBOARD_BUFFER_SIZE : Nat := 256

instance : NeZero KEYBOARD_BUFFER_SIZE := ⟨by decide⟩

/-- `keyboard_buffer_t`; every access holds its lock. -/
abbrev KeyboardBuffer := Ring UInt8 KEYBOARD_BUFFER_SIZE

/-- `uart16550_t`. -/
structure Uart16550 where
  ier : UInt8 := 0x00
  lcr : UInt8 := 0x03
  mcr : UInt8 := 0x00
  dll : UInt8 := 0x01
  dlh : UInt8 := 0x00
  deriving DecidableEq, Repr

/-- The file-level variables the exit handlers share. -/
structure Devices where
  keyboardBuffer : KeyboardBuffer := ⟨fun _ => 0, 0, 0⟩
  uart0 : Uart16550 := {}
  cmosIndex : UInt8 := 0
  port92 : UInt8 := 0x02
  stdout : List UInt8 := []
  /-- Lines pulsed with KVM_IRQ_LINE so far. -/
  pulses : List Nat := []
  ioCount : Nat := 0
  hcCount : Nat := 0
  inCount : Nat := 0
  unexpectedIn : Nat := 0

/-- mirrors kvm-vmm-x86/src/main.c:210-237 -/
def vcpuPrintf (g : Globals) (ctx : Vcpu) (text : List UInt8) (d : Devices) : Devices :=
  let pre :=
    if g.numVcpus > 1 then
      ascii "\x1b[38;5;" ++ dec (vcpuColors g.numVcpus ctx.vcpuId) ++ ascii "m[vCPU " ++
        dec ctx.vcpuId ++ ascii ":" ++ g.name ctx.vcpuId ++ ascii "]\x1b[0m "
    else ascii "[" ++ g.name ctx.vcpuId ++ ascii "] "
  { d with stdout := d.stdout ++ (pre ++ text) }

/-- mirrors kvm-vmm-x86/src/main.c:242-260 -/
def vcpuPutchar (g : Globals) (ctx : Vcpu) (ch : UInt8) (d : Devices) : Devices :=
  let text :=
    if g.numVcpus > 1 then
      ascii "\x1b[38;5;" ++ dec (vcpuColors g.numVcpus ctx.vcpuId) ++ ascii "m" ++ [ch] ++
        ascii "\x1b[0m"
    else [ch]
  { d with stdout := d.stdout ++ text }

/-! ## Keyboard buffer -/

/-- mirrors kvm-vmm-x86/src/main.c:332-342 -/
def keyboardBufferPush (ch : UInt8) (d : Devices) : Devices :=
  { d with keyboardBuffer := d.keyboardBuffer.push ch }

/-- -1 when the buffer is empty.
mirrors kvm-vmm-x86/src/main.c:344-356 -/
def keyboardBufferPop (d : Devices) : Int × Devices :=
  match d.keyboardBuffer.pop with
  | (none, _) => (-1, d)
  | (some ch, k) => (ch.toNat, { d with keyboardBuffer := k })

/-- mirrors kvm-vmm-x86/src/main.c:358-364 -/
def keyboardBufferHasData (d : Devices) : Bool := d.keyboardBuffer.hasData

/-- The bytes pushed and not yet popped, oldest first. -/
def Devices.unread (d : Devices) : List UInt8 := d.keyboardBuffer.toList

theorem unread_push (ch : UInt8) (d : Devices) :
    (keyboardBufferPush ch d).unread =
      if d.unread.length < 255 then d.unread ++ [ch] else d.unread := by
  show (d.keyboardBuffer.push ch).toList = _
  rw [Ring.toList_push]
  have hk : d.keyboardBuffer.toList.length + 1 < KEYBOARD_BUFFER_SIZE ↔ d.unread.length < 255 :=
    Nat.succ_lt_succ_iff
  by_cases h : d.unread.length < 255
  · rw [if_pos h, if_pos (hk.2 h)]
    rfl
  · rw [if_neg h, if_neg fun hs => h (hk.1 hs)]
    rfl

theorem unread_length_le (d : Devices) : d.unread.length ≤ 255 := by
  rw [Devices.unread, Ring.toList_length]
  exact Nat.le_of_lt_succ d.keyboardBuffer.count_lt

theorem hasData_iff (d : Devices) : keyboardBufferHasData d = true ↔ d.unread ≠ [] :=
  Ring.hasData_iff _

theorem keyboardBufferPop_snd (d : Devices) :
    (keyboardBufferPop d).2 = { d with keyboardBuffer := d.keyboardBuffer.pop.2 } := by
  unfold keyboardBufferPop
  split
  · rename_i k h
    have hk : d.keyboardBuffer.pop.2 = d.keyboardBuffer := by
      unfold Ring.pop at h ⊢
      split at h
      · rename_i he
        rw [if_pos he]
      · cases h
    rw [hk]
  · rename_i ch k h
    rw [h]

theorem unread_pop (d : Devices) : (keyboardBufferPop d).2.unread = d.unread.tail := by
  rw [keyboardBufferPop_snd]
  exact (Ring.pop_spec _).2

/-- `keyboard_buffer_pop` returns -1 exactly when nothing is unread. -/
theorem keyboardBufferPop_fst (d : Devices) :
    (keyboardBufferPop d).1 = match d.unread with
      | [] => -1
      | ch :: _ => (ch.toNat : Int) := by
  have h := (Ring.pop_spec d.keyboardBuffer).1
  unfold keyboardBufferPop Devices.unread
  split <;> rename_i hp <;> rw [hp] at h
  · cases hl : d.keyboardBuffer.toList with
    | nil => rfl
    | cons c cs => simp [hl] at h
  · cases hl : d.keyboardBuffer.toList with
    | nil => simp [hl] at h
    | cons c cs =>
      simp only [hl, List.head?_cons, Option.some.injEq] at h
      rw [h]

/-- mirrors kvm-vmm-x86/src/main.c:366-379 -/
def pulseIrqLine (g : Globals) (irq : Nat) (d : Devices) : Devices :=
  if g.vmFd < 0 then d else { d with pulses := d.pulses ++ [irq] }

/-! ## Hypercalls -/

def HYPERCALL_PORT : UInt16 := 0x500
def HC_EXIT : UInt8 := 0x00
def HC_PUTCHAR : UInt8 := 0x01
def HC_GETCHAR : UInt8 := 0x02

/-- What a handler returns: the C return value, the context, the data bytes of
the exit, and the devices. -/
structure IoResult where
  ret : Int
  ctx : Vcpu
  data : List UInt8
  dev : Devices

/-- The log line of a hypercall.
mirrors kvm-vmm-x86/src/main.c:1906-1914 -/
def logHypercall (g : Globals) (ctx : Vcpu) (regs : Regs) (d : Devices) : Devices :=
  if g.verbose then
    let d' := { d with hcCount := d.hcCount + 1 }
    if d.hcCount < 100 then
      vcpuPrintf g ctx
        (ascii "HC[" ++ dec d'.hcCount ++ ascii "] type=0x" ++ hex02 regs.rax.toUInt8 ++
        ascii " RAX=0x" ++ hex regs.rax.toNat ++ ascii " RBX=0x" ++ hex regs.rbx.toNat ++
          ascii "\n") d'
    else d'
  else d

/-- mirrors kvm-vmm-x86/src/main.c:1901-1950 -/
def handleHypercallOut (g : Globals) (ctx : Vcpu) (regs : Regs) (data : List UInt8) (d : Devices) :
    IoResult :=
  let hcNum := regs.rax.toUInt8
  let d := logHypercall g ctx regs d
  if hcNum = HC_EXIT then
    ⟨0, { ctx with running := false }, data,
      if g.verbose then vcpuPrintf g ctx (ascii "Exit request\n") d else d⟩
  else if hcNum = HC_PUTCHAR then ⟨0, ctx, data, vcpuPutchar g ctx regs.rbx.toUInt8 d⟩
  else if hcNum = HC_GETCHAR then
    let (ch, d) := keyboardBufferPop d
    ⟨0, { ctx with getcharResult := ch, pendingGetchar := true }, data, d⟩
  else
    ⟨-1, ctx, data, if g.verbose then
      vcpuPrintf g ctx (ascii "Unknown hypercall: 0x" ++ hex02 hcNum ++ ascii "\n") d else d⟩

/-- The byte `handle_hypercall_in` puts in `data[0]` for a pending request. -/
def getcharByte (ctx : Vcpu) : UInt8 :=
  if ctx.getcharResult = -1 then 0xFF else UInt8.ofNat ctx.getcharResult.toNat

/-- mirrors kvm-vmm-x86/src/main.c:1955-1984 -/
def handleHypercallIn (g : Globals) (ctx : Vcpu) (data : List UInt8) (d : Devices) : IoResult :=
  if ctx.pendingGetchar then
    let d' := if g.verbose then
        let d' := { d with inCount := d.inCount + 1 }
        if d.inCount < 50 then
          vcpuPrintf g ctx (ascii "IN[" ++ dec d'.inCount ++ ascii "] from 0x500: returning ch=" ++
            decInt ctx.getcharResult ++ ascii " (0x" ++ hex02 (getcharByte ctx) ++ ascii ")\n") d'
        else d'
      else d
    ⟨0, { ctx with pendingGetchar := false }, data.set 0 (getcharByte ctx), d'⟩
  else
    let d' := if g.verbose then
        let d' := { d with unexpectedIn := d.unexpectedIn + 1 }
        if d.unexpectedIn < 20 then
          vcpuPrintf g ctx (ascii "WARN[" ++ dec d'.unexpectedIn ++
            ascii "]: IN from 0x500 without pending_getchar!\n") d'
        else d'
      else d
    ⟨0, ctx, data.set 0 0, d'⟩

/-! ## COM1 -/

/-- mirrors kvm-vmm-x86/src/main.c:2004-2007 -/
def isUartPort (port : UInt16) : Bool := decide (port ≥ 0x3f8) && decide (port ≤ 0x3ff)

def Uart16550.dlab (u : Uart16550) : Bool := decide (u.lcr &&& 0x80 ≠ 0)

/-- THR empty interrupt, when enabled and the guest is Linux. -/
def pulseThre (g : Globals) (d : Devices) : Devices :=
  if g.linuxSerialInputEnabled ∧ d.uart0.ier &&& 0x02 ≠ 0 then pulseIrqLine g 4 d else d

/-- mirrors kvm-vmm-x86/src/main.c:2009-2056 -/
def uartWrite (g : Globals) (port : UInt16) (b : UInt8) (d : Devices) : Devices :=
  match (port - 0x3f8).toNat with
  | 0 =>
    if d.uart0.dlab then { d with uart0 := { d.uart0 with dll := b } }
    else pulseThre g { d with stdout := d.stdout ++ [b] }
  | 1 =>
    if d.uart0.dlab then { d with uart0 := { d.uart0 with dlh := b } }
    else pulseThre g { d with uart0 := { d.uart0 with ier := b } }
  | 3 => { d with uart0 := { d.uart0 with lcr := b } }
  | 4 => { d with uart0 := { d.uart0 with mcr := b } }
  | _ => d

/-- mirrors kvm-vmm-x86/src/main.c:2058-2116 -/
def uartRead (port : UInt16) (d : Devices) : UInt8 × Devices :=
  match (port - 0x3f8).toNat with
  | 0 =>
    if d.uart0.dlab then (d.uart0.dll, d)
    else
      let (ch, d') := keyboardBufferPop d
      (if ch < 0 then 0x00 else UInt8.ofNat ch.toNat, d')
  | 1 => (if d.uart0.dlab then d.uart0.dlh else d.uart0.ier, d)
  | 2 =>
    (if keyboardBufferHasData d ∧ d.uart0.ier &&& 0x01 ≠ 0 then 0x04
      else if d.uart0.ier &&& 0x02 ≠ 0 then 0x02
      else 0x01, d)
  | 3 => (d.uart0.lcr, d)
  | 4 => (d.uart0.mcr, d)
  | 5 => (if keyboardBufferHasData d then 0x60 ||| 0x01 else 0x60, d)
  | _ => (0x00, d)

/-! ## Legacy ports -/

/-- mirrors kvm-vmm-x86/src/main.c:2210-2234; the other ports are ignored. -/
def miscPortOut (port : UInt16) (data : List UInt8) (d : Devices) : Devices :=
  let value := data.headD 0
  if port = 0x92 then { d with port92 := value ||| 0x02 }
  else if port = 0x70 then { d with cmosIndex := value }
  else d

/-- Every port but 0x92 reads as zero.
mirrors kvm-vmm-x86/src/main.c:2236-2266 -/
def miscPortIn (port : UInt16) (size : Nat) (d : Devices) : List UInt8 :=
  let data := List.replicate size 0
  if port = 0x92 then data.set 0 d.port92
  else if port ∈ [0x64, 0x60, 0x71, 0x20, 0x21, 0xA0, 0xA1] then data.set 0 0
  else data

/-! ## I/O exits -/

/-- `kvm_run->io`, with the bytes at `data_offset`, one for each byte of `size`
(1, 2 or 4), and what KVM_GET_REGS answers if it is asked (`none`: it fails). -/
structure IoExit where
  out : Bool
  port : UInt16
  data : List UInt8
  regs : Option Regs := some {}
  sized : data.length = 1 ∨ data.length = 2 ∨ data.length = 4 := by decide
  deriving DecidableEq

theorem IoExit.sized_one (b : UInt8) : [b].length = 1 ∨ [b].length = 2 ∨ [b].length = 4 :=
  Or.inl rfl

/-- The loop of `handle_io` over the bytes of an OUT to COM1. -/
def uartWrites (g : Globals) : UInt16 → List UInt8 → Devices → Devices
  | _, [], d => d
  | port, b :: bs, d => uartWrites g (port + 1) bs (uartWrite g port b d)

/-- The loop of `handle_io` over the bytes of an IN from COM1. -/
def uartReads : UInt16 → Nat → Devices → List UInt8 × Devices
  | _, 0, d => ([], d)
  | port, n + 1, d =>
    let (b, d1) := uartRead port d
    let (bs, d2) := uartReads (port + 1) n d1
    (b :: bs, d2)

/-- The log line of an I/O exit.
mirrors kvm-vmm-x86/src/main.c:2275-2287 -/
def logIo (g : Globals) (ctx : Vcpu) (e : IoExit) (d : Devices) : Devices :=
  if g.verbose then
    let d' := { d with ioCount := d.ioCount + 1 }
    if d.ioCount < 100 then
      vcpuPrintf g ctx (ascii "IO[" ++ dec d'.ioCount ++ ascii "]: dir=" ++
        ascii (if e.out then "OUT" else "IN") ++ ascii " port=0x" ++ hex e.port.toNat ++
        ascii " size=" ++ dec e.data.length ++ ascii "\n") d'
    else d'
  else d

/-- mirrors kvm-vmm-x86/src/main.c:2271-2344 -/
def handleIo (g : Globals) (ctx : Vcpu) (e : IoExit) (d : Devices) : IoResult :=
  let d := logIo g ctx e d
  if e.out then
    if e.port = HYPERCALL_PORT then
      if ctx.linuxGuest then ⟨0, ctx, e.data, d⟩
      else match e.regs with
        | none => ⟨-1, ctx, e.data, d⟩
        | some regs => handleHypercallOut g ctx regs e.data d
    else if isUartPort e.port then ⟨0, ctx, e.data, uartWrites g e.port e.data d⟩
    else ⟨0, ctx, e.data, miscPortOut e.port e.data d⟩
  else
    if e.port = HYPERCALL_PORT then
      if ctx.linuxGuest then ⟨0, ctx, List.replicate e.data.length 0, d⟩
      else handleHypercallIn g ctx e.data d
    else if isUartPort e.port then
      let (data, d) := uartReads e.port e.data.length d
      ⟨0, ctx, data, d⟩
    else ⟨0, ctx, miscPortIn e.port e.data.length d, d⟩

end MiniKvm.Vmm
