import MiniKvm.Vmm.Devices
import MiniKvm.Vmm.Tables

/-!
# The exit loop of a vCPU thread

`handle_vm_exit` and the loop of `vcpu_thread` (kvm-vmm-x86/src/main.c:2349-2657),
over the exits KVM_RUN reports. What KVM answers when it is asked for state
while an exit is handled comes with the exit.

The limit on the number of exits stands behind a `switch` whose every case
returns, so it is never reached: `runaway_stopped_iff` says which guests are
stopped all the same.
-/
namespace MiniKvm.Vmm

/-! ## Exits -/

/-- `struct kvm_vcpu_events`, as far as it is printed. -/
structure VcpuEvents where
  excInjected : UInt8 := 0
  excNr : UInt8 := 0
  excHasError : UInt8 := 0
  excError : UInt32 := 0
  irqInjected : UInt8 := 0
  irqNr : UInt8 := 0
  irqSoft : UInt8 := 0
  nmiInjected : UInt8 := 0
  nmiPending : UInt8 := 0
  nmiMasked : UInt8 := 0

/-- The exit reasons `handle_vm_exit` knows. -/
def knownReasons : List Nat := [2, 4, 5, 6, 7, 8, 9, 10, 17]

/-- `kvm_run->exit_reason` and what goes with it. -/
inductive ExitReason where
  | hlt
  | io (e : IoExit)
  | debug (regs : Option Regs) (sregs : Option Sregs)
  | failEntry (reason : UInt64)
  | mmio (physAddr : UInt64) (isWrite : Bool) (data : List UInt8)
  | irqWindowOpen
  | intr
  | internalError (suberror : UInt32) (data : List UInt64)
  | shutdown (regs : Option Regs) (sregs : Option Sregs) (events : Option VcpuEvents)
  | other (code : Nat) (unknown : code ∉ knownReasons)

/-- The numbers of the KVM interface. -/
def ExitReason.code : ExitReason → Nat
  | .io _ => 2
  | .debug _ _ => 4
  | .hlt => 5
  | .mmio _ _ _ => 6
  | .irqWindowOpen => 7
  | .shutdown _ _ _ => 8
  | .failEntry _ => 9
  | .intr => 10
  | .internalError _ _ => 17
  | .other code _ => code

structure VmExit where
  reason : ExitReason
  /-- KVM_SET_GUEST_DEBUG succeeds, if it is called for this exit. -/
  guestDebug : Bool := true

/-- The counters that limit log lines. -/
structure ExitLog where
  debugExitCount : Nat := 0
  mmioLogCount : Nat := 0

/-- A vCPU thread between two exits. -/
structure Thread where
  ctx : Vcpu
  mach : Machine
  dev : Devices
  log : ExitLog := {}

/-- What `handle_vm_exit` returns, and the bytes it leaves for the guest. -/
structure ExitResult where
  ret : Int
  thread : Thread
  data : List UInt8 := []

/-! ## The source -/

def Thread.print (g : Globals) (s : Thread) (text : List UInt8) : Thread :=
  { s with dev := vcpuPrintf g s.ctx text s.dev }

/-- mirrors kvm-vmm-x86/src/main.c:191-205 -/
def setGuestSinglestep (ok enable : Bool) (s : Thread) : Thread :=
  if ok then { s with mach := { s.mach with stepping := enable } } else s

/-- mirrors kvm-vmm-x86/src/main.c:2353-2362 -/
def resumeSinglestep (e : VmExit) (s : Thread) : Thread :=
  if s.ctx.singlestepPaused ∧ e.reason.code ≠ 4 then
    let s := { s with ctx := { s.ctx with singlestepPaused := false } }
    if s.ctx.singlestepRemaining > 0 then setGuestSinglestep e.guestDebug true s else s
  else s

/-- mirrors kvm-vmm-x86/src/main.c:2365-2375 -/
def logExit (g : Globals) (e : VmExit) (s : Thread) : Thread :=
  if g.verbose then
    let count := s.log.debugExitCount + 1
    let s' := { s with log := { s.log with debugExitCount := count } }
    if s.log.debugExitCount < 110 ∧ (e.reason.code ≠ 2 ∨ count > 100) then
      s'.print g (ascii "EXIT[" ++ dec count ++ ascii "]: reason=" ++ dec e.reason.code ++
        ascii "\n")
    else s'
  else s

/-- The instruction bytes at `linear`; the index wraps as the `uint64_t` does.
mirrors kvm-vmm-x86/src/main.c:2401-2408 -/
def stepBytes (s : Thread) (linear : UInt64) : List UInt8 :=
  if (linear + 3).toNat < s.ctx.memSize then
    [s.mach.mem (linear + 0).toNat, s.mach.mem (linear + 1).toNat, s.mach.mem (linear + 2).toNat,
      s.mach.mem (linear + 3).toNat]
  else [0, 0, 0, 0]

/-- `%02x %02x %02x %02x`. -/
def hexBytes (bs : List UInt8) : List UInt8 := (bs.map hex02).intersperse (ascii " ") |>.flatten

/-- mirrors kvm-vmm-x86/src/main.c:2410-2425 -/
def recordStep (regs : Regs) (sregs : Sregs) (bytes : List UInt8) (s : Thread) : Thread :=
  { s with ctx := { s.ctx with last :=
    { regs, cr0 := sregs.cr0, cs := sregs.cs.selector, es := sregs.es.selector,
      esBase := sregs.es.base, esLimit := sregs.es.limit, idtBase := sregs.idt.base,
      idtLimit := sregs.idt.limit, bytes } } }

/-- mirrors kvm-vmm-x86/src/main.c:2427-2438 -/
def logStep (g : Globals) (regs : Regs) (sregs : Sregs) (bytes : List UInt8) (s : Thread) :
    Thread :=
  if s.ctx.singlestepExits ≤ 50 ∨ s.ctx.singlestepExits % 50 = 0 then
    s.print g (ascii "STEP: RIP=0x" ++ hex regs.rip.toNat ++ ascii " CS=0x" ++
      hex sregs.cs.selector.toNat ++ ascii " linear=0x" ++ hex (sregs.cs.base + regs.rip).toNat ++
      ascii " CR0=0x" ++ hex sregs.cr0.toNat ++
      ascii " RSI=0x" ++ hex regs.rsi.toNat ++ ascii " RBX=0x" ++ hex regs.rbx.toNat ++
      ascii " RDI=0x" ++ hex regs.rdi.toNat ++ ascii " bytes=" ++ hexBytes bytes ++ ascii "\n")
  else s

/-- mirrors kvm-vmm-x86/src/main.c:2451-2456 -/
def countStep (g : Globals) (ok : Bool) (s : Thread) : Thread :=
  let remaining := s.ctx.singlestepRemaining - 1
  let s := { s with ctx := { s.ctx with singlestepRemaining := remaining } }
  if remaining = 0 then
    (setGuestSinglestep ok false s).print g (ascii "STEP: disabled single-step\n")
  else s

/-- mirrors kvm-vmm-x86/src/main.c:2390-2460 -/
def handleDebug (g : Globals) (ok : Bool) (regs : Option Regs) (sregs : Option Sregs) (s : Thread) :
    Thread :=
  if s.ctx.singlestepRemaining > 0 then
    let s := { s with ctx := { s.ctx with singlestepExits := s.ctx.singlestepExits + 1 } }
    match regs, sregs with
    | some regs, some sregs =>
      let bytes := stepBytes s (sregs.cs.base + regs.rip)
      let s := logStep g regs sregs bytes (recordStep regs sregs bytes s)
      -- REP string instructions run at full speed
      if !s.ctx.singlestepPaused ∧ (bytes.headD 0 = 0xF3 ∨ bytes.headD 0 = 0xF2) then
        let s := { s with ctx := { s.ctx with singlestepPaused := true } }
        (setGuestSinglestep ok false s).print g
          (ascii "STEP: pausing single-step for REP instruction\n")
      else countStep g ok s
    | _, _ => countStep g ok s
  else s

/-- mirrors kvm-vmm-x86/src/main.c:2468-2481 -/
def handleMmio (g : Globals) (physAddr : UInt64) (isWrite : Bool) (data : List UInt8) (s : Thread) :
    ExitResult :=
  let s :=
    if g.verbose then
      let s' := { s with log := { s.log with mmioLogCount := s.log.mmioLogCount + 1 } }
      if s.log.mmioLogCount < 50 then
        s'.print g (ascii "MMIO: addr=0x" ++ hex physAddr.toNat ++ ascii " is_write=" ++
          dec isWrite.toNat ++ ascii " len=" ++ dec data.length ++ ascii "\n")
      else s'
    else s
  ⟨0, s, if isWrite then data else List.replicate data.length 0⟩

/-- `  data[%u]=0x%llx` for the first eight. -/
def printData (g : Globals) (data : List UInt64) (s : Thread) : Thread :=
  (data.take 8).zipIdx.foldl (fun s p =>
    s.print g (ascii "  data[" ++ dec p.2 ++ ascii "]=0x" ++ hex p.1.toNat ++ ascii "\n")) s

/-- Memory as it is seen from `a` on, with addresses modulo 2^64. -/
def memFrom (m : Mem) (a : UInt64) : Mem := fun k => m (a + UInt64.ofNat k).toNat

/-- The exception vectors of the IDT dump that lie in guest memory.
mirrors kvm-vmm-x86/src/main.c:2535-2548 -/
def dumpIdt (g : Globals) (s : Thread) : Thread :=
  [0, 6, 8, 13, 14].foldl (fun s vec =>
    let entryAddr := s.ctx.last.idtBase + UInt64.ofNat vec * 8
    if (entryAddr + 8).toNat ≤ s.ctx.memSize then
      let e := idtEntryAt (memFrom s.mach.mem entryAddr) 0
      s.print g (ascii "  IDT[" ++ dec vec ++ ascii "]: sel=0x" ++ hex e.selector ++
        ascii " off=0x" ++ hex e.offset ++ ascii " flags=0x" ++ hex e.flags.toNat ++ ascii "\n")
    else s) s

/-- mirrors kvm-vmm-x86/src/main.c:2512-2549 -/
def printLastStep (g : Globals) (s : Thread) : Thread :=
  if s.ctx.singlestepExits > 0 then
    let l := s.ctx.last
    dumpIdt g
      (s.print g (ascii "  Last step: RIP=0x" ++ hex l.regs.rip.toNat ++
        ascii " CS=0x" ++ hex l.cs.toNat ++ ascii " ES=0x" ++ hex l.es.toNat ++
        ascii " ES.base=0x" ++ hex l.esBase.toNat ++ ascii " ES.limit=0x" ++ hex l.esLimit.toNat ++
        ascii " IDT.base=0x" ++ hex l.idtBase.toNat ++
        ascii " IDT.limit=0x" ++ hex l.idtLimit.toNat ++ ascii " CR0=0x" ++ hex l.cr0.toNat ++
        ascii " RFLAGS=0x" ++ hex l.regs.rflags.toNat ++ ascii " RSI=0x" ++ hex l.regs.rsi.toNat ++
        ascii " RBX=0x" ++ hex l.regs.rbx.toNat ++ ascii " RCX=0x" ++ hex l.regs.rcx.toNat ++
        ascii " RDI=0x" ++ hex l.regs.rdi.toNat ++ ascii " RSP=0x" ++ hex l.regs.rsp.toNat ++
        ascii " bytes=" ++ hexBytes l.bytes ++ ascii "\n"))
  else s

/-- mirrors kvm-vmm-x86/src/main.c:2551-2556 -/
def printRegs (g : Globals) (r : Regs) (s : Thread) : Thread :=
  (s.print g (ascii "SHUTDOWN at RIP=0x" ++ hex r.rip.toNat ++ ascii ", RSP=0x" ++
    hex r.rsp.toNat ++ ascii "\n")).print g
    (ascii "  RAX=0x" ++ hex r.rax.toNat ++ ascii " RBX=0x" ++ hex r.rbx.toNat ++
      ascii " RCX=0x" ++ hex r.rcx.toNat ++ ascii " RDX=0x" ++ hex r.rdx.toNat ++ ascii "\n")

/-- mirrors kvm-vmm-x86/src/main.c:2557-2563 -/
def printSregs (g : Globals) (r : Sregs) (s : Thread) : Thread :=
  (s.print g (ascii "  CR0=0x" ++ hex r.cr0.toNat ++ ascii " CR3=0x" ++ hex r.cr3.toNat ++
    ascii " CR4=0x" ++ hex r.cr4.toNat ++ ascii "\n")).print g
    (ascii "  CS=0x" ++ hex r.cs.selector.toNat ++ ascii " DS=0x" ++ hex r.ds.selector.toNat ++
      ascii " SS=0x" ++ hex r.ss.selector.toNat ++ ascii "\n")

/-- mirrors kvm-vmm-x86/src/main.c:2565-2574 -/
def printEvents (g : Globals) (v : VcpuEvents) (s : Thread) : Thread :=
  ((s.print g (ascii "  Exception: injected=" ++ dec v.excInjected.toNat ++
    ascii " nr=" ++ dec v.excNr.toNat ++ ascii " has_error=" ++ dec v.excHasError.toNat ++
    ascii " error=0x" ++ hex v.excError.toNat ++ ascii "\n")).print g
    (ascii "  Interrupt: injected=" ++ dec v.irqInjected.toNat ++
      ascii " nr=" ++ dec v.irqNr.toNat ++ ascii " soft=" ++ dec v.irqSoft.toNat ++
      ascii "\n")).print g
    (ascii "  NMI: injected=" ++ dec v.nmiInjected.toNat ++
      ascii " pending=" ++ dec v.nmiPending.toNat ++ ascii " masked=" ++ dec v.nmiMasked.toNat ++
      ascii "\n")

/-- mirrors kvm-vmm-x86/src/main.c:2505-2577 -/
def handleShutdown (g : Globals) (regs : Option Regs) (sregs : Option Sregs)
    (events : Option VcpuEvents) (s : Thread) : Thread :=
  let s := printLastStep g (s.print g (ascii "SHUTDOWN - Attempting to get exception info...\n"))
  let s := regs.elim s fun r => printRegs g r s
  let s := sregs.elim s fun r => printSregs g r s
  let s := events.elim s fun v => printEvents g v s
  { s with ctx := { s.ctx with running := false } }

/-- The `switch`; `none` = control falls out of it.
mirrors kvm-vmm-x86/src/main.c:2377-2582 -/
def exitSwitch (g : Globals) (e : VmExit) (s : Thread) : Option ExitResult :=
  match e.reason with
  | .hlt =>
    let s :=
      if g.verbose then s.print g
        (ascii "Guest halted after " ++ dec s.ctx.exitCount ++ ascii " exits\n") else s
    some ⟨0, { s with ctx := { s.ctx with running := false } }, []⟩
  | .io io =>
    let r := handleIo g s.ctx io s.dev
    some ⟨r.ret, { s with ctx := r.ctx, dev := r.dev }, r.data⟩
  | .debug regs sregs => some ⟨0, handleDebug g e.guestDebug regs sregs s, []⟩
  | .failEntry reason =>
    some ⟨-1, s.print g (ascii "FAIL_ENTRY: reason 0x" ++ hex reason.toNat ++ ascii "\n"), []⟩
  | .mmio physAddr isWrite data => some (handleMmio g physAddr isWrite data s)
  | .irqWindowOpen => some ⟨0, s, []⟩
  | .intr => some ⟨0, s, []⟩
  | .internalError suberror data =>
    some ⟨-1, printData g data
      (s.print g (ascii "INTERNAL_ERROR: suberror 0x" ++ hex suberror.toNat ++
        ascii " ndata=" ++ dec data.length ++ ascii "\n")), []⟩
  | .shutdown regs sregs events => some ⟨0, handleShutdown g regs sregs events s, []⟩
  | .other code _ =>
    some ⟨-1, s.print g (ascii "Unknown exit reason: " ++ dec code ++ ascii "\n"), []⟩

/-- What stands behind the `switch`.
mirrors kvm-vmm-x86/src/main.c:2585-2591 -/
def safetyLimit (g : Globals) (s : Thread) : ExitResult :=
  if !s.ctx.usePaging ∧ s.ctx.exitCount > 100000 then
    ⟨-1, s.print g (ascii "Too many exits (" ++ dec s.ctx.exitCount ++ ascii "), stopping\n"), []⟩
  else ⟨0, s, []⟩

/-- mirrors kvm-vmm-x86/src/main.c:2349-2592 -/
def handleVmExit (g : Globals) (e : VmExit) (s : Thread) : ExitResult :=
  let s := { s with ctx := { s.ctx with exitCount := s.ctx.exitCount + 1 } }
  let s := logExit g e (resumeSinglestep e s)
  (exitSwitch g e s).getD (safetyLimit g s)

/-- The exits the loop of `vcpu_thread` handles, of those KVM_RUN would report.
mirrors kvm-vmm-x86/src/main.c:2637-2650 -/
def vcpuLoop (g : Globals) : Thread → List VmExit → List VmExit
  | _, [] => []
  | s, e :: es =>
    if s.ctx.running then
      let r := handleVmExit g e s
      if r.ret < 0 then [e] else e :: vcpuLoop g r.thread es
    else []

/-! ## Exits that stop the loop -/

/-- The hypercall numbers that let the guest go on. -/
def GoesOn (regs : Regs) : Prop := regs.rax.toUInt8 = HC_PUTCHAR ∨ regs.rax.toUInt8 = HC_GETCHAR

/-- A hypercall that ends the guest, or one whose registers KVM does not give. -/
def IoStops (io : IoExit) : Prop :=
  io.out = true ∧ io.port = HYPERCALL_PORT ∧ ∀ regs, io.regs = some regs → ¬ GoesOn regs

/-- An exit on which `handle_vm_exit` stops a guest that is not Linux. -/
def Stops (e : VmExit) : Prop :=
  match e.reason with
  | .hlt => True
  | .io io => IoStops io
  | .debug _ _ => False
  | .failEntry _ => True
  | .mmio _ _ _ => False
  | .irqWindowOpen => False
  | .intr => False
  | .internalError _ _ => True
  | .shutdown _ _ _ => True
  | .other _ _ => True

/-- Running as before, and the same kind of guest. -/
def Keeps (c c' : Vcpu) : Prop := c'.running = c.running ∧ c'.linuxGuest = c.linuxGuest

@[simp] theorem print_ctx (g : Globals) (s : Thread) (text : List UInt8) :
    (s.print g text).ctx = s.ctx := rfl

@[simp] theorem setGuestSinglestep_ctx (ok enable : Bool) (s : Thread) :
    (setGuestSinglestep ok enable s).ctx = s.ctx := by
  unfold setGuestSinglestep
  split <;> rfl

theorem resumeSinglestep_keeps (e : VmExit) (s : Thread) :
    Keeps s.ctx (resumeSinglestep e s).ctx := by
  unfold resumeSinglestep
  split
  · simp only
    split
    · rw [setGuestSinglestep_ctx]
      exact ⟨rfl, rfl⟩
    · exact ⟨rfl, rfl⟩
  · exact ⟨rfl, rfl⟩

theorem logExit_ctx (g : Globals) (e : VmExit) (s : Thread) : (logExit g e s).ctx = s.ctx := by
  unfold logExit
  split
  · simp only
    split <;> rfl
  · rfl

theorem logExit_mach (g : Globals) (e : VmExit) (s : Thread) : (logExit g e s).mach = s.mach := by
  unfold logExit
  split
  · simp only
    split <;> rfl
  · rfl

theorem countStep_keeps (g : Globals) (ok : Bool) (s : Thread) :
    Keeps s.ctx (countStep g ok s).ctx := by
  unfold countStep
  simp only
  split
  · rw [print_ctx, setGuestSinglestep_ctx]
    exact ⟨rfl, rfl⟩
  · exact ⟨rfl, rfl⟩

theorem logStep_ctx (g : Globals) (regs : Regs) (sregs : Sregs) (bytes : List UInt8) (s : Thread) :
    (logStep g regs sregs bytes s).ctx = s.ctx := by
  unfold logStep
  split <;> rfl

theorem handleDebug_keeps (g : Globals) (ok : Bool) (regs : Option Regs) (sregs : Option Sregs)
    (s : Thread) :
    Keeps s.ctx (handleDebug g ok regs sregs s).ctx := by
  have hcount : ∀ s' : Thread, Keeps s.ctx s'.ctx → Keeps s.ctx (countStep g ok s').ctx :=
    fun s' h =>
    ⟨(countStep_keeps g ok s').1.trans h.1, (countStep_keeps g ok s').2.trans h.2⟩
  unfold handleDebug
  split
  · cases regs with
    | none => exact hcount _ ⟨rfl, rfl⟩
    | some regs =>
      cases sregs with
      | none => exact hcount _ ⟨rfl, rfl⟩
      | some sregs =>
        simp only
        split
        · rw [print_ctx, setGuestSinglestep_ctx]
          unfold Keeps
          simp only [logStep_ctx]
          exact ⟨rfl, rfl⟩
        · refine hcount _ ?_
          rw [logStep_ctx]
          exact ⟨rfl, rfl⟩
  · exact ⟨rfl, rfl⟩

theorem handleMmio_spec (g : Globals) (physAddr : UInt64) (isWrite : Bool) (data : List UInt8)
    (s : Thread) :
    (handleMmio g physAddr isWrite data s).ret = 0 ∧
      (handleMmio g physAddr isWrite data s).thread.ctx = s.ctx := by
  unfold handleMmio
  refine ⟨rfl, ?_⟩
  simp only
  split
  · split <;> rfl
  · rfl

theorem handleHypercallOut_goesOn (g : Globals) (ctx : Vcpu) {regs : Regs} (data : List UInt8)
    (d : Devices) (h : GoesOn regs) :
    (handleHypercallOut g ctx regs data d).ret = 0 ∧
      Keeps ctx (handleHypercallOut g ctx regs data d).ctx := by
  unfold handleHypercallOut
  rcases h with h | h <;> rw [h]
  · exact ⟨rfl, rfl, rfl⟩
  · exact ⟨rfl, rfl, rfl⟩

theorem handleHypercallOut_stops (g : Globals) (ctx : Vcpu) {regs : Regs} (data : List UInt8)
    (d : Devices) (h : ¬ GoesOn regs) :
    (handleHypercallOut g ctx regs data d).ret < 0 ∨
      (handleHypercallOut g ctx regs data d).ctx.running = false := by
  obtain ⟨hput, hget⟩ := not_or.1 h
  unfold handleHypercallOut
  simp only [if_neg hput, if_neg hget]
  split
  · exact Or.inr rfl
  · exact Or.inl (show (-1 : Int) < 0 by decide)

theorem handleHypercallIn_keeps (g : Globals) (ctx : Vcpu) (data : List UInt8) (d : Devices) :
    (handleHypercallIn g ctx data d).ret = 0 ∧ Keeps ctx (handleHypercallIn g ctx data d).ctx := by
  unfold handleHypercallIn
  split <;> exact ⟨rfl, rfl, rfl⟩

/-! A guest that is not Linux. -/

theorem handleIo_stops (g : Globals) {ctx : Vcpu} {io : IoExit} (d : Devices)
    (hl : ctx.linuxGuest = false) (h : IoStops io) :
    (handleIo g ctx io d).ret < 0 ∨ (handleIo g ctx io d).ctx.running = false := by
  obtain ⟨ho, hp, hregs⟩ := h
  unfold handleIo
  simp only [ho, hp, hl, if_true, Bool.false_eq_true, if_false]
  cases hr : io.regs with
  | none => exact Or.inl (show (-1 : Int) < 0 by decide)
  | some regs => exact handleHypercallOut_stops g ctx _ _ (hregs regs hr)

theorem handleIo_goesOn (g : Globals) {ctx : Vcpu} {io : IoExit} (d : Devices)
    (hl : ctx.linuxGuest = false) (h : ¬ IoStops io) :
    (handleIo g ctx io d).ret = 0 ∧ Keeps ctx (handleIo g ctx io d).ctx := by
  unfold handleIo
  simp only [hl, Bool.false_eq_true, if_false]
  split
  · rename_i ho
    split
    · rename_i hp
      cases hr : io.regs with
      | none => exact absurd ⟨ho, hp, fun regs hs => absurd (hr.symm.trans hs) (by simp)⟩ h
      | some regs =>
        have hgo : GoesOn regs := not_not.1 fun hn => h ⟨ho, hp, fun regs' hs => by
          rwa [← Option.some_inj.1 (hr.symm.trans hs)]⟩
        exact handleHypercallOut_goesOn g ctx _ _ hgo
    · split <;> exact ⟨rfl, rfl, rfl⟩
  · split
    · exact handleHypercallIn_keeps g ctx _ _
    · split <;> exact ⟨rfl, rfl, rfl⟩

/-- The thread as the `switch` finds it. -/
def enterSwitch (g : Globals) (e : VmExit) (s : Thread) : Thread :=
  logExit g e (resumeSinglestep e { s with ctx := { s.ctx with exitCount := s.ctx.exitCount + 1 } })

theorem enterSwitch_keeps (g : Globals) (e : VmExit) (s : Thread) :
    Keeps s.ctx (enterSwitch g e s).ctx := by
  have h :=
    resumeSinglestep_keeps e { s with ctx := { s.ctx with exitCount := s.ctx.exitCount + 1 } }
  rw [enterSwitch, logExit_ctx]
  exact h

/-- Every case of the `switch` returns: the limit behind it is dead code. -/
theorem handleVmExit_eq (g : Globals) (e : VmExit) (s : Thread) :
    ∃ r, exitSwitch g e (enterSwitch g e s) = some r ∧ handleVmExit g e s = r := by
  have hsome : ∃ r, exitSwitch g e (enterSwitch g e s) = some r := by
    unfold exitSwitch
    split <;> exact ⟨_, rfl⟩
  obtain ⟨r, hr⟩ := hsome
  refine ⟨r, hr, ?_⟩
  show (exitSwitch g e (enterSwitch g e s)).getD _ = r
  rw [hr, Option.getD_some]

theorem handleVmExit_stops (g : Globals) {e : VmExit} {s : Thread} (hl : s.ctx.linuxGuest = false)
    (h : Stops e) :
    (handleVmExit g e s).ret < 0 ∨ (handleVmExit g e s).thread.ctx.running = false := by
  obtain ⟨r, hr, heq⟩ := handleVmExit_eq g e s
  have hk := enterSwitch_keeps g e s
  have hneg : (-1 : Int) < 0 := by decide
  rw [heq]
  unfold exitSwitch at hr
  unfold Stops at h
  cases hre : e.reason with
  | io io =>
    rw [hre] at hr h
    rw [← Option.some_inj.1 hr]
    exact handleIo_stops g _ (hk.2.trans hl) h
  | hlt => rw [hre] at hr; exact Or.inr (by rw [← Option.some_inj.1 hr])
  | shutdown => rw [hre] at hr; exact Or.inr (by rw [← Option.some_inj.1 hr]; rfl)
  | failEntry => rw [hre] at hr; exact Or.inl (by rw [← Option.some_inj.1 hr]; exact hneg)
  | internalError => rw [hre] at hr; exact Or.inl (by rw [← Option.some_inj.1 hr]; exact hneg)
  | other => rw [hre] at hr; exact Or.inl (by rw [← Option.some_inj.1 hr]; exact hneg)
  | debug => rw [hre] at h; exact h.elim
  | mmio => rw [hre] at h; exact h.elim
  | irqWindowOpen => rw [hre] at h; exact h.elim
  | intr => rw [hre] at h; exact h.elim

theorem handleVmExit_goesOn (g : Globals) {e : VmExit} {s : Thread} (hl : s.ctx.linuxGuest = false)
    (h : ¬ Stops e) :
    (handleVmExit g e s).ret = 0 ∧ Keeps s.ctx (handleVmExit g e s).thread.ctx := by
  obtain ⟨r, hr, heq⟩ := handleVmExit_eq g e s
  have hk := enterSwitch_keeps g e s
  have htrans : ∀ c, Keeps (enterSwitch g e s).ctx c → Keeps s.ctx c :=
    fun c hc => ⟨hc.1.trans hk.1, hc.2.trans hk.2⟩
  rw [heq]
  unfold exitSwitch at hr
  unfold Stops at h
  cases hre : e.reason with
  | io io =>
    rw [hre] at hr h
    obtain ⟨hret, hkeep⟩ := handleIo_goesOn g (enterSwitch g e s).dev (hk.2.trans hl) h
    rw [← Option.some_inj.1 hr]
    exact ⟨hret, htrans _ hkeep⟩
  | debug =>
    rw [hre] at hr
    rw [← Option.some_inj.1 hr]
    exact ⟨rfl, htrans _ (handleDebug_keeps g _ _ _ _)⟩
  | mmio =>
    rw [hre] at hr
    obtain ⟨hret, hctx⟩ := handleMmio_spec g _ _ _ (enterSwitch g e s)
    rw [← Option.some_inj.1 hr]
    exact ⟨hret, hctx ▸ hk⟩
  | irqWindowOpen => rw [hre] at hr; rw [← Option.some_inj.1 hr]; exact ⟨rfl, hk⟩
  | intr => rw [hre] at hr; rw [← Option.some_inj.1 hr]; exact ⟨rfl, hk⟩
  | hlt => rw [hre] at h; exact absurd trivial h
  | shutdown => rw [hre] at h; exact absurd trivial h
  | failEntry => rw [hre] at h; exact absurd trivial h
  | internalError => rw [hre] at h; exact absurd trivial h
  | other => rw [hre] at h; exact absurd trivial h

/-! ## The loop -/

theorem vcpuLoop_stopped (g : Globals) {s : Thread} (h : s.ctx.running = false) (es : List VmExit) :
    vcpuLoop g s es = [] := by
  cases es with
  | nil => rfl
  | cons e es =>
    rw [vcpuLoop, h]
    rfl

/-- One exit, then the loop in the state it leaves. -/
theorem vcpuLoop_cons (g : Globals) {e : VmExit} {s : Thread} (hl : s.ctx.linuxGuest = false)
    (hr : s.ctx.running = true) (es : List VmExit) :
    (Stops e → vcpuLoop g s (e :: es) = [e]) ∧
      (¬ Stops e → ∃ t : Thread, t.ctx.linuxGuest = false ∧ t.ctx.running = true ∧
        vcpuLoop g s (e :: es) = e :: vcpuLoop g t es) := by
  constructor
  · intro h
    rw [vcpuLoop, if_pos hr]
    simp only
    split
    · rfl
    · rename_i hret
      rw [vcpuLoop_stopped g ((handleVmExit_stops g hl h).resolve_left hret)]
  · intro h
    obtain ⟨hret, hrun, hlin⟩ := handleVmExit_goesOn g hl h
    refine ⟨(handleVmExit g e s).thread, hlin.trans hl, hrun.trans hr, ?_⟩
    rw [vcpuLoop, if_pos hr]
    simp only [hret]
    rfl

/-- A running thread handles no more than `N` exits exactly if there are no more,
or one of the first `N` stops it. -/
theorem vcpuLoop_length_le (g : Globals) (es : List VmExit) (N : Nat) {s : Thread}
    (hl : s.ctx.linuxGuest = false) (hr : s.ctx.running = true) :
    (vcpuLoop g s es).length ≤ N ↔ es.length ≤ N ∨ ∃ e ∈ es.take N, Stops e := by
  induction es generalizing N s with
  | nil => simp [vcpuLoop]
  | cons e es ih =>
    obtain ⟨hstop, hgo⟩ := vcpuLoop_cons g (e := e) hl hr es
    by_cases h : Stops e
    · rw [hstop h]
      cases N with
      | zero => simp
      | succ N => exact ⟨fun _ => Or.inr ⟨e, List.mem_cons_self, h⟩,
          fun _ => Nat.succ_le_succ (Nat.zero_le N)⟩
    · obtain ⟨t, htl, htr, heq⟩ := hgo h
      rw [heq, List.length_cons, List.length_cons]
      cases N with
      | zero => simp
      | succ N => simp [ih N htl htr, h]

/-- The first `n` of an endless sequence of exits. -/
def firstExits (exits : Nat → VmExit) (n : Nat) : List VmExit := (List.range n).map exits

/-- A guest that is not Linux leaves the loop within 100001 exits, of a finite
or an endless sequence, exactly if there are no more or one of those stops it. -/
theorem runaway_stopped_iff (g : Globals) {s : Thread} (hl : s.ctx.linuxGuest = false) :
    (∀ es, (vcpuLoop g s es).length ≤ 100001 ↔
      s.ctx.running = false ∨ es.length ≤ 100001 ∨ ∃ e ∈ es.take 100001, Stops e) ∧
    ∀ exits, (∀ n, (vcpuLoop g s (firstExits exits n)).length ≤ 100001) ↔
      s.ctx.running = false ∨ ∃ k < 100001, Stops (exits k) := by
  generalize 100001 = N
  cases hr : s.ctx.running with
  | false =>
    have hnil : ∀ es, (vcpuLoop g s es).length ≤ N := fun es => by
      rw [vcpuLoop_stopped g hr]
      exact Nat.zero_le _
    exact ⟨fun es => iff_of_true (hnil es) (Or.inl rfl),
      fun exits => iff_of_true (fun n => hnil _) (Or.inl rfl)⟩
  | true =>
    have hnot : ¬ true = false := by decide
    have hlen : ∀ exits n, (firstExits exits n).length = n := fun exits n => by
      rw [firstExits, List.length_map, List.length_range]
    refine ⟨fun es => ?_, fun exits => ?_⟩
    · rw [vcpuLoop_length_le g es N hl hr, or_iff_right hnot]
    · rw [or_iff_right hnot]
      constructor
      · intro hall
        obtain hle | ⟨e, he, hs⟩ := (vcpuLoop_length_le g _ N hl hr).1 (hall (N + 1))
        · rw [hlen] at hle
          omega
        · rw [firstExits, ← List.map_take, List.take_range] at he
          obtain ⟨k, hk, rfl⟩ := List.mem_map.1 he
          exact ⟨k, by have := List.mem_range.1 hk; omega, hs⟩
      · rintro ⟨k, hk, hs⟩ n
        rw [vcpuLoop_length_le g _ N hl hr, hlen]
        rcases Nat.lt_or_ge k n with hn | hn
        · refine Or.inr ⟨exits k, ?_, hs⟩
          rw [firstExits, ← List.map_take, List.take_range]
          exact List.mem_map_of_mem (List.mem_range.2 (by omega))
        · exact Or.inl (by omega)

/-- A guest in real mode, before its first exit. -/
def realModeThread : Thread := { ctx := { running := true }, mach := {}, dev := {} }

def quiet : Globals :=
  { verbose := false, linuxSerialInputEnabled := false, numVcpus := 1, name := fun _ => [],
    vmFd := 3 }

theorem runaway_stopped_hlt :
    (vcpuLoop quiet realModeThread [⟨.intr, true⟩, ⟨.hlt, true⟩, ⟨.intr, true⟩]).length ≤ 100001 :=
  ((runaway_stopped_iff quiet rfl).1 _).2 (Or.inr (Or.inr ⟨⟨.hlt, true⟩, by simp, trivial⟩))

/-- Interrupts are handled by KVM, and the loop goes on for all of them. -/
theorem runaway_not_stopped :
    realModeThread.ctx.usePaging = false ∧ realModeThread.ctx.linuxGuest = false ∧
    ¬ (vcpuLoop quiet realModeThread (List.replicate 100002 ⟨.intr, true⟩)).length ≤ 100001 := by
  refine ⟨rfl, rfl, fun hle => ?_⟩
  rw [vcpuLoop_length_le quiet _ _ rfl rfl, List.length_replicate] at hle
  obtain hle | ⟨e, he, hs⟩ := hle
  · exact absurd hle (by decide)
  · rw [(List.eq_of_mem_replicate (List.mem_of_mem_take he))] at hs
    exact hs

end MiniKvm.Vmm
