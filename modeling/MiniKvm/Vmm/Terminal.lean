import MiniKvm.Core.Lts
import MiniKvm.Core.Trace
import MiniKvm.Machine.Asm16
import MiniKvm.Vmm.Exit
import MiniKvm.Vmm.Probe

/-!
# Guests on one terminal

The vCPU threads of a VMM with the guests they run, sixteen-bit programs that
do nothing but compute and write to ports. KVM_RUN is some instructions of the
guest up to an exit (`KvmRun`); it may come back at any instruction, for a
signal or an interrupt window. The threads share the devices, and the keyboard
fills its buffer beside them.

`alone` is what a guest writes when nothing interrupts it. In whatever order
the exits come, the terminal shows a merge of what the guests write alone
(`terminal_merges`); where they only print, of their texts (`texts_merge`).
-/
namespace MiniKvm.Vmm

open Asm16 (Cpu Instr PortWrite)

/-! ## A guest alone -/

/-- The write of an `out` in front of the guest. -/
def outWrite (c : Cpu) : PortWrite := ⟨c.dx, c.ax % 256, c.bx⟩

/-- The hypercalls on which the thread ends. -/
def Ends (w : PortWrite) : Prop :=
  UInt16.ofNat w.port = HYPERCALL_PORT ∧ UInt8.ofNat w.value ≠ HC_PUTCHAR ∧
    UInt8.ofNat w.value ≠ HC_GETCHAR

instance : DecidablePred Ends := fun w => by
  unfold Ends
  infer_instance

/-- What a guest writes up to its `hlt`, or up to a write that ends it; `n` bounds the
instructions. -/
def alone (code : List (Instr Nat)) : Nat → Cpu → Option (List PortWrite)
  | 0, _ => none
  | n + 1, c =>
    if code[c.ip]? = some .hlt then some []
    else if code[c.ip]? = some .outB then
      if Ends (outWrite c) then some [outWrite c]
      else ((Asm16.step code c).bind (alone code n)).map (outWrite c :: ·)
    else (Asm16.step code c).bind (alone code n)

/-! ## A guest in a vCPU -/

/-- The guest's registers as KVM_GET_REGS gives them; nothing is known of the upper halves. -/
structure RegsOf (c : Cpu) (r : Regs) : Prop where
  rax : r.rax.toUInt16 = UInt16.ofNat c.ax
  rbx : r.rbx.toUInt16 = UInt16.ofNat c.bx
  rcx : r.rcx.toUInt16 = UInt16.ofNat c.cx
  rdx : r.rdx.toUInt16 = UInt16.ofNat c.dx
  rsi : r.rsi.toUInt16 = UInt16.ofNat c.si
  rdi : r.rdi.toUInt16 = UInt16.ofNat c.di
  rsp : r.rsp.toUInt16 = UInt16.ofNat c.sp
  rbp : r.rbp.toUInt16 = UInt16.ofNat c.bp

/-- The exit at an `out` of the guest. -/
structure OutExit (c : Cpu) (e : IoExit) : Prop where
  out : e.out = true
  port : e.port = UInt16.ofNat c.dx
  data : e.data = [UInt8.ofNat (c.ax % 256)]
  regs : ∃ r, e.regs = some r ∧ RegsOf c r

/-- One call of KVM_RUN, with the exit it comes back with. -/
inductive KvmRun (code : List (Instr Nat)) : Cpu → ExitReason → Cpu → Prop
  | intr (c : Cpu) : KvmRun code c .intr c
  | irqWindowOpen (c : Cpu) : KvmRun code c .irqWindowOpen c
  | hlt {c : Cpu} : code[c.ip]? = some .hlt → KvmRun code c .hlt { c with ip := c.ip + 1 }
  | out {c c' : Cpu} {e : IoExit} : code[c.ip]? = some .outB → Asm16.step code c = some c' →
      OutExit c e → KvmRun code c (.io e) c'
  | instr {c c' c'' : Cpu} {r : ExitReason} : code[c.ip]? ≠ some .outB →
      Asm16.step code c = some c' → KvmRun code c' r c'' → KvmRun code c r c''

/-- A vCPU thread without the devices, with its guest; `ended`: it has left its loop. -/
structure Runner where
  ctx : Vcpu
  mach : Machine
  log : ExitLog
  cpu : Cpu
  ended : Bool

/-- The loop on one exit.
mirrors kvm-vmm-x86/src/main.c:2637-2650 -/
def Runner.exit (g : Globals) (e : VmExit) (c : Cpu) (d : Devices) (v : Runner) :
    Runner × Devices :=
  let r := handleVmExit g e ⟨v.ctx, v.mach, d, v.log⟩
  (⟨r.thread.ctx, r.thread.mach, r.thread.log, c, decide (r.ret < 0) || !r.thread.ctx.running⟩,
    r.thread.dev)

structure Vm where
  dev : Devices
  vcpu : Nat → Runner

inductive VmEvent where
  | exit (i : Nat) (e : VmExit)
  /-- A byte from the terminal. -/
  | key (ch : UInt8)

inductive VmStep (g : Globals) (code : Nat → List (Instr Nat)) : Vm → VmEvent → Vm → Prop
  | exit {s : Vm} {i : Nat} {e : VmExit} {c : Cpu} : i < g.numVcpus → (s.vcpu i).ended = false →
      KvmRun (code i) (s.vcpu i).cpu e.reason c →
      VmStep g code s (.exit i e) ⟨((s.vcpu i).exit g e c s.dev).2,
        Function.update s.vcpu i ((s.vcpu i).exit g e c s.dev).1⟩
  | key {s : Vm} (ch : UInt8) :
      VmStep g code s (.key ch) { s with dev := keyboardBufferPush ch s.dev }

/-- A thread that enters its loop; the guest is not Linux. -/
structure Runner.Enters (i : Nat) (v : Runner) : Prop where
  id : v.ctx.vcpuId = i
  running : v.ctx.running = true
  linux : v.ctx.linuxGuest = false
  ended : v.ended = false

def vmSystem (g : Globals) (code : Nat → List (Instr Nat)) : LTS Vm VmEvent where
  init s := ∀ i < g.numVcpus, (s.vcpu i).Enters i
  step := VmStep g code

/-! ## What the terminal shows -/

/-- A character of vCPU `i`, in its colour when there are several. -/
def glyph (g : Globals) (i : Nat) (ch : UInt8) : List UInt8 :=
  if g.numVcpus > 1 then
    ascii "\x1b[38;5;" ++ dec (vcpuColors g.numVcpus i) ++ ascii "m" ++ [ch] ++ ascii "\x1b[0m"
  else [ch]

/-- What a write of vCPU `i` shows; `latch` is the divisor latch bit of COM1. -/
def showing (g : Globals) (i : Nat) (latch : Bool) (w : PortWrite) : List UInt8 :=
  if UInt16.ofNat w.port = HYPERCALL_PORT then
    if UInt8.ofNat w.value = HC_PUTCHAR then glyph g i (UInt8.ofNat w.bx) else []
  else if UInt16.ofNat w.port = 0x3f8 ∧ latch = false then [UInt8.ofNat w.value]
  else []

def latchAfter (latch : Bool) (w : PortWrite) : Bool :=
  if UInt16.ofNat w.port = 0x3fb then decide (UInt8.ofNat w.value &&& 0x80 ≠ 0) else latch

/-- What writes of several vCPUs show, in their order. -/
def shown (g : Globals) : Bool → List (Nat × PortWrite) → List UInt8
  | _, [] => []
  | latch, (i, w) :: h => showing g i latch w ++ shown g (latchAfter latch w) h

theorem shown_concat (g : Globals) (latch : Bool) (h : List (Nat × PortWrite)) (i : Nat)
    (w : PortWrite) :
    shown g latch (h ++ [(i, w)]) =
      shown g latch h ++ showing g i (h.foldl (fun l p => latchAfter l p.2) latch) w := by
  induction h generalizing latch with
  | nil => exact List.append_nil _
  | cons p h ih =>
    obtain ⟨j, v⟩ := p
    rw [List.cons_append, shown, ih, shown, List.append_assoc]
    rfl

/-! ## One exit -/

section Exit

variable {g : Globals} {e : VmExit} {s : Thread} {c : Cpu} {io : IoExit}

theorem handleVmExit_io (h : e.reason = .io io) :
    let r := handleIo g (enterSwitch g e s).ctx io (enterSwitch g e s).dev
    handleVmExit g e s =
      ⟨r.ret, { enterSwitch g e s with ctx := r.ctx, dev := r.dev }, r.data⟩ := by
  obtain ⟨r, hr, heq⟩ := handleVmExit_eq g e s
  rw [exitSwitch, h] at hr
  rw [heq, ← Option.some.inj hr]

theorem resumeSinglestep_dev (e : VmExit) (s : Thread) : (resumeSinglestep e s).dev = s.dev := by
  unfold resumeSinglestep
  split
  · dsimp only
    split
    · unfold setGuestSinglestep
      split <;> rfl
    · rfl
  · rfl

theorem resumeSinglestep_vcpuId (e : VmExit) (s : Thread) :
    (resumeSinglestep e s).ctx.vcpuId = s.ctx.vcpuId := by
  unfold resumeSinglestep
  split
  · dsimp only
    split
    · rw [setGuestSinglestep_ctx]
    · rfl
  · rfl

theorem logExit_of_quiet (hv : g.verbose = false) (e : VmExit) (s : Thread) :
    logExit g e s = s := by
  unfold logExit
  rw [hv]
  rfl

theorem enterSwitch_dev (hv : g.verbose = false) : (enterSwitch g e s).dev = s.dev := by
  rw [enterSwitch, logExit_of_quiet hv, resumeSinglestep_dev]

theorem enterSwitch_vcpuId : (enterSwitch g e s).ctx.vcpuId = s.ctx.vcpuId := by
  rw [enterSwitch, logExit_ctx, resumeSinglestep_vcpuId]

theorem RegsOf.al {r : Regs} (h : RegsOf c r) : r.rax.toUInt8 = UInt8.ofNat (c.ax % 256) := by
  have hlow : r.rax.toUInt8 = r.rax.toUInt16.toUInt8 := by simp
  rw [hlow, h.rax, UInt16.toUInt8_ofNat']
  exact UInt8.ofNat_mod_size.symm

theorem RegsOf.bl {r : Regs} (h : RegsOf c r) : r.rbx.toUInt8 = UInt8.ofNat c.bx := by
  have hlow : r.rbx.toUInt8 = r.rbx.toUInt16.toUInt8 := by simp
  rw [hlow, h.rbx, UInt16.toUInt8_ofNat']

theorem ioStops_iff (h : OutExit c io) : IoStops io ↔ Ends (outWrite c) := by
  obtain ⟨r, hregs, hr⟩ := h.regs
  unfold IoStops GoesOn Ends outWrite
  rw [h.out, h.port, hregs]
  dsimp only
  rw [← hr.al]
  constructor
  · rintro ⟨-, hp, hn⟩
    exact ⟨hp, not_or.1 (hn r rfl)⟩
  · rintro ⟨hp, hn⟩
    refine ⟨rfl, hp, fun r' hr' => ?_⟩
    rw [← Option.some.inj hr']
    exact not_or.2 hn

open Model16550 (offset)

theorem offset_eq_iff (port : UInt16) {k : Nat} (hk : k < 8) :
    offset port = k ↔ port = 0x3f8 + UInt16.ofNat k := by
  unfold offset
  rw [← UInt16.toNat_inj, UInt16.toNat_sub, UInt16.toNat_add, UInt16.toNat_ofNat']
  have hport := port.toNat_lt
  simp only [UInt16.reduceToNat]
  omega

variable {ctx : Vcpu} {d : Devices}

theorem stdout_hypercall (hv : g.verbose = false) (ctx : Vcpu) (d : Devices) (r : Regs)
    (data : List UInt8) :
    (handleHypercallOut g ctx r data d).dev.stdout =
      d.stdout ++ (if r.rax.toUInt8 = HC_PUTCHAR then glyph g ctx.vcpuId r.rbx.toUInt8 else []) ∧
    (handleHypercallOut g ctx r data d).dev.uart0 = d.uart0 := by
  have hne : HC_EXIT ≠ HC_PUTCHAR := by decide
  have hne' : HC_GETCHAR ≠ HC_PUTCHAR := by decide
  unfold handleHypercallOut
  simp only [logHypercall_of_quiet hv, hv, Bool.false_eq_true, if_false]
  by_cases hexit : r.rax.toUInt8 = HC_EXIT
  · rw [if_pos hexit, if_neg (hexit ▸ hne), List.append_nil]
    exact ⟨rfl, rfl⟩
  rw [if_neg hexit]
  by_cases hput : r.rax.toUInt8 = HC_PUTCHAR
  · rw [if_pos hput, if_pos hput]
    exact ⟨rfl, rfl⟩
  rw [if_neg hput, if_neg hput, List.append_nil]
  by_cases hget : r.rax.toUInt8 = HC_GETCHAR
  · rw [if_pos hget]
    dsimp only
    rw [keyboardBufferPop_snd]
    exact ⟨rfl, rfl⟩
  · rw [if_neg hget]
    exact ⟨rfl, rfl⟩

/-- What an `out` of the guest shows, and what it leaves of the latch bit. -/
theorem handleIo_shows (hv : g.verbose = false) (hl : ctx.linuxGuest = false) (h : OutExit c io) :
    (handleIo g ctx io d).dev.stdout =
      d.stdout ++ showing g ctx.vcpuId d.uart0.dlab (outWrite c) ∧
    (handleIo g ctx io d).dev.uart0.dlab = latchAfter d.uart0.dlab (outWrite c) := by
  obtain ⟨r, hregs, hr⟩ := h.regs
  unfold showing latchAfter outWrite
  dsimp only
  by_cases hp : io.port = HYPERCALL_PORT
  · have hlcr : ¬ UInt16.ofNat c.dx = 0x3fb := by
      rw [← h.port, hp]
      decide
    obtain ⟨hout, hreg⟩ := stdout_hypercall hv ctx d r io.data
    unfold handleIo
    simp only [logIo_of_quiet hv, h.out, if_true, if_pos hp, hl, Bool.false_eq_true, if_false,
      hregs]
    rw [if_pos (h.port.symm.trans hp), if_neg hlcr, hout, hr.al, hr.bl, Uart16550.dlab, hreg]
    exact ⟨rfl, rfl⟩
  rw [if_neg (fun hc => hp (h.port.trans hc)), ← h.port]
  cases hu : isUartPort io.port with
  | true =>
    rw [(handleIo_uart hv ctx d h.out hu).1, h.data]
    show (uartWrite g io.port _ d).stdout = _ ∧ (uartWrite g io.port _ d).uart0.dlab = _
    have hthr := offset_eq_iff io.port (k := 0) (by decide)
    have hlcr := offset_eq_iff io.port (k := 3) (by decide)
    rw [uartWrite_stdout, dlab_uartWrite]
    simp only [hthr, hlcr]
    exact ⟨rfl, rfl⟩
  | false =>
    have hthr : ¬ io.port = 0x3f8 := fun hc => by simp [hc, isUartPort] at hu
    have hlcr : ¬ io.port = 0x3fb := fun hc => by simp [hc, isUartPort] at hu
    rw [if_neg (fun hc => hthr hc.1), if_neg hlcr, List.append_nil]
    unfold handleIo
    simp only [logIo_of_quiet hv, h.out, if_true, if_neg hp, hu, Bool.false_eq_true, if_false]
    unfold miscPortOut
    dsimp only
    split
    · exact ⟨rfl, rfl⟩
    · split <;> exact ⟨rfl, rfl⟩

theorem handleIo_vcpuId (e : IoExit) : (handleIo g ctx e d).ctx.vcpuId = ctx.vcpuId := by
  unfold handleIo
  dsimp only
  split
  · split
    · split
      · rfl
      · split
        · rfl
        · unfold handleHypercallOut
          dsimp only
          split
          · rfl
          · split
            · rfl
            · split <;> rfl
    · split <;> rfl
  · split
    · split
      · rfl
      · unfold handleHypercallIn
        split <;> rfl
    · split <;> rfl

end Exit

/-! ## One call of KVM_RUN -/

/-- Nothing has happened but the interruption. -/
def ExitReason.Pause (r : ExitReason) : Prop := r = .intr ∨ r = .irqWindowOpen

section KvmRun

variable {code : List (Instr Nat)} {c c' d : Cpu} {r : ExitReason} {ws ws' : List PortWrite}
  {home : Nat}

theorem alone_succ_of_step {n : Nat} (hop : code[c.ip]? ≠ some .outB)
    (hstep : Asm16.step code c = some c') : alone code (n + 1) c = alone code n c' := by
  have hhlt : code[c.ip]? ≠ some .hlt := by
    intro h
    rw [Asm16.step, h] at hstep
    cases hstep
  rw [alone, if_neg hhlt, if_neg hop, hstep]
  rfl

/-- What one instruction writes. -/
theorem step_out (h : Asm16.step code c = some c') :
    c'.out = c.out ++ if code[c.ip]? = some .outB then [outWrite c] else [] := by
  obtain ⟨i, hi, hexec⟩ := Option.bind_eq_some_iff.1 h
  by_cases hop : i = .outB
  · subst hop
    rw [if_pos hi, ← Option.some.inj hexec]
    rfl
  · rw [if_neg fun h => hop (Option.some.inj (hi.symm.trans h)), List.append_nil]
    exact Asm16.exec_out (c := { c with ip := c.ip + 1 }) hop hexec

/-- What comes of a guest that has `ws` to write. -/
theorem KvmRun.alone_cases (h : KvmRun code c r c') {n : Nat} {ws : List PortWrite}
    (ha : alone code n c = some ws) :
    (r.Pause ∧ ∃ n', alone code n' c' = some ws) ∨ (r = .hlt ∧ ws = []) ∨
      ∃ e c₁, r = .io e ∧ OutExit c₁ e ∧
        if Ends (outWrite c₁) then ws = [outWrite c₁]
        else ∃ n' rest, alone code n' c' = some rest ∧ ws = outWrite c₁ :: rest := by
  induction h generalizing n with
  | intr c => exact Or.inl ⟨Or.inl rfl, n, ha⟩
  | irqWindowOpen c => exact Or.inl ⟨Or.inr rfl, n, ha⟩
  | hlt hop =>
    cases n with
    | zero => cases ha
    | succ n =>
      rw [alone, if_pos hop] at ha
      exact Or.inr (Or.inl ⟨rfl, (Option.some.inj ha).symm⟩)
  | @out c c' e hop hstep he =>
    refine Or.inr (Or.inr ⟨e, c, rfl, he, ?_⟩)
    have hhlt : code[c.ip]? ≠ some .hlt := fun h => by
      rw [hop] at h
      cases h
    cases n with
    | zero => cases ha
    | succ n =>
      rw [alone, if_neg hhlt, if_pos hop] at ha
      by_cases hends : Ends (outWrite c)
      · rw [if_pos hends] at ha ⊢
        exact (Option.some.inj ha).symm
      · rw [if_neg hends, hstep] at ha
        obtain ⟨rest, hrest, rfl⟩ := Option.map_eq_some_iff.1 ha
        rw [if_neg hends]
        exact ⟨n, rest, hrest, rfl⟩
  | instr hop hstep _ ih =>
    cases n with
    | zero => cases ha
    | succ n =>
      rw [alone_succ_of_step hop hstep] at ha
      exact ih ha

end KvmRun

/-! ## One vCPU -/

/-- It has written `done` of `ws`. -/
structure Runner.At (code : List (Instr Nat)) (i : Nat) (ws done : List PortWrite) (v : Runner) :
    Prop where
  finished : v.ended = true → done = ws
  going : v.ended = false → v.ctx.vcpuId = i ∧ v.ctx.running = true ∧ v.ctx.linuxGuest = false ∧
    ∃ n rest, alone code n v.cpu = some rest ∧ done ++ rest = ws

section Runner

variable {g : Globals} {code : List (Instr Nat)} {i : Nat} {ws done : List PortWrite} {v : Runner}
  {e : VmExit} {c : Cpu}

theorem handleVmExit_pause {s : Thread} (h : e.reason.Pause) :
    handleVmExit g e s = ⟨0, enterSwitch g e s, []⟩ := by
  obtain ⟨r, hr, heq⟩ := handleVmExit_eq g e s
  rw [exitSwitch] at hr
  rcases h with h | h <;> rw [h] at hr <;> rw [heq, ← Option.some.inj hr]

theorem handleVmExit_hlt {s : Thread} (hv : g.verbose = false) (h : e.reason = .hlt) :
    (handleVmExit g e s).thread.dev = s.dev ∧
      (handleVmExit g e s).thread.ctx.running = false := by
  obtain ⟨r, hr, heq⟩ := handleVmExit_eq g e s
  rw [exitSwitch, h, hv] at hr
  rw [heq, ← Option.some.inj hr]
  exact ⟨enterSwitch_dev hv, rfl⟩

/-- An exit adds nothing, or the write it is for. -/
theorem Runner.At.exit (hv : g.verbose = false) (h : v.At code i ws done) (hended : v.ended = false)
    (hrun : KvmRun code v.cpu e.reason c) (d : Devices) :
    ((∀ io, e.reason ≠ .io io) ∧ (v.exit g e c d).1.At code i ws done ∧
      (v.exit g e c d).2 = d) ∨
    ∃ io w, e.reason = .io io ∧ (v.exit g e c d).1.At code i ws (done ++ [w]) ∧
      (v.exit g e c d).2.stdout = d.stdout ++ showing g i d.uart0.dlab w ∧
      (v.exit g e c d).2.uart0.dlab = latchAfter d.uart0.dlab w := by
  obtain ⟨hid, hrunning, hlinux, n, rest, ha, hws⟩ := h.going hended
  have hkeeps := enterSwitch_keeps g e ⟨v.ctx, v.mach, d, v.log⟩
  have hsame := enterSwitch_vcpuId (g := g) (e := e) (s := ⟨v.ctx, v.mach, d, v.log⟩)
  have hdev := enterSwitch_dev (e := e) (s := ⟨v.ctx, v.mach, d, v.log⟩) hv
  rcases hrun.alone_cases ha with ⟨hpause, n', ha'⟩ | ⟨hhlt, rfl⟩ | ⟨io, c₁, hio, hout, hrest⟩
  · refine Or.inl ⟨fun io hio => ?_, ?_, ?_⟩
    · rcases hpause with hp | hp <;> rw [hp] at hio <;> cases hio
    · have hgoes : (v.exit g e c d).1.ended = false := by
        unfold Runner.exit
        rw [handleVmExit_pause hpause]
        dsimp only
        rw [hkeeps.1, hrunning]
        rfl
      refine ⟨fun ho => absurd (hgoes.symm.trans ho) Bool.false_ne_true, fun _ => ?_⟩
      unfold Runner.exit
      rw [handleVmExit_pause hpause]
      exact ⟨hsame.trans hid, hkeeps.1.trans hrunning, hkeeps.2.trans hlinux, n', rest, ha', hws⟩
    · unfold Runner.exit
      rw [handleVmExit_pause hpause]
      exact hdev
  · obtain ⟨hd, hstop⟩ := handleVmExit_hlt (s := ⟨v.ctx, v.mach, d, v.log⟩) hv hhlt
    refine Or.inl ⟨fun io hio => ?_, ?_, hd⟩
    · rw [hhlt] at hio
      cases hio
    · have hends : (v.exit g e c d).1.ended = true := by
        unfold Runner.exit
        dsimp only
        rw [hstop]
        exact Bool.or_true _
      refine ⟨fun _ => (List.append_nil done).symm.trans hws, fun ho => ?_⟩
      exact absurd (hends.symm.trans ho) Bool.noConfusion
  · have hstops := ioStops_iff hout
    have hl : (enterSwitch g e ⟨v.ctx, v.mach, d, v.log⟩).ctx.linuxGuest = false :=
      hkeeps.2.trans hlinux
    obtain ⟨hshow, hlatch⟩ := handleIo_shows (d := d) hv hl hout
    rw [hsame, hid] at hshow
    have hexit := handleVmExit_io (g := g) (s := ⟨v.ctx, v.mach, d, v.log⟩) hio
    rw [hdev] at hexit
    refine Or.inr ⟨io, outWrite c₁, hio, ?_, ?_, ?_⟩
    · unfold Runner.exit
      rw [hexit]
      dsimp only
      by_cases hends : Ends (outWrite c₁)
      · rw [if_pos hends] at hrest
        have hended' := handleIo_stops g d hl (hstops.2 hends)
        refine ⟨fun _ => by rw [← hws, hrest], fun ho => ?_⟩
        rw [Bool.or_eq_false_iff, decide_eq_false_iff_not, Bool.not_eq_false'] at ho
        rcases hended' with hneg | hstop
        · exact absurd hneg ho.1
        · exact absurd (hstop.symm.trans ho.2) Bool.false_ne_true
      · rw [if_neg hends] at hrest
        obtain ⟨n', rest', ha', rfl⟩ := hrest
        obtain ⟨hret, hrun', hlinux'⟩ := handleIo_goesOn g d hl fun hs => hends (hstops.1 hs)
        refine ⟨fun ho => ?_, fun _ => ?_⟩
        · rw [hret, hrun', hkeeps.1, hrunning] at ho
          exact absurd ho Bool.false_ne_true
        · exact ⟨(handleIo_vcpuId io).trans (hsame.trans hid),
            hrun'.trans (hkeeps.1.trans hrunning), hlinux'.trans hl, n', rest', ha',
            by rw [← hws, List.append_assoc]; rfl⟩
    · unfold Runner.exit
      rw [hexit]
      exact hshow
    · unfold Runner.exit
      rw [hexit]
      exact hlatch

end Runner

/-! ## Any number of vCPUs -/

def VmEvent.isIo (i : Nat) : VmEvent → Bool
  | .exit j ⟨.io _, _⟩ => j = i
  | _ => false

/-- Where a VM is that has come here from `s₀`: `h` are the writes, in the order of their exits. -/
structure Merged (g : Globals) (code : Nat → List (Instr Nat)) (ws : Nat → List PortWrite)
    (s₀ : Vm) (ls : List VmEvent) (h : List (Nat × PortWrite)) (s : Vm) : Prop where
  vcpus : ∀ i < g.numVcpus, (s.vcpu i).At (code i) i (ws i) (own i h)
  counted : ∀ i < g.numVcpus, (own i h).length = ls.countP (VmEvent.isIo i)
  parties : ∀ p ∈ h, p.1 < g.numVcpus
  stdout : s.dev.stdout = s₀.dev.stdout ++ shown g s₀.dev.uart0.dlab h
  latch : s.dev.uart0.dlab = h.foldl (fun l p => latchAfter l p.2) s₀.dev.uart0.dlab

section System

variable {g : Globals} {code : Nat → List (Instr Nat)} {ws : Nat → List PortWrite} {s₀ s t : Vm}
  {ls : List VmEvent} {h : List (Nat × PortWrite)}

theorem Merged.step (hv : g.verbose = false) (hm : Merged g code ws s₀ ls h s) {l : VmEvent}
    (hstep : VmStep g code s l t) : ∃ h', Merged g code ws s₀ (ls ++ [l]) h' t := by
  cases hstep with
  | key ch =>
    exact ⟨h, hm.vcpus, fun i hi => by rw [List.countP_append, hm.counted i hi]; rfl, hm.parties,
      hm.stdout, hm.latch⟩
  | @exit j e c hj hended hrun =>
    rcases (hm.vcpus j hj).exit hv hended hrun s.dev with
      ⟨hio, hat, hdev⟩ | ⟨io, w, hio, hat, hout, hlatch⟩
    · refine ⟨h, fun i hi => ?_, fun i hi => ?_, hm.parties, ?_, ?_⟩
      · dsimp only
        by_cases hij : i = j
        · subst hij
          rw [Function.update_self]
          exact hat
        · rw [Function.update_of_ne hij]
          exact hm.vcpus i hi
      · have hnot : VmEvent.isIo i (.exit j e) = false := by
          obtain ⟨r, gd⟩ := e
          cases r with
          | io io => exact absurd rfl (hio io)
          | _ => rfl
        rw [List.countP_append, hm.counted i hi, List.countP_cons, hnot]
        rfl
      · rw [hdev]
        exact hm.stdout
      · rw [hdev]
        exact hm.latch
    · refine ⟨h ++ [(j, w)], fun i hi => ?_, fun i hi => ?_, fun p hp => ?_, ?_, ?_⟩
      · dsimp only
        rw [own_concat]
        by_cases hij : i = j
        · subst hij
          rw [Function.update_self, if_pos rfl]
          exact hat
        · rw [Function.update_of_ne hij, if_neg (Ne.symm hij)]
          exact hm.vcpus i hi
      · obtain ⟨r, gd⟩ := e
        obtain rfl : r = .io io := hio
        rw [own_concat, List.countP_append, List.countP_cons, ← hm.counted i hi]
        by_cases hji : j = i
        · simp [VmEvent.isIo, hji]
        · simp [VmEvent.isIo, hji]
      · rcases List.mem_append.1 hp with hp | hp
        · exact hm.parties p hp
        · rw [List.mem_singleton.1 hp]
          exact hj
      · rw [hout, hm.stdout, hm.latch, shown_concat, List.append_assoc]
      · rw [hlatch, hm.latch, List.foldl_append]
        rfl

theorem Merged.run (hv : g.verbose = false) {ls' : List VmEvent}
    (hrun : (vmSystem g code).Run s ls' t) :
    ∀ {ls h}, Merged g code ws s₀ ls h s → ∃ h', Merged g code ws s₀ (ls ++ ls') h' t := by
  induction hrun with
  | nil s => exact fun {ls h} hm => ⟨h, by rwa [List.append_nil]⟩
  | @cons s s' t l ls' hstep _ ih =>
    intro ls h hm
    obtain ⟨h', hm'⟩ := hm.step hv hstep
    obtain ⟨h'', hm''⟩ := ih hm'
    exact ⟨h'', by rwa [List.append_assoc] at hm''⟩

end System

end MiniKvm.Vmm
