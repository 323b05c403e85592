import MiniKvm.Vmm.Uart

/-!
# What one vCPU's I/O can do to another's

COM1 and the legacy ports exist once, for all vCPUs. So the exits of vCPU j can
change what vCPU i writes to stdout and reads back. Runs interleave I/O exits
of both; vCPU i is `Unaffected` when its exits write the same bytes and its INs
return the same data as when they are run alone.

`unaffected_of_harmless` is the two-run argument: exits of j that write no
COM1 register and not port 0x92 keep the two runs in step.

The keyboard is left out: no byte arrives, as for real-mode guests, for which
the stdin thread is not started.
-/
namespace MiniKvm.Vmm

open Model16550

inductive Side where
  | i | j
  deriving DecidableEq, Repr

/-- Two vCPUs at the shared devices, with what vCPU i's exits wrote to stdout
and what its INs returned. -/
structure Pair where
  dev : Devices := {}
  ctxI : Vcpu
  ctxJ : Vcpu
  out : List UInt8 := []
  ins : List (List UInt8) := []

/-- The bytes written to stdout on the way from `d` to `d'`. -/
def written (d d' : Devices) : List UInt8 := d'.stdout.drop d.stdout.length

def Pair.step (g : Globals) (s : Pair) : Side × IoExit → Pair
  | (.i, e) =>
    let r := handleIo g s.ctxI e s.dev
    { s with
      dev := r.dev
      ctxI := r.ctx
      out := s.out ++ written s.dev r.dev
      ins := if e.out then s.ins else s.ins ++ [r.data] }
  | (.j, e) =>
    let r := handleIo g s.ctxJ e s.dev
    { s with dev := r.dev, ctxJ := r.ctx }

abbrev Interleaving := List (Side × IoExit)

/-- The exits of one side, in their order. -/
def Interleaving.of (os : Interleaving) (x : Side) : List IoExit :=
  (os.filter fun p => p.1 = x).map Prod.snd

/-- vCPU i's exits without the others. -/
def Interleaving.alone (os : Interleaving) : Interleaving := os.filter fun p => p.1 = Side.i

def Unaffected (g : Globals) (ci cj : Vcpu) (os : Interleaving) : Prop :=
  let s := after (Pair.step g) { ctxI := ci, ctxJ := cj } os
  let t := after (Pair.step g) { ctxI := ci, ctxJ := cj } os.alone
  s.out = t.out ∧ s.ins = t.ins

/-- The value an OUT of several bytes stores at an offset. -/
def byteAt : UInt16 → List UInt8 → Nat → Option UInt8
  | _, [], _ => none
  | port, b :: bs, off => (byteAt (port + 1) bs off).or (if offset port = off then some b else none)

/-- The exit stores nothing in a COM1 register, under the current DLAB, and
nothing in port 0x92. -/
def Harmless (d : Devices) (e : IoExit) : Prop :=
  e.out = true → e.port ≠ 0x92 ∧
    (isUartPort e.port = true →
      ∀ off, (target d.uart0.dlab off).isSome → byteAt e.port e.data off = none)

/-- No step of vCPU j stores in a shared register. -/
def Pair.HarmlessStep (s : Pair) : Side × IoExit → Prop
  | (.i, _) => True
  | (.j, e) => Harmless s.dev e

/-! ## Devices in step -/

/-- The shared state that exits can observe is the same. -/
structure Agree (d d' : Devices) : Prop where
  uart0 : d.uart0 = d'.uart0
  port92 : d.port92 = d'.port92
  unread : d.unread = d'.unread

/-- From `d` to `r` and from `d'` to `r'`: still in step, and the same bytes
written. -/
structure InStep (d r d' r' : Devices) : Prop where
  agree : Agree r r'
  out : ∃ w, r.stdout = d.stdout ++ w ∧ r'.stdout = d'.stdout ++ w

theorem Agree.same {d d' : Devices} (h : Agree d d') : InStep d d d' d' :=
  ⟨h, [], by simp, by simp⟩

theorem InStep.trans {d r t d' r' t' : Devices} (h1 : InStep d r d' r') (h2 : InStep r t r' t') :
    InStep d t d' t' := by
  obtain ⟨w1, ha1, hb1⟩ := h1.out
  obtain ⟨w2, ha2, hb2⟩ := h2.out
  exact ⟨h2.agree,
    w1 ++ w2, by rw [ha2, ha1, List.append_assoc], by rw [hb2, hb1, List.append_assoc]⟩

theorem InStep.written {d r d' r' : Devices} (h : InStep d r d' r') :
    written d r = written d' r' := by
  obtain ⟨w, h1, h2⟩ := h.out
  unfold Vmm.written
  rw [h1, h2, List.drop_left, List.drop_left]

theorem pulseThre_agree (g : Globals) (d : Devices) : Agree (pulseThre g d) d := by
  refine ⟨pulseThre_uart0 g d, ?_, unread_pulseThre g d⟩
  unfold pulseThre pulseIrqLine
  split
  · split <;> rfl
  · rfl

section InStep

variable {g : Globals} {d d' : Devices}

theorem pulseThre_inStep (h : Agree d d') : InStep d (pulseThre g d) d' (pulseThre g d') := by
  have h1 := pulseThre_agree g d
  have h2 := pulseThre_agree g d'
  refine ⟨⟨?_, ?_, ?_⟩, [], by simp [pulseThre_stdout], by simp [pulseThre_stdout]⟩
  · rw [h1.uart0, h2.uart0, h.uart0]
  · rw [h1.port92, h2.port92, h.port92]
  · rw [h1.unread, h2.unread, h.unread]

theorem uartWrite_inStep (port : UInt16) (b : UInt8) (h : Agree d d') :
    InStep d (uartWrite g port b d) d' (uartWrite g port b d') := by
  have hd : d.uart0.dlab = d'.uart0.dlab := by rw [h.uart0]
  have hreg : ∀ f : Uart16550 → Uart16550,
      InStep d { d with uart0 := f d.uart0 } d' { d' with uart0 := f d'.uart0 } := fun f =>
    ⟨⟨by rw [h.uart0], h.port92, h.unread⟩, [], by simp, by simp⟩
  have hput :
      InStep d { d with stdout := d.stdout ++ [b] } d' { d' with stdout := d'.stdout ++ [b] } :=
    ⟨⟨h.uart0, h.port92, h.unread⟩, [b], rfl, rfl⟩
  unfold uartWrite
  rw [hd]
  split
  · split
    · exact hreg fun u => { u with dll := b }
    · exact hput.trans (pulseThre_inStep hput.agree)
  · split
    · exact hreg fun u => { u with dlh := b }
    · have hi := hreg fun u => { u with ier := b }
      exact hi.trans (pulseThre_inStep hi.agree)
  · exact hreg fun u => { u with lcr := b }
  · exact hreg fun u => { u with mcr := b }
  · exact h.same

theorem uartWrites_inStep (port : UInt16) (bs : List UInt8) (h : Agree d d') :
    InStep d (uartWrites g port bs d) d' (uartWrites g port bs d') := by
  induction bs generalizing port d d' with
  | nil => exact h.same
  | cons b bs ih =>
    have hw := uartWrite_inStep (g := g) port b h
    exact hw.trans (ih (port + 1) hw.agree)

theorem keyboardBufferPop_inStep (h : Agree d d') :
    (keyboardBufferPop d).1 = (keyboardBufferPop d').1 ∧
      InStep d (keyboardBufferPop d).2 d' (keyboardBufferPop d').2 := by
  refine ⟨by rw [keyboardBufferPop_fst, keyboardBufferPop_fst, h.unread], ⟨?_, ?_, ?_⟩, [], ?_, ?_⟩
  · rw [keyboardBufferPop_snd, keyboardBufferPop_snd]
    exact h.uart0
  · rw [keyboardBufferPop_snd, keyboardBufferPop_snd]
    exact h.port92
  · rw [unread_pop, unread_pop, h.unread]
  · rw [keyboardBufferPop_snd, List.append_nil]
  · rw [keyboardBufferPop_snd, List.append_nil]

theorem uartRead_inStep (port : UInt16) (h : Agree d d') :
    (uartRead port d).1 = (uartRead port d').1 ∧
      InStep d (uartRead port d).2 d' (uartRead port d').2 := by
  have hhas : keyboardBufferHasData d = keyboardBufferHasData d' := by
    rw [Bool.eq_iff_iff, hasData_iff, hasData_iff, h.unread]
  have hpop := keyboardBufferPop_inStep h
  constructor
  · unfold uartRead
    rw [h.uart0, hhas]
    split
    · split
      · rfl
      · simp only [hpop.1]
    all_goals rfl
  · rw [uartRead_snd, uartRead_snd, h.uart0]
    split
    · exact hpop.2
    · exact h.same

theorem uartReads_inStep (port : UInt16) (n : Nat) (h : Agree d d') :
    (uartReads port n d).1 = (uartReads port n d').1 ∧
      InStep d (uartReads port n d).2 d' (uartReads port n d').2 := by
  induction n generalizing port d d' with
  | zero => exact ⟨rfl, h.same⟩
  | succ n ih =>
    obtain ⟨h1, h2⟩ := uartRead_inStep port h
    obtain ⟨h3, h4⟩ := ih (port + 1) h2.agree
    exact ⟨by simp only [uartReads, h1, h3], h2.trans h4⟩

theorem miscPortOut_inStep (port : UInt16) (data : List UInt8) (h : Agree d d') :
    InStep d (miscPortOut port data d) d' (miscPortOut port data d') := by
  unfold miscPortOut
  simp only
  split
  · exact ⟨⟨h.uart0, rfl, h.unread⟩, [], by simp, by simp⟩
  · split
    · exact ⟨⟨h.uart0, h.port92, h.unread⟩, [], by simp, by simp⟩
    · exact h.same

/-- Results of the two runs: the same for the guest, and devices in step. -/
structure SameResult (d : Devices) (r : IoResult) (d' : Devices) (r' : IoResult) : Prop where
  ctx : r.ctx = r'.ctx
  data : r.data = r'.data
  dev : InStep d r.dev d' r'.dev

variable (hv : g.verbose = false) (ctx : Vcpu)

include hv

theorem logHypercall_of_quiet (regs : Regs) (d : Devices) : logHypercall g ctx regs d = d := by
  unfold logHypercall
  rw [hv]
  rfl

theorem logIo_of_quiet (e : IoExit) (d : Devices) : logIo g ctx e d = d := by
  unfold logIo
  rw [hv]
  rfl

theorem handleHypercallOut_sameResult (regs : Regs) (data : List UInt8) (h : Agree d d') :
    SameResult d (handleHypercallOut g ctx regs data d) d'
      (handleHypercallOut g ctx regs data d') := by
  unfold handleHypercallOut
  simp only [logHypercall_of_quiet hv, hv, Bool.false_eq_true, if_false]
  split
  · exact ⟨rfl, rfl, h.same⟩
  · split
    · exact ⟨rfl, rfl, ⟨⟨h.uart0, h.port92, h.unread⟩, _, rfl, rfl⟩⟩
    · split
      · obtain ⟨h1, h2⟩ := keyboardBufferPop_inStep h
        exact ⟨by simp only [h1], rfl, h2⟩
      · exact ⟨rfl, rfl, h.same⟩

theorem handleHypercallIn_sameResult (data : List UInt8) (h : Agree d d') :
    SameResult d (handleHypercallIn g ctx data d) d' (handleHypercallIn g ctx data d') := by
  unfold handleHypercallIn
  simp only [hv, Bool.false_eq_true, if_false]
  split
  · exact ⟨rfl, rfl, h.same⟩
  · exact ⟨rfl, rfl, h.same⟩

/-- The same exit on devices in step. -/
theorem handleIo_sameResult (e : IoExit) (h : Agree d d') :
    SameResult d (handleIo g ctx e d) d' (handleIo g ctx e d') := by
  unfold handleIo
  simp only [logIo_of_quiet hv]
  split
  · split
    · split
      · exact ⟨rfl, rfl, h.same⟩
      · split
        · exact ⟨rfl, rfl, h.same⟩
        · exact handleHypercallOut_sameResult hv ctx _ e.data h
    · split
      · exact ⟨rfl, rfl, uartWrites_inStep e.port e.data h⟩
      · exact ⟨rfl, rfl, miscPortOut_inStep e.port e.data h⟩
  · split
    · split
      · exact ⟨rfl, rfl, h.same⟩
      · exact handleHypercallIn_sameResult hv ctx e.data h
    · split
      · obtain ⟨h1, h2⟩ := uartReads_inStep e.port e.data.length h
        exact ⟨rfl, h1, h2⟩
      · refine ⟨rfl, ?_, h.same⟩
        show miscPortIn e.port e.data.length d = miscPortIn e.port e.data.length d'
        unfold miscPortIn
        rw [h.port92]

end InStep

/-! ## Exits that store in no shared register -/

theorem Uart16550.ext_reg {u v : Uart16550} (h : ∀ r, u.reg r = v.reg r) : u = v := by
  cases u
  cases v
  have h1 := h .ier
  have h2 := h .lcr
  have h3 := h .mcr
  have h4 := h .dll
  have h5 := h .dlh
  simp only [Uart16550.reg] at h1 h2 h3 h4 h5
  subst h1 h2 h3 h4 h5
  rfl

theorem byteAt_cons_none {port : UInt16} {b : UInt8} {bs : List UInt8} {off : Nat} :
    byteAt port (b :: bs) off = none ↔ byteAt (port + 1) bs off = none ∧ offset port ≠ off := by
  rw [byteAt]
  cases byteAt (port + 1) bs off with
  | none => simp
  | some c => simp

theorem uartWrite_port92 (g : Globals) (port : UInt16) (b : UInt8) (d : Devices) :
    (uartWrite g port b d).port92 = d.port92 := by
  unfold uartWrite
  split
  · split
    · rfl
    · exact (pulseThre_agree g _).port92
  · split
    · rfl
    · exact (pulseThre_agree g _).port92
  all_goals rfl

theorem uartWrites_harmless (g : Globals) {port : UInt16} {bs : List UInt8} {d : Devices}
    (h : ∀ off, (target d.uart0.dlab off).isSome → byteAt port bs off = none) :
    Agree (uartWrites g port bs d) d := by
  induction bs generalizing port d with
  | nil => exact ⟨rfl, rfl, rfl⟩
  | cons b bs ih =>
    have ht : target d.uart0.dlab (offset port) = none := by
      cases ht : target d.uart0.dlab (offset port) with
      | none => rfl
      | some r => exact absurd rfl (byteAt_cons_none.1 (h (offset port) (by rw [ht]; rfl))).2
    have hu : (uartWrite g port b d).uart0 = d.uart0 := by
      apply Uart16550.ext_reg
      intro r
      rw [uartWrite_reg, ht]
      rfl
    have hrest := @ih (port + 1) (uartWrite g port b d) fun off ho =>
      (byteAt_cons_none.1 (h off (by rwa [hu] at ho))).1
    exact ⟨hrest.uart0.trans hu, hrest.port92.trans (uartWrite_port92 g port b d),
      hrest.unread.trans (unread_uartWrite g port b d)⟩

section Quiet

variable {g : Globals} {d : Devices} (hv : g.verbose = false) (ctx : Vcpu)

theorem keyboardBufferPop_agree (hu : d.unread = []) : Agree (keyboardBufferPop d).2 d := by
  refine ⟨?_, ?_, ?_⟩
  · rw [keyboardBufferPop_snd]
  · rw [keyboardBufferPop_snd]
  · rw [unread_pop, hu]
    rfl

theorem uartReads_agree (hu : d.unread = []) (port : UInt16) (n : Nat) :
    Agree (uartReads port n d).2 d := by
  induction n generalizing port d with
  | zero => exact ⟨rfl, rfl, rfl⟩
  | succ n ih =>
    have h1 : Agree (uartRead port d).2 d := by
      rw [uartRead_snd]
      split
      · exact keyboardBufferPop_agree hu
      · exact ⟨rfl, rfl, rfl⟩
    have h2 := ih (h1.unread.trans hu) (port + 1)
    exact ⟨h2.uart0.trans h1.uart0, h2.port92.trans h1.port92, h2.unread.trans h1.unread⟩

include hv

theorem handleHypercallOut_agree (hu : d.unread = []) (regs : Regs) (data : List UInt8) :
    Agree (handleHypercallOut g ctx regs data d).dev d := by
  unfold handleHypercallOut
  simp only [logHypercall_of_quiet hv, hv, Bool.false_eq_true, if_false]
  split
  · exact ⟨rfl, rfl, rfl⟩
  · split
    · exact ⟨rfl, rfl, rfl⟩
    · split
      · exact keyboardBufferPop_agree hu
      · exact ⟨rfl, rfl, rfl⟩

theorem handleHypercallIn_dev (data : List UInt8) : (handleHypercallIn g ctx data d).dev = d := by
  unfold handleHypercallIn
  simp only [hv, Bool.false_eq_true, if_false]
  split <;> rfl

/-- An IN changes no shared register, nor does a harmless OUT. -/
theorem handleIo_agree (hu : d.unread = []) {e : IoExit} (h : Harmless d e) :
    Agree (handleIo g ctx e d).dev d := by
  unfold handleIo
  simp only [logIo_of_quiet hv]
  split
  · rename_i ho
    obtain ⟨hp, hw⟩ := h ho
    split
    · split
      · exact ⟨rfl, rfl, rfl⟩
      · split
        · exact ⟨rfl, rfl, rfl⟩
        · exact handleHypercallOut_agree hv ctx hu _ _
    · split
      · rename_i hup
        exact uartWrites_harmless g (hw hup)
      · show Agree (miscPortOut e.port e.data d) d
        unfold miscPortOut
        simp only [if_neg hp]
        split <;> exact ⟨rfl, rfl, rfl⟩
  · split
    · split
      · exact ⟨rfl, rfl, rfl⟩
      · show Agree (handleHypercallIn g ctx e.data d).dev d
        rw [handleHypercallIn_dev hv]
        exact ⟨rfl, rfl, rfl⟩
    · split
      · exact uartReads_agree hu e.port e.data.length
      · exact ⟨rfl, rfl, rfl⟩

/-- With nothing unread an exit leaves nothing unread. -/
theorem handleIo_unread (hu : d.unread = []) (e : IoExit) :
    (handleIo g ctx e d).dev.unread = [] := by
  have hs : ∀ p bs (d : Devices), (uartWrites g p bs d).unread = d.unread := by
    intro p bs
    induction bs generalizing p with
    | nil => exact fun _ => rfl
    | cons b bs ih => exact fun d => (ih (p + 1) _).trans (unread_uartWrite g p b d)
  by_cases ho : e.out = true
  · unfold handleIo
    simp only [logIo_of_quiet hv, ho, if_true]
    split
    · split
      · exact hu
      · split
        · exact hu
        · exact (handleHypercallOut_agree hv ctx hu _ _).unread.trans hu
    · split
      · exact (hs _ _ _).trans hu
      · show (miscPortOut e.port e.data d).unread = []
        unfold miscPortOut
        simp only
        split
        · exact hu
        · split <;> exact hu
  · exact (handleIo_agree hv ctx hu (fun h => absurd h ho)).unread.trans hu

end Quiet

/-! ## Two runs in step -/

/-- The run with both vCPUs and the run of vCPU i alone. -/
structure Pair.Sim (s t : Pair) : Prop where
  dev : Agree s.dev t.dev
  ctxI : s.ctxI = t.ctxI
  out : s.out = t.out
  ins : s.ins = t.ins
  unread : s.dev.unread = []

variable {g : Globals}

theorem Pair.Sim.step_i (hv : g.verbose = false) {s t : Pair} (h : Sim s t) (e : IoExit) :
    Sim (s.step g (.i, e)) (t.step g (.i, e)) := by
  have hr := handleIo_sameResult hv s.ctxI e h.dev
  have hc : handleIo g t.ctxI e t.dev = handleIo g s.ctxI e t.dev := by rw [h.ctxI]
  refine ⟨?_, ?_, ?_, ?_, handleIo_unread hv s.ctxI h.unread e⟩
  · show Agree (handleIo g s.ctxI e s.dev).dev (handleIo g t.ctxI e t.dev).dev
    rw [hc]
    exact hr.dev.agree
  · show (handleIo g s.ctxI e s.dev).ctx = (handleIo g t.ctxI e t.dev).ctx
    rw [hc]
    exact hr.ctx
  · show s.out ++ written s.dev (handleIo g s.ctxI e s.dev).dev
      = t.out ++ written t.dev (handleIo g t.ctxI e t.dev).dev
    rw [hc, h.out, hr.dev.written]
  · show (if e.out then s.ins else s.ins ++ [(handleIo g s.ctxI e s.dev).data])
      = if e.out then t.ins else t.ins ++ [(handleIo g t.ctxI e t.dev).data]
    rw [hc, h.ins, hr.data]

theorem Pair.Sim.step_j (hv : g.verbose = false) {s t : Pair} (h : Sim s t) {e : IoExit}
    (he : Harmless s.dev e) : Sim (s.step g (.j, e)) t := by
  have ha := handleIo_agree hv s.ctxJ h.unread he
  exact ⟨⟨ha.uart0.trans h.dev.uart0, ha.port92.trans h.dev.port92, ha.unread.trans h.dev.unread⟩,
    h.ctxI, h.out, h.ins, handleIo_unread hv s.ctxJ h.unread e⟩

theorem Pair.Sim.run (hv : g.verbose = false) {s t : Pair} (h : Sim s t) {os : Interleaving}
    (hs : Along (Pair.step g) Pair.HarmlessStep s os) :
    Sim (after (Pair.step g) s os) (after (Pair.step g) t os.alone) := by
  induction os generalizing s t with
  | nil => exact h
  | cons o os ih =>
    obtain ⟨ho, hrest⟩ := hs
    obtain ⟨x, e⟩ := o
    cases x with
    | i => exact ih (h.step_i hv e) hrest
    | j => exact ih (h.step_j hv ho) hrest

/-- As long as vCPU j stores in no shared register and nothing is logged, vCPU i
does not notice it. -/
theorem unaffected_of_harmless (hv : g.verbose = false) (ci cj : Vcpu) {os : Interleaving}
    (h : Along (Pair.step g) Pair.HarmlessStep { ctxI := ci, ctxJ := cj } os) :
    Unaffected g ci cj os := by
  have hs := Pair.Sim.run hv (s := { ctxI := ci, ctxJ := cj }) (t := { ctxI := ci, ctxJ := cj })
    ⟨⟨rfl, rfl, rfl⟩, rfl, rfl, rfl, rfl⟩ h
  exact ⟨hs.out, hs.ins⟩

end MiniKvm.Vmm
