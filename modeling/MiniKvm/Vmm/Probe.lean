import MiniKvm.Vmm.Interference

/-!
# When a vCPU's I/O stays unnoticed

The converse of `unaffected_of_harmless`. An exit of vCPU j that stores in a
shared register is noticed by a vCPU i that stores another value there before
and reads the register after; and when the VMM logs, any exit of j moves the
number in the next log line of vCPU i.

`unaffected_iff_silent`: so a sequence of exits of vCPU j leaves every vCPU i
unaffected, in every order, exactly when nothing is logged and no exit of it
can store in a COM1 register or port 0x92, or when it is empty.
-/
namespace MiniKvm.Vmm

open Model16550

variable {g : Globals}

/-! ## Probes -/

def put (port : UInt16) (b : UInt8) : IoExit :=
  { out := true, port, data := [b], sized := IoExit.sized_one b }

def get (port : UInt16) : IoExit := { out := false, port, data := [0], sized := Or.inl rfl }

/-- The devices after some exits, the context left alone. -/
def devRun (g : Globals) (ctx : Vcpu) (es : List IoExit) (d : Devices) : Devices :=
  es.foldl (fun d e => (handleIo g ctx e d).dev) d

def byI (es : List IoExit) : Interleaving := es.map (Prod.mk .i)

def byJ (es : List IoExit) : Interleaving := es.map (Prod.mk .j)

section Sides

variable (es : List IoExit) (os ps : Interleaving)

@[simp] theorem of_append (x : Side) : Interleaving.of (os ++ ps) x = os.of x ++ ps.of x := by
  simp [Interleaving.of]

@[simp] theorem alone_append : Interleaving.alone (os ++ ps) = os.alone ++ ps.alone := by
  simp [Interleaving.alone]

@[simp] theorem of_byI : (byI es).of .j = [] := by
  induction es with
  | nil => rfl
  | cons e es ih => exact ih

@[simp] theorem of_byJ : (byJ es).of .j = es := by
  induction es with
  | nil => rfl
  | cons e es ih => exact congrArg (e :: ·) ih

@[simp] theorem alone_byI : (byI es).alone = byI es := by
  induction es with
  | nil => rfl
  | cons e es ih => exact congrArg ((Side.i, e) :: ·) ih

@[simp] theorem alone_byJ : (byJ es).alone = [] := by
  induction es with
  | nil => rfl
  | cons e es ih => exact ih

end Sides

theorem after_byJ (s : Pair) (es : List IoExit) :
    (after (Pair.step g) s (byJ es)).ins = s.ins ∧ (after (Pair.step g) s (byJ es)).ctxI =
      s.ctxI := by
  induction es generalizing s with
  | nil => exact ⟨rfl, rfl⟩
  | cons e es ih => exact ih (s.step g (.j, e))

/-- An OUT that leaves the context as it is. -/
def PlainOut (g : Globals) (ctx : Vcpu) (e : IoExit) : Prop :=
  e.out = true ∧ ∀ d, (handleIo g ctx e d).ctx = ctx

theorem after_byI {ctx : Vcpu} {es : List IoExit} (hes : ∀ e ∈ es, PlainOut g ctx e) {s : Pair}
    (hs : s.ctxI = ctx) :
    (after (Pair.step g) s (byI es)).ins = s.ins ∧ (after (Pair.step g) s (byI es)).ctxI = ctx ∧
      (after (Pair.step g) s (byI es)).dev = devRun g ctx es s.dev := by
  induction es generalizing s with
  | nil => exact ⟨rfl, hs, rfl⟩
  | cons e es ih =>
    obtain ⟨ho, hc⟩ := hes e List.mem_cons_self
    have h1 : (s.step g (.i, e)).ins = s.ins := if_pos ho
    have h2 : (s.step g (.i, e)).ctxI = ctx := by
      show (handleIo g s.ctxI e s.dev).ctx = ctx
      rw [hs, hc]
    have h3 : (s.step g (.i, e)).dev = (handleIo g ctx e s.dev).dev := by
      show (handleIo g s.ctxI e s.dev).dev = _
      rw [hs]
    obtain ⟨r1, r2, r3⟩ := ih (fun e' he' => hes e' (List.mem_cons_of_mem _ he')) h2
    exact ⟨r1.trans h1,
      r2, by rw [byI, List.map_cons, after_cons]; exact r3.trans (by rw [h3]; rfl)⟩

theorem step_get {ctx : Vcpu} {s : Pair} (hs : s.ctxI = ctx) (port : UInt16) :
    (s.step g (.i, get port)).ins = s.ins ++ [(handleIo g ctx (get port) s.dev).data] := by
  show s.ins ++ [(handleIo g s.ctxI (get port) s.dev).data] = _
  rw [hs]

/-- Stores of vCPU i, one exit of vCPU j, a read of vCPU i: if the read differs
from what it is without j, vCPU i is affected. -/
theorem affected_of_probe (ci cj : Vcpu) (before behind : List IoExit) {e : IoExit}
    (stores : List IoExit) (port : UInt16) {x y : List UInt8} (hes : ∀ e ∈ stores, PlainOut g ci e)
    (hx : ∀ c d, (handleIo g ci (get port) (handleIo g c e (devRun g ci stores d)).dev).data = x)
    (hy : (handleIo g ci (get port) (devRun g ci stores {})).data = y) (hxy : x ≠ y) :
    ∃ os : Interleaving, os.of .j = before ++ e :: behind ∧ ¬ Unaffected g ci cj os := by
  have hlone : (after (Pair.step g) { ctxI := ci, ctxJ := cj } (byI stores ++ byI [get port])).ins =
      [y] := by
    obtain ⟨i1, i2, i3⟩ := after_byI (g := g) hes (s := { ctxI := ci, ctxJ := cj }) rfl
    rw [after_append]
    show (Pair.step g _ (.i, get port)).ins = [y]
    rw [step_get i2, i1, i3, hy]
    rfl
  have hboth : (after (Pair.step g) { ctxI := ci, ctxJ := cj }
      (byJ before ++ byI stores ++ byJ [e] ++ byI [get port] ++ byJ behind)).ins = [x] := by
    obtain ⟨b1, b2⟩ := after_byJ (g := g) { ctxI := ci, ctxJ := cj } before
    obtain ⟨i1, i2, i3⟩ := after_byI (g := g) hes b2
    rw [after_append, (after_byJ _ behind).1, after_append, after_append, after_append]
    generalize after (Pair.step g) (after (Pair.step g) { ctxI := ci, ctxJ := cj } (byJ before))
      (byI stores) = s at i1 i2 i3 ⊢
    have h2 : (s.step g (.j, e)).ctxI = ci := i2
    have h3 : (s.step g (.j, e)).dev = (handleIo g s.ctxJ e s.dev).dev := rfl
    show ((s.step g (.j, e)).step g (.i, get port)).ins = [x]
    rw [step_get h2, h3, i3, hx]
    show s.ins ++ [x] = [x]
    rw [i1, b1]
    rfl
  refine ⟨byJ before ++ byI stores ++ byJ [e] ++ byI [get port] ++ byJ behind, by simp,
    fun h => hxy ?_⟩
  have hins := h.2
  simp only [alone_append, alone_byJ, alone_byI, List.append_nil, List.nil_append] at hins
  rw [hboth, hlone] at hins
  simpa using hins

/-! ## COM1 registers -/

/-- A register holds what an OUT of several bytes stores at its offset. For IER
and DLL that needs DLAB, which the OUT must not move. -/
theorem uartWrites_reg (g : Globals) {r : Reg} {o : Nat} {port : UInt16} {bs : List UInt8}
    {d : Devices}
    (h : (∀ dl off, target dl off = some r ↔ off = o) ∨
      (byteAt port bs 3 = none ∧ ∀ off, target d.uart0.dlab off = some r ↔ off = o)) :
    (uartWrites g port bs d).uart0.reg r = (byteAt port bs o).getD (d.uart0.reg r) := by
  induction bs generalizing port d with
  | nil => rfl
  | cons b bs ih =>
    have hnow : ∀ off, target d.uart0.dlab off = some r ↔ off = o := h.elim (· _) (·.2)
    have hb := uartWrite_reg g port b d r
    simp only [hnow] at hb
    have hrest : (∀ dl off, target dl off = some r ↔ off = o) ∨
        (byteAt (port + 1) bs 3 = none ∧
          ∀ off, target (uartWrite g port b d).uart0.dlab off = some r ↔ off = o) := by
      rcases h with h | ⟨h3, h⟩
      · exact Or.inl h
      · obtain ⟨h3, hp⟩ := byteAt_cons_none.1 h3
        refine Or.inr ⟨h3, ?_⟩
        have hl : (uartWrite g port b d).uart0.lcr = d.uart0.lcr := by
          have := uartWrite_reg g port b d .lcr
          rw [if_neg (by unfold target; split <;> simp_all)] at this
          exact this
        rwa [show (uartWrite g port b d).uart0.dlab =
          d.uart0.dlab by unfold Uart16550.dlab; rw [hl]]
    rw [uartWrites, ih hrest, hb, byteAt]
    cases byteAt (port + 1) bs o with
    | none => by_cases hp : offset port = o <;> simp [hp]
    | some c => rfl

theorem lcr_target (dl : Bool) (off : Nat) : target dl off = some .lcr ↔ off = 3 := by
  unfold target
  split <;> simp_all

theorem mcr_target (dl : Bool) (off : Nat) : target dl off = some .mcr ↔ off = 4 := by
  unfold target
  split <;> simp_all

theorem ier_target (off : Nat) : target false off = some .ier ↔ off = 1 := by
  unfold target
  split <;> simp_all

theorem dll_target (off : Nat) : target true off = some .dll ↔ off = 0 := by
  unfold target
  split <;> simp_all

theorem dlab_uartWrite (g : Globals) (port : UInt16) (b : UInt8) (d : Devices) :
    (uartWrite g port b d).uart0.dlab =
      if offset port = 3 then decide (b &&& 0x80 ≠ 0) else d.uart0.dlab := by
  have h : (uartWrite g port b d).uart0.reg .lcr
      = if offset port = 3 then b else d.uart0.reg .lcr := by
    rw [uartWrite_reg]
    simp only [lcr_target]
  show decide ((uartWrite g port b d).uart0.reg .lcr &&& 0x80 ≠ 0) = _
  rw [h]
  split <;> rfl

theorem dlab_uartWrites (g : Globals) {port : UInt16} {bs : List UInt8} (d : Devices)
    (h : byteAt port bs 3 = none) : (uartWrites g port bs d).uart0.dlab = d.uart0.dlab := by
  have hl : (uartWrites g port bs d).uart0.lcr = d.uart0.lcr := by
    have hr :
        (uartWrites g port bs d).uart0.reg .lcr = (byteAt port bs 3).getD (d.uart0.reg .lcr) :=
      uartWrites_reg g (Or.inl lcr_target)
    rw [h] at hr
    exact hr
  unfold Uart16550.dlab
  rw [hl]

theorem uartRead_dll {d : Devices} (h : d.uart0.dlab = true) :
    (uartRead 0x3f8 d).1 = d.uart0.reg .dll := by
  show (if d.uart0.dlab then (d.uart0.dll, d) else _ : UInt8 × Devices).1 = _
  rw [if_pos h]
  rfl

theorem uartRead_ier {d : Devices} (h : d.uart0.dlab = false) :
    (uartRead 0x3f9 d).1 = d.uart0.reg .ier := by
  show (if d.uart0.dlab then d.uart0.dlh else d.uart0.ier) = _
  rw [h]
  rfl

/-- LCR and then the register at `port` of the bank that LCR selects. -/
theorem bank_store (g : Globals) (lcr : UInt8) (port : UInt16) {r : Reg} (d : Devices) (b : UInt8)
    (ho : offset port ≠ 3) (hr : target (decide (lcr &&& 0x80 ≠ 0)) (offset port) = some r) :
    (uartWrite g port b (uartWrite g 0x3fb lcr d)).uart0.dlab = decide (lcr &&& 0x80 ≠ 0) ∧
      (uartWrite g port b (uartWrite g 0x3fb lcr d)).uart0.reg r = b := by
  have h1 : (uartWrite g 0x3fb lcr d).uart0.dlab = decide (lcr &&& 0x80 ≠ 0) := by
    rw [dlab_uartWrite, if_pos (by decide)]
  refine ⟨?_, ?_⟩
  · rw [dlab_uartWrite, if_neg ho, h1]
  · rw [uartWrite_reg, h1, if_pos hr]

theorem not_hypercall_of_uart {port : UInt16} (h : isUartPort port = true) :
    port ≠ HYPERCALL_PORT := by
  rintro rfl
  exact absurd h (by decide)

section Exits

variable (hv : g.verbose = false) (ctx : Vcpu) (d : Devices)

include hv

/-- An OUT to COM1 stores its bytes. -/
theorem handleIo_uart {e : IoExit} (ho : e.out = true) (hp : isUartPort e.port = true) :
    (handleIo g ctx e d).dev = uartWrites g e.port e.data d ∧ (handleIo g ctx e d).ctx = ctx := by
  have hn := not_hypercall_of_uart hp
  unfold handleIo
  constructor <;> simp only [logIo_of_quiet hv, ho, if_true, if_neg hn, hp]

theorem plainOut_put {port : UInt16} (b : UInt8) (hp : isUartPort port = true) :
    PlainOut g ctx (put port b) := ⟨rfl, fun d => (handleIo_uart hv ctx d rfl hp).2⟩

theorem put_dev {port : UInt16} (b : UInt8) (hp : isUartPort port = true) :
    (handleIo g ctx (put port b) d).dev = uartWrite g port b d := (handleIo_uart hv ctx d rfl hp).1

/-- An IN of one byte from COM1 returns what the register reads as. -/
theorem get_data {port : UInt16} (hp : isUartPort port = true) :
    (handleIo g ctx (get port) d).data = [(uartRead port d).1] := by
  have hport : (get port).port = port := rfl
  unfold handleIo
  simp only [logIo_of_quiet hv, hport, if_neg (not_hypercall_of_uart hp), hp, if_true]
  rfl

end Exits

theorem exists_ne (v : UInt8) : ∃ v', v ≠ v' := by
  by_cases h : v = 0
  · exact ⟨1, by rw [h]; decide⟩
  · exact ⟨0, h⟩

/-- vCPU i stores in a COM1 register, with the exits `stores v'`, and reads it
at `port`; vCPU j's exit `e` stores `v` there. -/
theorem affected_of_reg (hv : g.verbose = false) (ci cj : Vcpu) (before behind : List IoExit)
    {e : IoExit} (ho : e.out = true) (hp : isUartPort e.port = true) {r : Reg} {o : Nat} {v : UInt8}
    (hb : byteAt e.port e.data o = some v) (stores : UInt8 → List IoExit) (port : UInt16)
    (hport : isUartPort port = true) (hes : ∀ v', ∀ e ∈ stores v', PlainOut g ci e)
    (hset : ∀ v' d, (devRun g ci (stores v') d).uart0.reg r = v' ∧
      (uartRead port (devRun g ci (stores v') d)).1 = v')
    (hreg : ∀ v' d, (∀ dl off, target dl off = some r ↔ off = o) ∨ (byteAt e.port e.data 3 = none ∧
      ∀ off, target (devRun g ci (stores v') d).uart0.dlab off = some r ↔ off = o))
    (hread : ∀ v' d, (uartRead port (uartWrites g e.port e.data (devRun g ci (stores v') d))).1
      = (uartWrites g e.port e.data (devRun g ci (stores v') d)).uart0.reg r) :
    ∃ os : Interleaving, os.of .j = before ++ e :: behind ∧ ¬ Unaffected g ci cj os := by
  obtain ⟨v', hne⟩ := exists_ne v
  refine affected_of_probe ci cj before behind (stores v') port (x := [v]) (y := [v']) (hes v')
    (fun c d => ?_) ?_ (by simpa using hne)
  · rw [get_data hv ci _ hport, (handleIo_uart hv c _ ho hp).1, hread, uartWrites_reg g (hreg v' d),
      hb]
    rfl
  · rw [get_data hv ci _ hport, (hset v' {}).2]

/-! ## The limit -/

/-- The exit can store in no shared register, whatever DLAB is. -/
def Silent (e : IoExit) : Prop :=
  e.out = true → e.port ≠ 0x92 ∧
    (isUartPort e.port = true → ∀ off ∈ [0, 1, 3, 4], byteAt e.port e.data off = none)

theorem Silent.harmless {e : IoExit} (h : Silent e) (d : Devices) : Harmless d e := by
  intro ho
  obtain ⟨h1, h2⟩ := h ho
  refine ⟨h1, fun hp off ht => h2 hp off ?_⟩
  unfold target at ht
  split at ht <;> simp_all

/-- A register that DLAB does not move: vCPU i stores in it and reads its own store back. -/
theorem affected_of_plain (hv : g.verbose = false) (ci cj : Vcpu) (before behind : List IoExit)
    {e : IoExit} (ho : e.out = true) (hp : isUartPort e.port = true) {r : Reg} (port : UInt16)
    (hport : isUartPort port = true) (hb : byteAt e.port e.data (offset port) ≠ none)
    (htarget : ∀ dl off, target dl off = some r ↔ off = offset port)
    (hread : ∀ d : Devices, (uartRead port d).1 = d.uart0.reg r) :
    ∃ os : Interleaving, os.of .j = before ++ e :: behind ∧ ¬ Unaffected g ci cj os := by
  obtain ⟨v, hb⟩ := Option.ne_none_iff_exists'.1 hb
  have hrun : ∀ v' d, devRun g ci [put port v'] d = uartWrite g port v' d := fun v' d => by
    simp only [devRun, List.foldl_cons, List.foldl_nil, put_dev hv ci _ _ hport]
  have hset : ∀ v' d, (uartWrite g port v' d).uart0.reg r = v' := fun v' d => by
    rw [uartWrite_reg, if_pos ((htarget _ _).2 rfl)]
  refine affected_of_reg hv ci cj before behind ho hp hb (fun v' => [put port v']) port hport
    (fun v' e he => ?_) (fun v' d => ?_) (fun _ _ => Or.inl htarget) (fun _ _ => hread _)
  · rw [List.mem_singleton.1 he]
    exact plainOut_put hv ci v' hport
  · rw [hrun, hread]
    exact ⟨hset v' d, hset v' d⟩

/-- A register of one bank: vCPU i selects the bank with `lcr` before it stores. -/
theorem affected_of_bank (hv : g.verbose = false) (ci cj : Vcpu) (before behind : List IoExit)
    {e : IoExit} (ho : e.out = true) (hp : isUartPort e.port = true)
    (h3 : byteAt e.port e.data 3 = none) {r : Reg} (lcr : UInt8) (port : UInt16)
    (hport : isUartPort port = true) (hoff : offset port ≠ 3)
    (hb : byteAt e.port e.data (offset port) ≠ none)
    (htarget : ∀ off, target (decide (lcr &&& 0x80 ≠ 0)) off = some r ↔ off = offset port)
    (hread : ∀ d : Devices, d.uart0.dlab = decide (lcr &&& 0x80 ≠ 0) →
      (uartRead port d).1 = d.uart0.reg r) :
    ∃ os : Interleaving, os.of .j = before ++ e :: behind ∧ ¬ Unaffected g ci cj os := by
  obtain ⟨v, hb⟩ := Option.ne_none_iff_exists'.1 hb
  have hbank : ∀ v' d, devRun g ci [put 0x3fb lcr, put port v'] d
      = uartWrite g port v' (uartWrite g 0x3fb lcr d) := fun v' d => by
    simp only [devRun, List.foldl_cons, List.foldl_nil, put_dev hv ci _ _ hport,
      put_dev hv ci _ _ (show isUartPort 0x3fb = true by decide)]
  have hset := fun v' d => bank_store g lcr port (r := r) d v' hoff ((htarget _).2 rfl)
  refine affected_of_reg hv ci cj before behind ho hp hb (fun v' => [put 0x3fb lcr, put port v'])
    port hport (fun v' e he => ?_) (fun v' d => ?_) (fun v' d => Or.inr ⟨h3, ?_⟩)
    (fun v' d => hread _ ?_)
  · simp only [List.mem_cons, List.not_mem_nil, or_false] at he
    rcases he with rfl | rfl
    · exact plainOut_put hv ci _ (by decide)
    · exact plainOut_put hv ci _ hport
  · obtain ⟨h1, h2⟩ := hset v' d
    rw [hbank]
    exact ⟨h2, (hread _ h1).trans h2⟩
  · rw [hbank, (hset v' d).1]
    exact htarget
  · rw [dlab_uartWrites g _ h3, hbank]
    exact (hset v' d).1

theorem affected_of_uart (hv : g.verbose = false) (ci cj : Vcpu) (before behind : List IoExit)
    {e : IoExit} (ho : e.out = true) (hp : isUartPort e.port = true) {off : Nat}
    (hoff : off ∈ [0, 1, 3, 4]) (hb : byteAt e.port e.data off ≠ none) :
    ∃ os : Interleaving, os.of .j = before ++ e :: behind ∧ ¬ Unaffected g ci cj os := by
  by_cases h3 : byteAt e.port e.data 3 = none
  · simp only [List.mem_cons, List.not_mem_nil, or_false] at hoff
    rcases hoff with rfl | rfl | rfl | rfl
    · exact affected_of_bank hv ci cj before behind ho hp h3 (r := .dll) 0x83 0x3f8
        (by decide) (by decide) hb dll_target fun _ => uartRead_dll
    · exact affected_of_bank hv ci cj before behind ho hp h3 (r := .ier) 0x03 0x3f9
        (by decide) (by decide) hb ier_target fun _ => uartRead_ier
    · exact absurd h3 hb
    · exact affected_of_plain hv ci cj before behind ho hp (r := .mcr) 0x3fc (by decide)
        hb mcr_target fun _ => rfl
  · exact affected_of_plain hv ci cj before behind ho hp (r := .lcr) 0x3fb (by decide)
      h3 lcr_target fun _ => rfl

theorem affected_of_port92 (hv : g.verbose = false) (ci cj : Vcpu) (before behind : List IoExit)
    {e : IoExit} (ho : e.out = true) (hp : e.port = 0x92) :
    ∃ os : Interleaving, os.of .j = before ++ e :: behind ∧ ¬ Unaffected g ci cj os := by
  have hout : ∀ c d, (handleIo g c e d).dev = { d with port92 := e.data.headD 0 ||| 0x02 } := by
    intro c d
    have hu : isUartPort (0x92 : UInt16) = false := by decide
    have hh : (0x92 : UInt16) ≠ HYPERCALL_PORT := by decide
    unfold handleIo
    simp only [logIo_of_quiet hv, ho, if_true, hp, if_neg hh, hu, Bool.false_eq_true, if_false]
    rfl
  have hput : ∀ b d, (handleIo g ci (put 0x92 b) d).dev = { d with port92 := b ||| 0x02 } ∧
      (handleIo g ci (put 0x92 b) d).ctx = ci := by
    intro b d
    unfold handleIo
    rw [logIo_of_quiet hv]
    exact ⟨rfl, rfl⟩
  have hget : ∀ d, (handleIo g ci (get 0x92) d).data = [d.port92] := by
    intro d
    unfold handleIo
    rw [logIo_of_quiet hv]
    rfl
  obtain ⟨b, hb⟩ : ∃ b : UInt8, e.data.headD 0 ||| 0x02 ≠ b ||| 0x02 := by
    by_cases h : e.data.headD 0 ||| 0x02 = 0x02
    · exact ⟨1, by rw [h]; decide⟩
    · exact ⟨0, h⟩
  refine affected_of_probe ci cj before behind [put 0x92 b] 0x92
    (x := [e.data.headD 0 ||| 0x02]) (y := [b ||| 0x02]) (fun e' he => ?_) (fun c d => ?_) ?_
    (by simpa using hb)
  · rw [List.mem_singleton.1 he]
    exact ⟨rfl, fun d => (hput b d).2⟩
  · rw [hget, hout]
  · rw [hget]
    show [(handleIo g ci (put 0x92 b) {}).dev.port92] = _
    rw [(hput b {}).1]

/-! ## Logging -/

theorem ioCount_pulseThre (g : Globals) (d : Devices) : (pulseThre g d).ioCount = d.ioCount := by
  unfold pulseThre pulseIrqLine
  split
  · split <;> rfl
  · rfl

theorem ioCount_uartWrites (g : Globals) (port : UInt16) (bs : List UInt8) (d : Devices) :
    (uartWrites g port bs d).ioCount = d.ioCount := by
  have h1 : ∀ port b (d : Devices), (uartWrite g port b d).ioCount = d.ioCount := by
    intro port b d
    unfold uartWrite
    split
    · split
      · rfl
      · exact ioCount_pulseThre g _
    · split
      · rfl
      · exact ioCount_pulseThre g _
    all_goals rfl
  induction bs generalizing port d with
  | nil => rfl
  | cons b bs ih => exact (ih (port + 1) _).trans (h1 port b d)

theorem ioCount_uartReads (port : UInt16) (n : Nat) (d : Devices) :
    (uartReads port n d).2.ioCount = d.ioCount := by
  induction n generalizing port d with
  | zero => rfl
  | succ n ih =>
    have h1 : (uartRead port d).2.ioCount = d.ioCount := by
      rw [uartRead_snd, keyboardBufferPop_snd]
      split <;> rfl
    exact (ih (port + 1) _).trans h1

theorem ioCount_handleHypercallOut (g : Globals) (ctx : Vcpu) (regs : Regs) (data : List UInt8)
    (d : Devices) : (handleHypercallOut g ctx regs data d).dev.ioCount = d.ioCount := by
  have hl : (logHypercall g ctx regs d).ioCount = d.ioCount := by
    unfold logHypercall
    simp only
    split
    · split <;> rfl
    · rfl
  unfold handleHypercallOut
  simp only [keyboardBufferPop_snd]
  split
  · simp only
    split <;> exact hl
  · split
    · exact hl
    · split
      · exact hl
      · simp only
        split <;> exact hl

theorem ioCount_handleHypercallIn (g : Globals) (ctx : Vcpu) (data : List UInt8) (d : Devices) :
    (handleHypercallIn g ctx data d).dev.ioCount = d.ioCount := by
  unfold handleHypercallIn
  split
  · simp only
    split
    · split <;> rfl
    · rfl
  · simp only
    split
    · split <;> rfl
    · rfl

/-- With logging on, every I/O exit counts once. -/
theorem ioCount_handleIo (hv : g.verbose = true) (ctx : Vcpu) (e : IoExit) (d : Devices) :
    (handleIo g ctx e d).dev.ioCount = d.ioCount + 1 := by
  have hl : (logIo g ctx e d).ioCount = d.ioCount + 1 := by
    unfold logIo
    rw [if_pos hv]
    simp only
    split <;> rfl
  unfold handleIo
  simp only
  split
  · split
    · split
      · exact hl
      · split
        · exact hl
        · exact (ioCount_handleHypercallOut g ctx _ _ _).trans hl
    · split
      · exact (ioCount_uartWrites g _ _ _).trans hl
      · show (miscPortOut _ _ _).ioCount = _
        unfold miscPortOut
        simp only
        split
        · exact hl
        · split <;> exact hl
  · split
    · split
      · exact hl
      · exact (ioCount_handleHypercallIn g ctx _ _).trans hl
    · split
      · exact (ioCount_uartReads _ _ _).trans hl
      · exact hl

/-- The log line of an OUT to port 0x80, the `n`-th one. -/
def outLine (g : Globals) (ctx : Vcpu) (n : Nat) : List UInt8 :=
  (vcpuPrintf g ctx (ascii "IO[" ++ dec n ++ ascii "]: dir=" ++ ascii "OUT" ++ ascii " port=0x" ++
    hex 0x80 ++ ascii " size=" ++ dec 1 ++ ascii "\n") {}).stdout

theorem written_put_0x80 (hv : g.verbose = true) (ctx : Vcpu) {d : Devices} (hd : d.ioCount < 100) :
    written d (handleIo g ctx (put 0x80 0) d).dev = outLine g ctx (d.ioCount + 1) := by
  have hdev : (handleIo g ctx (put 0x80 0) d).dev = logIo g ctx (put 0x80 0) d := rfl
  rw [hdev]
  unfold logIo
  rw [if_pos hv]
  simp only
  rw [if_pos hd]
  unfold written
  exact List.drop_left

theorem affected_of_log (hv : g.verbose = true) (ci cj : Vcpu) (e : IoExit) (behind : List IoExit) :
    ∃ os : Interleaving, os.of .j = e :: behind ∧ ¬ Unaffected g ci cj os := by
  refine ⟨byJ [e] ++ byI [put 0x80 0] ++ byJ behind, by simp, fun h => ?_⟩
  have hj : ∀ (s : Pair) es, (after (Pair.step g) s (byJ es)).out = s.out := by
    intro s es
    induction es generalizing s with
    | nil => rfl
    | cons e es ih => exact ih (s.step g (.j, e))
  have hout := h.1
  simp only [alone_append, alone_byJ, alone_byI, List.append_nil, List.nil_append, after_append,
    hj] at hout
  have h1 : written {} (handleIo g ci (put 0x80 0) {}).dev = outLine g ci 1 :=
    written_put_0x80 hv ci (by decide)
  have hc : (handleIo g cj e {}).dev.ioCount = 1 := ioCount_handleIo hv cj e {}
  have h2 :
      written (handleIo g cj e {}).dev (handleIo g ci (put 0x80 0) (handleIo g cj e {}).dev).dev
      = outLine g ci 2 := by
    rw [written_put_0x80 hv ci (by rw [hc]; decide), hc]
  have he : outLine g ci 2 = outLine g ci 1 := by
    rw [← h1, ← h2]
    exact hout
  unfold outLine vcpuPrintf at he
  simp only [List.nil_append] at he
  exact absurd (List.append_cancel_left he) (by decide)

/-! ## The exact limit -/

theorem of_i_only {os : Interleaving} (h : os.of .j = []) : os.alone = os := by
  apply List.filter_eq_self.2
  rintro ⟨x, e⟩ hm
  cases x with
  | i => rfl
  | j =>
    have : e ∈ os.of .j := List.mem_map.2 ⟨(.j, e), List.mem_filter.2 ⟨hm, rfl⟩, rfl⟩
    rw [h] at this
    cases this

theorem along_of_silent {s : Pair} {os : Interleaving} (h : ∀ e ∈ os.of .j, Silent e) :
    Along (Pair.step g) Pair.HarmlessStep s os := by
  induction os generalizing s with
  | nil => trivial
  | cons o os ih =>
    obtain ⟨x, e⟩ := o
    cases x with
    | i => exact ⟨trivial, ih h⟩
    | j =>
      have hof : Interleaving.of ((.j, e) :: os) .j = e :: Interleaving.of os .j := rfl
      rw [hof] at h
      exact ⟨(h e List.mem_cons_self).harmless s.dev,
        ih fun e' he => h e' (List.mem_cons_of_mem _ he)⟩

/-- Any exit that is not silent is noticed by some vCPU i. -/
theorem affected_of_not_silent (hv : g.verbose = false) (ci cj : Vcpu) (before behind : List IoExit)
    {e : IoExit} (h : ¬ Silent e) :
    ∃ os : Interleaving, os.of .j = before ++ e :: behind ∧ ¬ Unaffected g ci cj os := by
  by_cases ho : e.out = true
  · by_cases hp : e.port = 0x92
    · exact affected_of_port92 hv ci cj before behind ho hp
    · by_cases hu : isUartPort e.port = true
      · have hex : ∃ off ∈ [0, 1, 3, 4], byteAt e.port e.data off ≠ none := by
          by_contra hc
          exact h fun _ => ⟨hp, fun _ off hoff => by_contra fun hb => hc ⟨off, hoff, hb⟩⟩
        obtain ⟨off, hoff, hb⟩ := hex
        exact affected_of_uart hv ci cj before behind ho hu hoff hb
      · exact absurd (fun _ => ⟨hp, fun hu' => absurd hu' hu⟩) h
  · exact absurd (fun ho' => absurd ho' ho) h

/-- In a run in which no exit of vCPU j stores in a shared register, and nothing
is logged, vCPU i is unaffected. And for a sequence of exits of vCPU j: every
sequence of vCPU i, in every interleaving, is unaffected exactly when the
sequence of j is empty, or nothing is logged and no exit of j is an OUT to port
0x92 or stores a byte at offset 0, 1, 3 or 4 of COM1. -/
theorem unaffected_iff_silent (g : Globals) (ci cj : Vcpu) (js : List IoExit) :
    (∀ os : Interleaving, g.verbose = false →
        Along (Pair.step g) Pair.HarmlessStep { ctxI := ci, ctxJ := cj } os →
          Unaffected g ci cj os) ∧
      ((∀ os : Interleaving, os.of .j = js → Unaffected g ci cj os) ↔
        js = [] ∨ g.verbose = false ∧ ∀ e ∈ js, Silent e) := by
  refine ⟨fun os hv h => unaffected_of_harmless hv ci cj h, fun h => ?_, ?_⟩
  · cases js with
    | nil => exact Or.inl rfl
    | cons e js =>
      refine Or.inr ?_
      have hv : g.verbose = false := by
        cases hv : g.verbose with
        | false => rfl
        | true =>
          obtain ⟨os, hos, hn⟩ := affected_of_log hv ci cj e js
          exact absurd (h os hos) hn
      refine ⟨hv, fun e' he => ?_⟩
      by_contra hs
      obtain ⟨before, behind, hsplit⟩ := List.append_of_mem he
      obtain ⟨os, hos, hn⟩ := affected_of_not_silent hv ci cj before behind hs
      exact hn (h os (hos.trans hsplit.symm))
  · rintro (rfl | ⟨hv, hs⟩) os hos
    · unfold Unaffected
      rw [of_i_only hos]
      exact ⟨rfl, rfl⟩
    · refine unaffected_of_harmless hv ci cj (along_of_silent ?_)
      rw [hos]
      exact hs

/-- vCPU 1 sets DLAB; vCPU 0's next byte to COM1 no longer reaches stdout. -/
theorem dlab_hides_output :
    let g : Globals := ⟨false, false, 2, fun _ => [], 4⟩
    let os : Interleaving := [(.j, put 0x3fb 0x83), (.i, put 0x3f8 0x41)]
    let start : Pair := { ctxI := {}, ctxJ := { vcpuId := 1 } }
    (after (Pair.step g) start os).out = [] ∧ (after (Pair.step g) start os.alone).out = [0x41] ∧
      ¬ Unaffected g {} { vcpuId := 1 } os := by
  intro g os start
  have h1 : (after (Pair.step g) start os).out = [] := by decide
  have h2 : (after (Pair.step g) start os.alone).out = [0x41] := by decide
  refine ⟨h1, h2, fun h => ?_⟩
  have := h.1.symm.trans h1
  rw [h2] at this
  cases this

/-- Hypercalls of vCPU 1 are silent. -/
theorem unaffected_iff_silent_hypercall :
    let g : Globals := ⟨false, false, 2, fun _ => [], 4⟩
    let e : IoExit :=
      { out := true, port := 0x500, data := [1], regs := some { rax := 1, rbx := 0x42 } }
    ∀ os : Interleaving, os.of .j = [e] → Unaffected g {} { vcpuId := 1 } os :=
  (unaffected_iff_silent _ {} { vcpuId := 1 } _).2.2 (Or.inr ⟨rfl, by
    intro e he
    rw [List.mem_singleton.1 he]
    exact fun _ => ⟨by decide, fun h => absurd h (by decide)⟩⟩)

end MiniKvm.Vmm
