import MiniKvm.Vmm.Console

/-!
# The GETCHAR hypercall

HC_GETCHAR is split over two exits: the OUT removes a byte from the keyboard
buffer and parks it in the vCPU's context (`pending_getchar`,
`getchar_result`), the next IN from the same port hands it over
(kvm-vmm-x86/src/main.c:1901-1984).

`getchar_delivered_iff`: a run delivers every removed byte, each before the
next one is removed, exactly when no HC_GETCHAR is made while a byte is parked.
-/
namespace MiniKvm.Vmm

inductive GetcharEvent where
  /-- The byte left the keyboard buffer. -/
  | removed (b : UInt8)
  /-- An IN handed the byte to the guest. -/
  | returned (b : UInt8)
  deriving DecidableEq, Repr

/-- `Paired es w`: in `es` every removed byte is returned right after, and by
nothing else; only the last one may still wait, and then it is `w`. -/
inductive Paired : List GetcharEvent → List UInt8 → Prop
  | nil : Paired [] []
  | removed {es : List GetcharEvent} (b : UInt8) : Paired es [] → Paired (es ++ [.removed b]) [b]
  | returned {es : List GetcharEvent} {b : UInt8} : Paired es [b] → Paired (es ++ [.returned b]) []

/-- The byte that an IN would hand over. -/
def waiting (ctx : Vcpu) : List UInt8 :=
  if ctx.pendingGetchar then popByte ctx.getcharResult else []

/-- A vCPU at port 0x500, with the history of its GETCHAR bytes. -/
structure HcPort where
  dev : Devices
  ctx : Vcpu
  events : List GetcharEvent := []

/-- The start: a context as `memset` leaves it, no request pending. -/
def HcPort.start (dev : Devices) (ctx : Vcpu) : HcPort :=
  { dev, ctx := { ctx with pendingGetchar := false, getcharResult := 0 } }

inductive HcOp where
  | push (ch : UInt8)
  | exit (e : IoExit) (port : e.port = HYPERCALL_PORT)

/-- The bytes that left the keyboard buffer. -/
def removedBy (d d' : Devices) : List UInt8 := d.unread.take (d.unread.length - d'.unread.length)

/-- What an IN hands over when a byte waits: its first data byte. -/
def returnedBy (ctx : Vcpu) (e : IoExit) (r : IoResult) : List UInt8 :=
  if e.out ∨ waiting ctx = [] then [] else r.data.take 1

def HcPort.step (g : Globals) (s : HcPort) : HcOp → HcPort
  | .push ch => { s with dev := keyboardBufferPush ch s.dev }
  | .exit e _ =>
    let r := handleIo g s.ctx e s.dev
    { dev := r.dev, ctx := r.ctx
      events :=
        s.events ++ (removedBy s.dev r.dev).map .removed ++ (returnedBy s.ctx e r).map .returned }

/-- The exit is an OUT with AL = HC_GETCHAR that reaches the handler. -/
def IsGetchar (ctx : Vcpu) (e : IoExit) : Prop :=
  e.out = true ∧ ctx.linuxGuest = false ∧ ∃ regs, e.regs = some regs ∧ regs.rax.toUInt8 = HC_GETCHAR

/-- A HC_GETCHAR is made only when no byte waits. -/
def HcPort.Collected (s : HcPort) : HcOp → Prop
  | .push _ => True
  | .exit e _ => IsGetchar s.ctx e → waiting s.ctx = []

def HcPort.Delivered (s : HcPort) : Prop := Paired s.events (waiting s.ctx)

/-! ## Paired histories -/

theorem Paired.length {es : List GetcharEvent} {w : List UInt8} (h : Paired es w) :
    es.length % 2 = w.length := by
  induction h with
  | nil => rfl
  | removed b _ ih => simp only [List.length_append, List.length_singleton,
      List.length_nil] at *; omega
  | returned _ ih => simp only [List.length_append, List.length_singleton,
      List.length_nil] at *; omega

theorem Paired.nil_iff {es : List GetcharEvent} {w : List UInt8} (h : Paired es w) :
    Paired es [] ↔ w = [] := by
  constructor
  · intro h0
    have := h.length
    rw [h0.length, List.length_nil] at this
    exact List.eq_nil_of_length_eq_zero this.symm
  · rintro rfl
    exact h

theorem Paired.removed_iff {es : List GetcharEvent} {w : List UInt8} {b : UInt8} (h : Paired es w) :
    Paired (es ++ [.removed b]) [b] ↔ w = [] := by
  constructor
  · intro hr
    have h1 := hr.length
    have h2 := h.length
    simp only [List.length_append, List.length_singleton] at h1
    exact List.eq_nil_of_length_eq_zero (by omega)
  · rintro rfl
    exact .removed b h

/-! ## The handlers at port 0x500 -/

section Port

variable (g : Globals) (ctx : Vcpu) (d : Devices) {e : IoExit}

theorem unread_logIo : (logIo g ctx e d).unread = d.unread := by
  unfold logIo
  split
  · simp only
    split <;> rfl
  · rfl

/-- A GETCHAR request is a pop; the log lines before it pop nothing. -/
theorem handleIo_request (hp : e.port = HYPERCALL_PORT) (h : IsGetchar ctx e) :
    ∃ d' : Devices, d'.unread = d.unread ∧ handleIo g ctx e d =
      ⟨0, { ctx with getcharResult := (keyboardBufferPop d').1, pendingGetchar := true }, e.data,
        (keyboardBufferPop d').2⟩ := by
  obtain ⟨ho, hl, regs, hr, ha⟩ := h
  have hh : handleIo g ctx e d = handleHypercallOut g ctx regs e.data (logIo g ctx e d) := by
    unfold handleIo
    simp [ho, hp, hl, hr]
  refine ⟨logHypercall g ctx regs (logIo g ctx e d), ?_, ?_⟩
  · rw [unread_logHypercall, unread_logIo]
  · rw [hh, handleHypercallOut_getchar g ctx e.data _ ha]

/-- A GETCHAR request parks the oldest unread byte. -/
theorem handleIo_getchar (hp : e.port = HYPERCALL_PORT) (h : IsGetchar ctx e) :
    waiting (handleIo g ctx e d).ctx = d.unread.take 1 ∧
      (handleIo g ctx e d).dev.unread = d.unread.tail := by
  obtain ⟨d', hu, hh⟩ := handleIo_request g ctx d hp h
  rw [hh]
  refine ⟨?_, by rw [unread_pop, hu]⟩
  show popByte (keyboardBufferPop d').1 = _
  rw [keyboardBufferPop_fst, hu]
  cases d.unread with
  | nil => rfl
  | cons c cs =>
    have hpos : ¬ (c.toNat : Int) < 0 := by omega
    simp [popByte, hpos]

theorem handleHypercallOut_other {regs : Regs} (data : List UInt8)
    (h : regs.rax.toUInt8 ≠ HC_GETCHAR) :
    waiting (handleHypercallOut g ctx regs data d).ctx = waiting ctx ∧
      (handleHypercallOut g ctx regs data d).dev.unread = d.unread := by
  have hu := unread_logHypercall g ctx regs d
  unfold handleHypercallOut
  simp only [if_neg h]
  split
  · refine ⟨rfl, ?_⟩
    simp only
    split <;> exact hu
  · split
    · exact ⟨rfl, hu⟩
    · refine ⟨rfl, ?_⟩
      simp only
      split <;> exact hu

/-- Any other OUT leaves the parked byte and the keyboard buffer alone. -/
theorem handleIo_out (hp : e.port = HYPERCALL_PORT) (ho : e.out = true) (h : ¬ IsGetchar ctx e) :
    waiting (handleIo g ctx e d).ctx = waiting ctx ∧
      (handleIo g ctx e d).dev.unread = d.unread := by
  have hu := unread_logIo g ctx d (e := e)
  unfold handleIo
  simp only [ho, hp, if_true]
  split
  · exact ⟨rfl, hu⟩
  · rename_i hl
    split
    · exact ⟨rfl, hu⟩
    · rename_i regs hr
      have ha : regs.rax.toUInt8 ≠ HC_GETCHAR := fun ha => h ⟨ho, by simpa using hl, regs, hr, ha⟩
      obtain ⟨h1, h2⟩ := handleHypercallOut_other g ctx (logIo g ctx e d) e.data ha
      exact ⟨h1, h2.trans hu⟩

theorem handleHypercallIn_spec (data : List UInt8) (hd : data ≠ []) :
    waiting (handleHypercallIn g ctx data d).ctx = [] ∧
      (handleHypercallIn g ctx data d).dev.unread = d.unread ∧
      (waiting ctx ≠ [] → (handleHypercallIn g ctx data d).data.take 1 = waiting ctx) := by
  obtain ⟨b, bs, rfl⟩ := List.exists_cons_of_ne_nil hd
  unfold handleHypercallIn
  split
  · rename_i hpend
    refine ⟨rfl, ?_, ?_⟩
    · simp only
      split
      · split <;> rfl
      · rfl
    · intro hw
      unfold waiting popByte at hw ⊢
      rw [if_pos hpend] at hw ⊢
      split at hw
      · exact absurd rfl hw
      · rename_i hpos
        have hne : ctx.getcharResult ≠ -1 := by omega
        simp [getcharByte, hne, hpos]
  · rename_i hpend
    have hw : waiting ctx = [] := if_neg hpend
    refine ⟨hw, ?_, fun h => absurd hw h⟩
    simp only
    split
    · split <;> rfl
    · rfl

theorem IoExit.data_ne_nil (e : IoExit) : e.data ≠ [] := by
  intro h
  have := e.sized
  rw [h] at this
  simp at this

/-- An IN hands over the parked byte. -/
theorem handleIo_in (hp : e.port = HYPERCALL_PORT) (ho : e.out = false)
    (hl : ctx.linuxGuest = true → waiting ctx = []) :
    waiting (handleIo g ctx e d).ctx = [] ∧ (handleIo g ctx e d).dev.unread = d.unread ∧
      (waiting ctx ≠ [] → (handleIo g ctx e d).data.take 1 = waiting ctx) := by
  have hu := unread_logIo g ctx d (e := e)
  unfold handleIo
  simp only [ho, hp, if_true, Bool.false_eq_true, if_false]
  split
  · rename_i hg
    exact ⟨hl hg, hu, fun h => absurd (hl hg) h⟩
  · obtain ⟨h1, h2, h3⟩ := handleHypercallIn_spec g ctx (logIo g ctx e d) e.data e.data_ne_nil
    exact ⟨h1, h2.trans hu, h3⟩

theorem linuxGuest_handleHypercallOut (regs : Regs) (data : List UInt8) :
    (handleHypercallOut g ctx regs data d).ctx.linuxGuest = ctx.linuxGuest := by
  unfold handleHypercallOut
  simp only
  split
  · rfl
  · split
    · rfl
    · split <;> rfl

theorem linuxGuest_handleIo (hp : e.port = HYPERCALL_PORT) :
    (handleIo g ctx e d).ctx.linuxGuest = ctx.linuxGuest := by
  unfold handleIo
  simp only [hp, if_true]
  split
  · split
    · rfl
    · split
      · rfl
      · exact linuxGuest_handleHypercallOut g ctx _ _ _
  · split
    · rfl
    · unfold handleHypercallIn
      split <;> rfl

end Port

/-! ## Runs -/

/-- A Linux guest has no parked byte: its port 0x500 goes nowhere. -/
def HcPort.Inv (s : HcPort) : Prop := s.ctx.linuxGuest = true → waiting s.ctx = []

theorem removedBy_of_eq {d d' : Devices} (h : d'.unread = d.unread) : removedBy d d' = [] := by
  simp [removedBy, h]

theorem HcPort.step_push (g : Globals) (s : HcPort) (ch : UInt8) :
    (s.step g (.push ch)).ctx = s.ctx ∧ (s.step g (.push ch)).events = s.events := ⟨rfl, rfl⟩

/-- A GETCHAR request: what it removes is what waits afterwards. -/
theorem HcPort.step_getchar (g : Globals) (s : HcPort) {e : IoExit} (hp : e.port = HYPERCALL_PORT)
    (h : IsGetchar s.ctx e) :
    (s.step g (.exit e hp)).events = s.events ++ (s.dev.unread.take 1).map .removed ∧
      waiting (s.step g (.exit e hp)).ctx = s.dev.unread.take 1 := by
  obtain ⟨h1, h2⟩ := handleIo_getchar g s.ctx s.dev hp h
  refine ⟨?_, h1⟩
  show s.events ++ (removedBy s.dev _).map .removed ++ (returnedBy s.ctx e _).map .returned = _
  have hr : returnedBy s.ctx e (handleIo g s.ctx e s.dev) = [] := if_pos (Or.inl h.1)
  have hd : removedBy s.dev (handleIo g s.ctx e s.dev).dev = s.dev.unread.take 1 := by
    unfold removedBy
    rw [h2]
    cases s.dev.unread <;> simp
  rw [hr, hd, List.map_nil, List.append_nil]

/-- Any other exit removes nothing; an IN returns what waits. -/
theorem HcPort.step_other (g : Globals) (s : HcPort) {e : IoExit} (hp : e.port = HYPERCALL_PORT)
    (hi : s.Inv) (h : ¬ IsGetchar s.ctx e) :
    ((s.step g (.exit e hp)).events = s.events ∧
        waiting (s.step g (.exit e hp)).ctx = waiting s.ctx) ∨
      ((s.step g (.exit e hp)).events = s.events ++ (waiting s.ctx).map .returned ∧
        waiting (s.step g (.exit e hp)).ctx = []) := by
  have hev : (s.step g (.exit e hp)).events = s.events ++
      (removedBy s.dev (handleIo g s.ctx e s.dev).dev).map .removed ++
      (returnedBy s.ctx e (handleIo g s.ctx e s.dev)).map .returned := rfl
  cases ho : e.out with
  | true =>
    obtain ⟨h1, h2⟩ := handleIo_out g s.ctx s.dev hp ho h
    refine Or.inl ⟨?_, h1⟩
    rw [hev, removedBy_of_eq h2, show returnedBy s.ctx e _ = [] from if_pos (Or.inl ho)]
    simp
  | false =>
    obtain ⟨h1, h2, h3⟩ := handleIo_in g s.ctx s.dev hp ho hi
    refine Or.inr ⟨?_, h1⟩
    have hr : returnedBy s.ctx e (handleIo g s.ctx e s.dev) = waiting s.ctx := by
      unfold returnedBy
      split
      · rename_i hc
        rcases hc with hc | hc
        · rw [ho] at hc
          cases hc
        · exact hc.symm
      · rename_i hc
        exact h3 fun hw => hc (Or.inr hw)
    rw [hev, removedBy_of_eq h2, hr]
    simp

theorem HcPort.step_inv (g : Globals) (s : HcPort) (o : HcOp) (h : s.Inv) : (s.step g o).Inv := by
  cases o with
  | push ch => exact h
  | exit e hp =>
    intro hl
    have hl' : s.ctx.linuxGuest = true := by
      rw [← linuxGuest_handleIo g s.ctx s.dev hp]
      exact hl
    have hn : ¬ IsGetchar s.ctx e := fun hg => by
      rw [hg.2.1] at hl'
      cases hl'
    rcases HcPort.step_other g s hp h hn with ⟨-, h2⟩ | ⟨-, h2⟩
    · rw [h2]
      exact h hl'
    · exact h2

/-- One exit keeps the history paired exactly when it does not ask for a byte
while one waits. -/
theorem HcPort.step_delivered (g : Globals) (s : HcPort) (o : HcOp) (hi : s.Inv) (h : s.Delivered) :
    (s.step g o).Delivered ↔ s.Collected o := by
  cases o with
  | push ch => exact ⟨fun _ => trivial, fun _ => h⟩
  | exit e hp =>
    by_cases hg : IsGetchar s.ctx e
    · obtain ⟨h1, h2⟩ := HcPort.step_getchar g s hp hg
      have hc : s.Collected (.exit e hp) ↔ waiting s.ctx = [] := ⟨fun hc => hc hg, fun hw _ => hw⟩
      rw [hc]
      unfold HcPort.Delivered
      rw [h1, h2]
      cases s.dev.unread with
      | nil => simpa using h.nil_iff
      | cons c cs => simpa using h.removed_iff
    · refine ⟨fun _ hc => absurd hc hg, fun _ => ?_⟩
      unfold HcPort.Delivered
      rcases HcPort.step_other g s hp hi hg with ⟨h1, h2⟩ | ⟨h1, h2⟩
      · rw [h1, h2]
        exact h
      · rw [h1, h2]
        unfold HcPort.Delivered at h
        have hl := h.length
        rcases hw : waiting s.ctx with - | ⟨b, - | ⟨c, cs⟩⟩
        · rw [hw] at h
          simpa using h
        · rw [hw] at h
          exact h.returned
        · rw [hw] at hl
          simp only [List.length_cons] at hl
          omega

theorem HcPort.start_delivered (dev : Devices) (ctx : Vcpu) : (HcPort.start dev ctx).Delivered :=
  Paired.nil

/-- For every sequence of exits at port 0x500 and pushes: every byte that
HC_GETCHAR removed is returned by the next IN, before another one is removed,
or still waits, in every state of the run, exactly when the guest never makes
a HC_GETCHAR while a byte waits. -/
theorem getchar_delivered_iff (g : Globals) (dev : Devices) (ctx : Vcpu) (os : List HcOp) :
    Throughout (HcPort.step g) HcPort.Delivered (HcPort.start dev ctx) os ↔
      Along (HcPort.step g) HcPort.Collected (HcPort.start dev ctx) os :=
  throughout_iff_along (HcPort.step_inv g) (HcPort.step_delivered g) (fun _ => rfl)
    (HcPort.start_delivered dev ctx) os

def getcharOut : IoExit :=
  { out := true, port := 0x500, data := [0x02], regs := some { rax := 0x02 } }

/-- Two requests with no IN between them, as the kernel's own `getchar` makes
them: the second overwrites the first byte, 'a'. -/
theorem getchar_twice_loses_byte :
    let s := after (HcPort.step ⟨false, false, 1, fun _ => [], 4⟩) (HcPort.start {} {})
      [.push 0x61, .push 0x62, .exit getcharOut rfl, .exit getcharOut rfl]
    s.events = [.removed 0x61, .removed 0x62] ∧ waiting s.ctx = [0x62] ∧ s.dev.unread = [] ∧
      ¬ s.Delivered := by
  intro s
  have he : s.events = [.removed 0x61, .removed 0x62] := by decide +kernel
  have hw : waiting s.ctx = [0x62] := by decide +kernel
  refine ⟨he, hw, by decide +kernel, fun hd => ?_⟩
  have := hd.length
  rw [he, hw] at this
  simp at this

end MiniKvm.Vmm
