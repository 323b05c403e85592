import MiniKvm.Vmm.Uart

/-!
# The receive interrupt of COM1

A Linux guest learns of input by IRQ4. The line is pulsed in three places: by
the stdin thread after each chunk, and by `uart_write` when THR is written or
IER is set, if the transmit interrupt is enabled. So a byte that arrived while
the receive interrupt was off is announced late, when IER is written, or not at
all: that write looks at bit 1 only (kvm-vmm-x86/src/main.c:2033-2039).

`receive_irq_iff` says which writes lose the interrupt, and that nothing else
does.
-/
namespace MiniKvm.Vmm

open Model16550

inductive SerialOp where
  /-- What one `read` of the stdin thread returned. -/
  | chunk (buf : List UInt8)
  | write (port : UInt16) (b : UInt8)
  | read (port : UInt16)
  deriving DecidableEq, Repr

/-- The stdin thread's work on one chunk: every byte pushed, then one pulse.
mirrors kvm-vmm-x86/src/main.c:519-530 -/
def stdinChunk (g : Globals) (buf : List UInt8) (d : Devices) : Devices :=
  if buf = [] then d
  else
    let d := buf.foldl (fun d ch => keyboardBufferPush ch d) d
    if g.linuxSerialInputEnabled then pulseIrqLine g 4 d else d

def serialStep (g : Globals) (d : Devices) : SerialOp → Devices
  | .chunk buf => stdinChunk g buf d
  | .write port b => uartWrite g port b d
  | .read port => (uartRead port d).2

/-- Data is unread and the receive interrupt is enabled. -/
def Armed (d : Devices) : Prop := d.unread ≠ [] ∧ d.uart0.ier &&& 0x01 ≠ 0

/-- The step raised a pulse on IRQ4. -/
def Pulsed (g : Globals) (d : Devices) (o : SerialOp) : Prop :=
  (serialStep g d o).pulses = d.pulses ++ [4]

/-- A write to IER that turns the receive interrupt on while data is unread
turns the transmit interrupt on too. -/
def Announces (d : Devices) : SerialOp → Prop
  | .write port b =>
    offset port = 1 → d.uart0.dlab = false → d.unread ≠ [] → d.uart0.ier &&& 0x01 = 0 →
      b &&& 0x01 ≠ 0 → b &&& 0x02 ≠ 0
  | _ => True

section Steps

variable {g : Globals}

theorem pulseIrqLine_pulses (hv : 0 ≤ g.vmFd) (irq : Nat) (d : Devices) :
    (pulseIrqLine g irq d).pulses = d.pulses ++ [irq] := by
  unfold pulseIrqLine
  rw [if_neg (by omega)]

theorem pulseThre_pulses (hl : g.linuxSerialInputEnabled = true) (hv : 0 ≤ g.vmFd) (d : Devices) :
    (pulseThre g d).pulses = d.pulses ++ [4] ↔ d.uart0.ier &&& 0x02 ≠ 0 := by
  unfold pulseThre
  by_cases h : d.uart0.ier &&& 0x02 ≠ 0
  · rw [if_pos ⟨hl, h⟩]
    exact ⟨fun _ => h, fun _ => pulseIrqLine_pulses hv 4 d⟩
  · rw [if_neg fun hc => h hc.2]
    exact ⟨fun he => by simp at he, fun hn => absurd hn h⟩

theorem foldl_push_pulses (buf : List UInt8) (d : Devices) :
    (buf.foldl (fun d ch => keyboardBufferPush ch d) d).pulses = d.pulses := by
  induction buf generalizing d with
  | nil => rfl
  | cons ch buf ih =>
    rw [List.foldl_cons, ih]
    rfl

/-- A chunk always ends with a pulse. -/
theorem chunk_pulsed (hl : g.linuxSerialInputEnabled = true) (hv : 0 ≤ g.vmFd) {buf : List UInt8}
    (hb : buf ≠ []) (d : Devices) : Pulsed g d (.chunk buf) := by
  show (stdinChunk g buf d).pulses = _
  unfold stdinChunk
  rw [if_neg hb]
  simp only [hl, if_true]
  rw [pulseIrqLine_pulses hv, foldl_push_pulses]

/-- Among the writes only one to IER can arm the interrupt. -/
theorem write_armed {port : UInt16} {b : UInt8} {d : Devices} (h : ¬ Armed d)
    (ha : Armed (uartWrite g port b d)) :
    offset port = 1 ∧ d.uart0.dlab = false ∧ d.unread ≠ [] ∧ d.uart0.ier &&& 0x01 = 0 ∧
      b &&& 0x01 ≠ 0 := by
  obtain ⟨hu, hi⟩ := ha
  rw [unread_uartWrite] at hu
  have hier : (uartWrite g port b d).uart0.ier
      = if target d.uart0.dlab (offset port) = some .ier then b else d.uart0.ier :=
    uartWrite_reg g port b d .ier
  have h0 : d.uart0.ier &&& 0x01 = 0 := by
    by_contra hc
    exact h ⟨hu, hc⟩
  rw [hier] at hi
  split at hi
  · rename_i ht
    unfold target at ht
    split at ht <;> simp_all
  · exact absurd h0 hi

/-- A write to IER pulses when it enables the transmit interrupt. -/
theorem write_ier_pulsed (hl : g.linuxSerialInputEnabled = true) (hv : 0 ≤ g.vmFd) {port : UInt16}
    {b : UInt8} {d : Devices} (ho : offset port = 1) (hd : d.uart0.dlab = false) :
    Pulsed g d (.write port b) ↔ b &&& 0x02 ≠ 0 := by
  have hw : uartWrite g port b d = pulseThre g { d with uart0 := { d.uart0 with ier := b } } := by
    unfold offset at ho
    unfold uartWrite
    rw [ho]
    simp [hd]
  show (uartWrite g port b d).pulses = d.pulses ++ [4] ↔ _
  rw [hw]
  exact pulseThre_pulses hl hv { d with uart0 := { d.uart0 with ier := b } }

theorem read_armed {port : UInt16} {d : Devices} (ha : Armed (uartRead port d).2) : Armed d := by
  rw [uartRead_snd] at ha
  split at ha
  · obtain ⟨hu, hi⟩ := ha
    rw [unread_pop] at hu
    rw [keyboardBufferPop_snd] at hi
    exact ⟨fun he => hu (by rw [he]; rfl), hi⟩
  · exact ha

/-- A step that arms the interrupt raises it, unless it is a write to IER that
does not announce. -/
theorem step_pulsed_iff (hl : g.linuxSerialInputEnabled = true) (hv : 0 ≤ g.vmFd) (d : Devices)
    (o : SerialOp) :
    (¬ Armed d ∧ Armed (serialStep g d o) → Pulsed g d o) ↔ Announces d o := by
  cases o with
  | chunk buf =>
    refine ⟨fun _ => trivial, fun _ ⟨hn, ha⟩ => ?_⟩
    by_cases hb : buf = []
    · have hs : serialStep g d (.chunk buf) = d := if_pos hb
      rw [hs] at ha
      exact absurd ha hn
    · exact chunk_pulsed hl hv hb d
  | write port b =>
    constructor
    · intro h ho hd hu h0 h1
      refine (write_ier_pulsed hl hv ho hd).1 (h ⟨fun ha => ha.2 h0, ?_⟩)
      refine ⟨by rw [serialStep, unread_uartWrite]; exact hu, ?_⟩
      have hier : (uartWrite g port b d).uart0.ier = b := by
        have := uartWrite_reg g port b d .ier
        rw [ho, hd] at this
        exact this
      rw [serialStep, hier]
      exact h1
    · rintro h ⟨hn, ha⟩
      obtain ⟨ho, hd, hu, h0, h1⟩ := write_armed hn ha
      exact (write_ier_pulsed hl hv ho hd).2 (h ho hd hu h0 h1)
  | read port => exact ⟨fun _ => trivial, fun _ ⟨hn, ha⟩ => absurd (read_armed ha) hn⟩

end Steps

/-- The state after the first `k` operations. -/
def serialAt (g : Globals) (os : List SerialOp) (k : Nat) : Devices :=
  after (serialStep g) {} (os.take k)

theorem serialAt_succ (g : Globals) {os : List SerialOp} {k : Nat} (hk : k < os.length) :
    serialAt g os (k + 1) = serialStep g (serialAt g os k) os[k] := by
  unfold serialAt
  rw [List.take_add_one, List.getElem?_eq_getElem hk, Option.toList_some, after_concat]

/-- Operation `k` raised a pulse on IRQ4. -/
def pulsedAt (g : Globals) (os : List SerialOp) (k : Nat) : Prop :=
  ∃ hk : k < os.length, Pulsed g (serialAt g os k) os[k]

/-- In every state of a run in which data is unread and the receive interrupt is
enabled, IRQ4 was raised at or after the latest step that made both true,
exactly when every write to IER that turns the receive interrupt on over unread
data turns the transmit interrupt on as well. -/
theorem receive_irq_iff (g : Globals) (hl : g.linuxSerialInputEnabled = true) (hv : 0 ≤ g.vmFd)
    (os : List SerialOp) :
    (∀ k ≤ os.length, Armed (serialAt g os k) →
        SinceRise (fun j => Armed (serialAt g os j)) (pulsedAt g os) k) ↔
      Along (serialStep g) Announces {} os := by
  have h0 : ¬ Armed (serialAt g os 0) := fun h => h.1 rfl
  rw [sinceRise_iff h0, along_iff]
  refine forall_congr' fun k => forall_congr' fun hk => ?_
  have hs := step_pulsed_iff hl hv (serialAt g os k) os[k]
  rw [← serialAt_succ g hk] at hs
  exact Iff.trans ⟨fun h hr => (h hr).2, fun h hr => ⟨hk, h hr⟩⟩ hs

/-- Input arrives, then the driver enables the receive interrupt: no pulse. -/
theorem late_enable_loses_irq :
    let g : Globals := ⟨false, true, 1, fun _ => [], 4⟩
    let os : List SerialOp := [.chunk [0x61], .write 0x3f9 0x01]
    Armed (serialAt g os 2) ∧
      ¬ SinceRise (fun j => Armed (serialAt g os j)) (pulsedAt g os) 2 := by
  intro g os
  have h0 : ¬ Armed (serialAt g os 0) := by unfold Armed; decide +kernel
  have h1 : ¬ Armed (serialAt g os 1) := by unfold Armed; decide +kernel
  have h2 : Armed (serialAt g os 2) := by unfold Armed; decide +kernel
  have hp : ¬ Pulsed g (serialAt g os 1) (.write 0x3f9 0x01) := by unfold Pulsed; decide +kernel
  refine ⟨h2, ?_⟩
  rintro ⟨m, hm, hr, -, j, hj1, hj2, _, hpj⟩
  have hm1 : m = 1 := by
    rcases Nat.lt_succ_iff_lt_or_eq.1 hm with hlt | rfl
    · obtain rfl : m = 0 := by omega
      exact absurd hr.2 h1
    · rfl
  obtain rfl : j = 1 := by omega
  exact hp hpj

/-- The condition met: the driver enables both interrupts at once. -/
theorem receive_irq_iff_both_enabled :
    let g : Globals := ⟨false, true, 1, fun _ => [], 4⟩
    let os : List SerialOp := [.chunk [0x61], .write 0x3f9 0x03]
    (∀ k ≤ os.length, Armed (serialAt g os k) →
        SinceRise (fun j => Armed (serialAt g os j)) (pulsedAt g os) k) := by
  intro g os
  refine (receive_irq_iff g rfl (by decide) os).2 ⟨trivial, fun _ _ _ _ _ => by decide, trivial⟩

end MiniKvm.Vmm
