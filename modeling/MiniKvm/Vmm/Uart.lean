import MiniKvm.Vmm.Console

/-!
# COM1 as a 16550

A register model of the part of a 16550 the VMM emulates, stated on histories
alone: which register an access reaches, the value last written to it, the
bytes transmitted, the bytes received and not read yet. `uart_refines_16550`:
after any accesses and keyboard pushes the emulation is in the state the model
says, and the next read returns what the model says.

A history lists the operations newest first.
-/
namespace MiniKvm.Vmm

inductive UartOp where
  | write (port : UInt16) (b : UInt8)
  | read (port : UInt16)
  /-- A byte arrives from the keyboard. -/
  | push (ch : UInt8)
  deriving DecidableEq, Repr

abbrev History := List UartOp

/-! ## The register model -/

namespace Model16550

inductive Reg where
  | ier | lcr | mcr | dll | dlh
  deriving DecidableEq, Repr

/-- The offset a port has from 0x3f8. -/
def offset (port : UInt16) : Nat := (port - 0x3f8).toNat

def initial : Reg → UInt8
  | .ier => 0x00
  | .lcr => 0x03
  | .mcr => 0x00
  | .dll => 0x01
  | .dlh => 0x00

/-- DLAB: bit 7 of the last value written to LCR. -/
def dlab : History → Bool
  | [] => false
  | .write port b :: h => if offset port = 3 then decide (b &&& 0x80 ≠ 0) else dlab h
  | _ :: h => dlab h

/-- The register at an offset; DLAB switches the bank of offsets 0 and 1. -/
def target (dlab : Bool) (off : Nat) : Option Reg :=
  match off, dlab with
  | 0, true => some .dll
  | 1, true => some .dlh
  | 1, false => some .ier
  | 3, _ => some .lcr
  | 4, _ => some .mcr
  | _, _ => none

/-- The value last written to a register. -/
def lastValue (r : Reg) : History → UInt8
  | [] => initial r
  | .write port b :: h => if target (dlab h) (offset port) = some r then b else lastValue r h
  | _ :: h => lastValue r h

/-- The bytes written to the transmit holding register, in order. -/
def transmitted : History → List UInt8
  | [] => []
  | .write port b :: h => transmitted h ++ if offset port = 0 ∧ dlab h = false then [b] else []
  | _ :: h => transmitted h

/-- A read that takes a byte from the receive queue. -/
def consumes (h : History) (port : UInt16) : Prop := offset port = 0 ∧ dlab h = false

instance (h : History) (port : UInt16) : Decidable (consumes h port) :=
  inferInstanceAs (Decidable (_ ∧ _))

/-- The receive queue. It holds 255 bytes; one that arrives when it is full is
lost (an overrun). -/
def unread : History → List UInt8
  | [] => []
  | .push ch :: h => if (unread h).length < 255 then unread h ++ [ch] else unread h
  | .read port :: h => if consumes h port then (unread h).tail else unread h
  | .write _ _ :: h => unread h

/-- What a read of `port` returns after `h`. -/
def readValue (h : History) (port : UInt16) : UInt8 :=
  match offset port with
  | 0 => if dlab h then lastValue .dll h else (unread h).headD 0
  | 1 => if dlab h then lastValue .dlh h else lastValue .ier h
  | 2 =>
    if unread h ≠ [] ∧ lastValue .ier h &&& 0x01 ≠ 0 then 0x04
    else if lastValue .ier h &&& 0x02 ≠ 0 then 0x02
    else 0x01
  | 3 => lastValue .lcr h
  | 4 => lastValue .mcr h
  | 5 => if unread h ≠ [] then 0x61 else 0x60
  | _ => 0

theorem dlab_eq (h : History) : dlab h = decide (lastValue .lcr h &&& 0x80 ≠ 0) := by
  induction h with
  | nil => decide
  | cons o h ih =>
    cases o with
    | write port b =>
      have ht : target (dlab h) (offset port) = some .lcr ↔ offset port = 3 := by
        unfold target
        split <;> simp_all
      simp only [dlab, lastValue, ht]
      split
      · rfl
      · exact ih
    | read port => exact ih
    | push ch => exact ih

end Model16550

open Model16550

/-! ## The emulation -/

def uartStep (g : Globals) (d : Devices) : UartOp → Devices
  | .write port b => uartWrite g port b d
  | .read port => (uartRead port d).2
  | .push ch => keyboardBufferPush ch d

/-- The devices after a history, from the static initial state. -/
def uartAfter (g : Globals) : History → Devices
  | [] => {}
  | o :: h => uartStep g (uartAfter g h) o

def Uart16550.reg (u : Uart16550) : Reg → UInt8
  | .ier => u.ier
  | .lcr => u.lcr
  | .mcr => u.mcr
  | .dll => u.dll
  | .dlh => u.dlh

/-- The devices are in the state the register model says. -/
structure Matches (h : History) (d : Devices) : Prop where
  reg : ∀ r, d.uart0.reg r = lastValue r h
  stdout : d.stdout = transmitted h
  unread : d.unread = unread h

theorem Matches.dlab {h : History} {d : Devices} (hm : Matches h d) : d.uart0.dlab = dlab h := by
  rw [dlab_eq, ← hm.reg .lcr]
  rfl

theorem pulseThre_uart0 (g : Globals) (d : Devices) : (pulseThre g d).uart0 = d.uart0 := by
  unfold pulseThre pulseIrqLine
  split
  · split <;> rfl
  · rfl

theorem pulseThre_stdout (g : Globals) (d : Devices) : (pulseThre g d).stdout = d.stdout := by
  unfold pulseThre pulseIrqLine
  split
  · split <;> rfl
  · rfl

/-- A write reaches the register of its offset, and no other. -/
theorem uartWrite_reg (g : Globals) (port : UInt16) (b : UInt8) (d : Devices) (r : Reg) :
    (uartWrite g port b d).uart0.reg r =
      if target d.uart0.dlab (offset port) = some r then b else d.uart0.reg r := by
  unfold uartWrite
  simp only [offset, target]
  cases hd : d.uart0.dlab with
  | true => split <;> cases r <;> simp_all [Uart16550.reg]
  | false => split <;> cases r <;> simp_all [Uart16550.reg, pulseThre_uart0]

/-- A write to THR goes to stdout. -/
theorem uartWrite_stdout (g : Globals) (port : UInt16) (b : UInt8) (d : Devices) :
    (uartWrite g port b d).stdout =
      d.stdout ++ if offset port = 0 ∧ d.uart0.dlab = false then [b] else [] := by
  unfold uartWrite
  simp only [offset]
  cases hd : d.uart0.dlab with
  | true => split <;> simp_all
  | false => split <;> simp_all [pulseThre_stdout]

theorem uartRead_snd (port : UInt16) (d : Devices) :
    (uartRead port d).2 =
      if offset port = 0 ∧ d.uart0.dlab = false then (keyboardBufferPop d).2 else d := by
  unfold uartRead
  simp only [offset]
  cases hd : d.uart0.dlab with
  | true => split <;> simp_all
  | false => split <;> simp_all

/-- What a read returns. -/
theorem uartRead_fst {h : History} {d : Devices} (hm : Matches h d) (port : UInt16) :
    (uartRead port d).1 = readValue h port := by
  have hreg := hm.reg
  have hd := hm.dlab
  have hhas : keyboardBufferHasData d = true ↔
      Model16550.unread h ≠ [] := by rw [hasData_iff, hm.unread]
  unfold uartRead readValue
  simp only [offset]
  generalize (port - 0x3f8).toNat = off
  split
  · rw [hd]
    split
    · exact hreg .dll
    · show (if (keyboardBufferPop d).1 < 0 then 0x00
        else UInt8.ofNat (keyboardBufferPop d).1.toNat) = _
      rw [keyboardBufferPop_fst, hm.unread]
      cases Model16550.unread h with
      | nil => rfl
      | cons c cs =>
        have hpos : ¬ (c.toNat : Int) < 0 := by omega
        simp [hpos]
  · rw [hd]
    split
    · exact hreg .dlh
    · exact hreg .ier
  · simp only [hhas, show d.uart0.ier = lastValue .ier h from hreg .ier]
  · exact hreg .lcr
  · exact hreg .mcr
  · simp only [hhas]
    split <;> rfl
  · -- the other offsets read as zero on both sides
    first
      | rfl
      | (split <;> simp_all)

theorem Matches.step (g : Globals) {h : History} {d : Devices} (hm : Matches h d) (o : UartOp) :
    Matches (o :: h) (uartStep g d o) := by
  cases o with
  | write port b =>
    refine ⟨fun r => ?_, ?_, ?_⟩
    · rw [uartStep, uartWrite_reg, hm.dlab, hm.reg]
      rfl
    · rw [uartStep, uartWrite_stdout, hm.dlab, hm.stdout]
      rfl
    · rw [uartStep, unread_uartWrite, hm.unread]
      rfl
  | read port =>
    have hs := uartRead_snd port d
    rw [hm.dlab] at hs
    have hc : consumes h port ↔ offset port = 0 ∧ Model16550.dlab h = false := Iff.rfl
    refine ⟨fun r => ?_, ?_, ?_⟩
    · rw [uartStep, hs]
      split
      · rw [keyboardBufferPop_snd]
        exact hm.reg r
      · exact hm.reg r
    · rw [uartStep, hs]
      split
      · rw [keyboardBufferPop_snd]
        exact hm.stdout
      · exact hm.stdout
    · rw [uartStep, hs]
      simp only [Model16550.unread, hc]
      split
      · rw [unread_pop, hm.unread]
      · exact hm.unread
  | push ch =>
    refine ⟨hm.reg, hm.stdout, ?_⟩
    rw [uartStep, unread_push, hm.unread]
    rfl

theorem uartAfter_matches (g : Globals) (h : History) : Matches h (uartAfter g h) := by
  induction h with
  | nil => exact ⟨fun r => by cases r <;> rfl, rfl, rfl⟩
  | cons o h ih => exact ih.step g o

/-! ## The receive handshake -/

/-- Without a read of offset 0 the oldest unread byte stays the oldest. -/
theorem unread_head_stays {h later : History} {c : UInt8} {cs : List UInt8}
    (hu : Model16550.unread h = c :: cs) (hl : ∀ port, .read port ∈ later → offset port ≠ 0) :
    ∃ cs', Model16550.unread (later ++ h) = c :: cs' := by
  induction later with
  | nil => exact ⟨cs, hu⟩
  | cons o later ih =>
    obtain ⟨cs', hc⟩ := ih fun port hp => hl port (List.mem_cons_of_mem _ hp)
    cases o with
    | write port b => exact ⟨cs', hc⟩
    | read port =>
      have hn : ¬ consumes (later ++ h) port := fun hcons => hl port List.mem_cons_self hcons.1
      refine ⟨cs', ?_⟩
      rw [List.cons_append, Model16550.unread, if_neg hn, hc]
    | push ch =>
      rw [List.cons_append, Model16550.unread, hc]
      split
      · exact ⟨cs' ++ [ch], rfl⟩
      · exact ⟨cs', rfl⟩

/-- Once LSR showed data, the next read of RBR returns the byte that was the
oldest then, whatever is pushed or written in between. -/
theorem lsr_handshake (g : Globals) {h later : History}
    (hlsr : (uartRead 0x3fd (uartAfter g h)).1 &&& 0x01 ≠ 0)
    (hl : ∀ port, .read port ∈ later → offset port ≠ 0)
      (hd : Model16550.dlab (later ++ h) = false) :
    ∃ c cs, Model16550.unread h = c :: cs ∧ (uartRead 0x3f8 (uartAfter g (later ++ h))).1 = c := by
  rw [uartRead_fst (uartAfter_matches g h)] at hlsr
  rw [uartRead_fst (uartAfter_matches g (later ++ h))]
  cases hu : Model16550.unread h with
  | nil =>
    have h5 : readValue h 0x3fd = 0x60 := by
      show (if Model16550.unread h ≠ [] then 0x61 else 0x60) = _
      rw [hu, if_neg (by simp)]
    rw [h5] at hlsr
    exact absurd (by decide) hlsr
  | cons c cs =>
    obtain ⟨cs', hc⟩ := unread_head_stays hu hl
    refine ⟨c, cs, rfl, ?_⟩
    show (if Model16550.dlab (later ++ h) then _ else (Model16550.unread (later ++ h)).headD 0) = c
    rw [hd, hc]
    rfl

/-- After every history of accesses and keyboard pushes: the registers hold the
values last written to them, bank by bank; stdout is what went through THR; the
keyboard buffer is the receive queue; a read returns what the model says, the
oldest unread byte for RBR, data before THR-empty before nothing for IIR, bit 0
of LSR when a byte is unread; and a byte that LSR announced is there when RBR is
read. -/
theorem uart_refines_16550 (g : Globals) (h : History) :
    let d := uartAfter g h
    (∀ r, d.uart0.reg r = lastValue r h) ∧ d.stdout = transmitted h ∧
      d.unread = Model16550.unread h ∧
      (∀ port, (uartRead port d).1 = readValue h port) ∧
      ((uartRead 0x3fd d).1 &&& 0x01 ≠ 0 ↔ Model16550.unread h ≠ []) ∧
      ((uartRead 0x3fd d).1 &&& 0x01 ≠ 0 → ∀ later : History,
        (∀ port, .read port ∈ later → offset port ≠ 0) → Model16550.dlab (later ++ h) = false →
        ∃ c cs, Model16550.unread h = c :: cs ∧ (uartRead 0x3f8 (uartAfter g (later ++ h))).1 =
          c) := by
  have hm := uartAfter_matches g h
  refine ⟨hm.reg, hm.stdout, hm.unread, uartRead_fst hm, ?_,
    fun hl _ h1 h2 => lsr_handshake g hl h1 h2⟩
  rw [uartRead_fst hm]
  show (if Model16550.unread h ≠ [] then 0x61 else 0x60) &&& 0x01 ≠ (0 : UInt8) ↔ _
  by_cases hu : Model16550.unread h ≠ []
  · rw [if_pos hu]
    exact ⟨fun _ => hu, fun _ => by decide⟩
  · rw [if_neg hu]
    exact ⟨fun hn => absurd (by decide) hn, fun hn => absurd hn hu⟩

/-- The bytes pushed and not read, had the queue no limit. -/
def owed : History → List UInt8
  | [] => []
  | .push ch :: h => owed h ++ [ch]
  | .read port :: h => if consumes h port then (owed h).tail else owed h
  | .write _ _ :: h => owed h

/-- The 256th byte that arrives before the first read is never read: after 255
reads of RBR the next one returns 0. -/
theorem uart_overrun :
    let g : Globals := ⟨false, true, 1, fun _ => [], 4⟩
    let h : History :=
      List.replicate 255 (.read 0x3f8) ++ .push 0x62 :: List.replicate 255 (.push 0x61)
    owed h = [0x62] ∧ (uartRead 0x3f8 (uartAfter g h)).1 = 0 ∧
      (uartRead 0x3fd (uartAfter g h)).1 &&& 0x01 = 0 := by
  intro g h
  have ho : owed h = [0x62] := by decide +kernel
  have h0 : readValue h 0x3f8 = 0 := by decide +kernel
  have h5 : readValue h 0x3fd &&& 0x01 = 0 := by decide +kernel
  rw [uartRead_fst (uartAfter_matches g h), uartRead_fst (uartAfter_matches g h)]
  exact ⟨ho, h0, h5⟩

end MiniKvm.Vmm
