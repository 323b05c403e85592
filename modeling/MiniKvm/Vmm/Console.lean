import MiniKvm.Core.Trace
import MiniKvm.Vmm.Devices

/-!
# Console input

From stdin to the guest: the stdin thread (kvm-vmm-x86/src/main.c:489-541)
pushes what it reads into the keyboard buffer byte by byte, and a guest takes
bytes out with HC_GETCHAR or by reading RBR. The lock of the buffer makes each
push and each pop one step; any order of them is a run.

`console_conserved`: no byte is duplicated, reordered or invented, and the only
bytes that get lost are the ones pushed while 255 bytes are unread.
-/
namespace MiniKvm.Vmm

/-! ## The two guest operations that pop -/

/-- The byte of a `keyboard_buffer_pop` result, if there is one. -/
def popByte (ch : Int) : List UInt8 := if ch < 0 then [] else [UInt8.ofNat ch.toNat]

theorem popByte_pop (d : Devices) :
    popByte (keyboardBufferPop d).1 ++ (keyboardBufferPop d).2.unread = d.unread := by
  rw [keyboardBufferPop_fst, unread_pop]
  cases d.unread with
  | nil => rfl
  | cons ch cs =>
    have hpos : ¬ (ch.toNat : Int) < 0 := by omega
    simp [popByte, hpos]

theorem unread_logHypercall (g : Globals) (ctx : Vcpu) (regs : Regs) (d : Devices) :
    (logHypercall g ctx regs d).unread = d.unread := by
  unfold logHypercall
  split
  · simp only
    split <;> rfl
  · rfl

theorem handleHypercallOut_getchar (g : Globals) (ctx : Vcpu) {regs : Regs} (data : List UInt8)
    (d : Devices) (h : regs.rax.toUInt8 = HC_GETCHAR) :
    handleHypercallOut g ctx regs data d =
      ⟨0, { ctx with
              getcharResult := (keyboardBufferPop (logHypercall g ctx regs d)).1,
              pendingGetchar := true },
        data, (keyboardBufferPop (logHypercall g ctx regs d)).2⟩ := by
  unfold handleHypercallOut
  simp only [h]
  rfl

/-- HC_GETCHAR takes the oldest unread byte and leaves it in the context. -/
theorem getchar_takes (g : Globals) (ctx : Vcpu) {regs : Regs} (data : List UInt8) (d : Devices)
    (h : regs.rax.toUInt8 = HC_GETCHAR) :
    popByte (handleHypercallOut g ctx regs data d).ctx.getcharResult ++
      (handleHypercallOut g ctx regs data d).dev.unread = d.unread := by
  rw [handleHypercallOut_getchar g ctx data d h]
  exact (popByte_pop _).trans (unread_logHypercall g ctx regs d)

theorem unread_pulseThre (g : Globals) (d : Devices) : (pulseThre g d).unread = d.unread := by
  unfold pulseThre pulseIrqLine
  split
  · split <;> rfl
  · rfl

theorem unread_uartWrite (g : Globals) (port : UInt16) (b : UInt8) (d : Devices) :
    (uartWrite g port b d).unread = d.unread := by
  unfold uartWrite
  split
  · split
    · rfl
    · exact unread_pulseThre g _
  · split
    · rfl
    · exact unread_pulseThre g _
  · rfl
  · rfl
  · rfl

/-! ## The stdin thread and its readers -/

/-- The devices and the stdin thread. `stream`, `pushed` and `popped` are
history: everything `read` returned so far, every byte pushed with whether
fewer than 255 bytes were unread at that moment, and every byte popped. -/
structure Console where
  dev : Devices := {}
  /-- The part of `buf` that is not pushed yet. -/
  chunk : List UInt8 := []
  stream : List UInt8 := []
  pushed : List (UInt8 × Bool) := []
  popped : List UInt8 := []

inductive ConsoleOp where
  /-- `read(STDIN_FILENO, buf, sizeof(buf))` returned these bytes. -/
  | read (buf : List UInt8)
  /-- One turn of the loop over `buf`. -/
  | push
  /-- A HC_GETCHAR hypercall of some vCPU. -/
  | getchar (ctx : Vcpu) (regs : Regs) (al : regs.rax.toUInt8 = HC_GETCHAR)
  /-- A read of port 0x3f8. -/
  | rbr
  /-- A write to a COM1 register. -/
  | uart (port : UInt16) (b : UInt8)

/-- The next byte of `buf` goes into the keyboard buffer; after the last one
IRQ4 is pulsed for Linux.
mirrors kvm-vmm-x86/src/main.c:521-530 -/
def stdinPush (g : Globals) (ch : UInt8) (rest : List UInt8) (d : Devices) : Devices :=
  let d := keyboardBufferPush ch d
  if rest = [] ∧ g.linuxSerialInputEnabled then pulseIrqLine g 4 d else d

def Console.pushNext (g : Globals) (s : Console) : Console :=
  match s.chunk with
  | [] => s
  | ch :: rest =>
    { s with
      dev := stdinPush g ch rest s.dev
      chunk := rest
      pushed := s.pushed ++ [(ch, decide (s.dev.unread.length < 255))] }

/-- The thread reads again only when the previous chunk is pushed, 256 bytes at
most. -/
def Console.step (g : Globals) (s : Console) : ConsoleOp → Console
  | .read buf =>
    if s.chunk = [] ∧ buf.length ≤ 256 then { s with chunk := buf, stream := s.stream ++ buf }
    else s
  | .push => s.pushNext g
  | .getchar ctx regs _ =>
    let r := handleHypercallOut g ctx regs [] s.dev
    { s with dev := r.dev, popped := s.popped ++ popByte r.ctx.getcharResult }
  | .rbr =>
    { s with
      dev := (uartRead 0x3f8 s.dev).2
      popped := s.popped ++ if s.dev.uart0.dlab then [] else popByte (keyboardBufferPop s.dev).1 }
  | .uart port b => { s with dev := uartWrite g port b s.dev }

theorem Console.step_read (g : Globals) (s : Console) (buf : List UInt8) :
    s.step g (.read buf) =
      if s.chunk = [] ∧ buf.length ≤ 256 then { s with chunk := buf, stream := s.stream ++ buf }
      else s := rfl

theorem Console.step_push (g : Globals) {s : Console} {ch : UInt8} {rest : List UInt8}
    (hc : s.chunk = ch :: rest) :
    s.step g .push = { s with
      dev := stdinPush g ch rest s.dev
      chunk := rest
      pushed := s.pushed ++ [(ch, decide (s.dev.unread.length < 255))] } := by
  show s.pushNext g = _
  unfold Console.pushNext
  rw [hc]

/-- The bytes that found room in the buffer. -/
def Console.kept (s : Console) : List UInt8 := (s.pushed.filter Prod.snd).map Prod.fst

/-- Where every byte that was read is: pushed or still to be pushed; and every
pushed byte that found room is popped, or unread, in order. -/
structure Console.Conserved (s : Console) : Prop where
  stream : s.pushed.map Prod.fst ++ s.chunk = s.stream
  kept : s.popped ++ s.dev.unread = s.kept

theorem unread_stdinPush (g : Globals) (ch : UInt8) (rest : List UInt8) (d : Devices) :
    (stdinPush g ch rest d).unread =
      if d.unread.length < 255 then d.unread ++ [ch] else d.unread := by
  rw [← unread_push]
  unfold stdinPush pulseIrqLine
  simp only
  split
  · split <;> rfl
  · rfl

theorem unread_rbr (d : Devices) :
    (if d.uart0.dlab then [] else popByte (keyboardBufferPop d).1) ++ (uartRead 0x3f8 d).2.unread
      = d.unread := by
  have h : (uartRead 0x3f8 d).2 = if d.uart0.dlab then d else (keyboardBufferPop d).2 := by
    show (if d.uart0.dlab then (d.uart0.dll, d) else _ : UInt8 × Devices).2 = _
    split <;> rfl
  rw [h]
  split
  · rfl
  · exact popByte_pop d

theorem Console.step_conserved (g : Globals) (s : Console) (o : ConsoleOp) (h : s.Conserved) :
    (s.step g o).Conserved := by
  cases o with
  | read buf =>
    rw [Console.step_read]
    split
    · rename_i hc
      refine ⟨?_, h.kept⟩
      show s.pushed.map Prod.fst ++ buf = s.stream ++ buf
      rw [← h.stream, hc.1, List.append_nil]
    · exact h
  | push =>
    cases hc : s.chunk with
    | nil =>
      have hs : s.pushNext g = s := by
        unfold Console.pushNext
        rw [hc]
      show (s.pushNext g).Conserved
      rwa [hs]
    | cons ch rest =>
      rw [Console.step_push g hc]
      refine ⟨?_, ?_⟩
      · have := h.stream
        rw [hc] at this
        simpa using this
      · show s.popped ++ (stdinPush g ch rest s.dev).unread = _
        have hk := h.kept
        unfold Console.kept at hk ⊢
        rw [unread_stdinPush]
        split
        · rename_i hlt
          rw [← List.append_assoc, hk]
          simp [hlt]
        · rename_i hlt
          rw [hk]
          simp [hlt]
  | getchar ctx regs al =>
    refine ⟨h.stream, ?_⟩
    show (s.popped ++ popByte _) ++ (handleHypercallOut g ctx regs [] s.dev).dev.unread = s.kept
    rw [List.append_assoc, getchar_takes g ctx [] s.dev al, h.kept]
  | rbr =>
    refine ⟨h.stream, ?_⟩
    show (s.popped ++ _) ++ (uartRead 0x3f8 s.dev).2.unread = s.kept
    rw [List.append_assoc, unread_rbr, h.kept]
  | uart port b =>
    refine ⟨h.stream, ?_⟩
    show s.popped ++ (uartWrite g port b s.dev).unread = s.kept
    rw [unread_uartWrite, h.kept]

/-- Pushing a whole chunk with no pop in between. -/
theorem Console.push_chunk (g : Globals) (s : Console) :
    let t := after (Console.step g) s (List.replicate s.chunk.length .push)
    t.chunk = [] ∧ t.stream = s.stream ∧ t.popped = s.popped ∧
      t.dev.unread.length = min 255 (s.dev.unread.length + s.chunk.length) := by
  obtain ⟨n, hn⟩ : ∃ n, s.chunk.length = n := ⟨_, rfl⟩
  induction n generalizing s with
  | zero =>
    have hl := unread_length_le s.dev
    have hc := List.eq_nil_of_length_eq_zero hn
    rw [hn, List.replicate_zero]
    exact ⟨hc, rfl, rfl, by rw [after_nil]; omega⟩
  | succ n ih =>
    cases hc : s.chunk with
    | nil => simp [hc] at hn
    | cons ch rest =>
      have hs := Console.step_push g hc
      have hr : rest.length = n := by rw [hc, List.length_cons] at hn; omega
      have := ih (s.step g .push) (by rw [hs]; exact hr)
      rw [List.length_cons, List.replicate_succ, after_cons]
      rw [show (s.step g .push).chunk = rest by rw [hs]] at this
      obtain ⟨h1, h2, h3, h4⟩ := this
      refine ⟨h1, by rw [h2, hs], by rw [h3, hs], ?_⟩
      rw [h4, hs]
      show min 255 ((stdinPush g ch rest s.dev).unread.length + rest.length) = _
      rw [unread_stdinPush]
      split
      · rw [List.length_append, List.length_singleton]
        omega
      · omega

theorem Console.run_conserved (g : Globals) (os : List ConsoleOp) :
    (after (Console.step g) {} os).Conserved :=
  after_keeps (Console.step_conserved g) ⟨rfl, rfl⟩ os

/-- Nothing is lost so far: what was popped is the beginning of the stream, and
the rest of it is in the buffer or about to be pushed. -/
def Console.Lossless (s : Console) : Prop := s.popped ++ s.dev.unread ++ s.chunk = s.stream

theorem Console.lossless_iff (s : Console) (h : s.Conserved) :
    s.Lossless ↔ ∀ p ∈ s.pushed, p.2 = true := by
  unfold Console.Lossless
  rw [h.kept, ← h.stream, List.append_left_inj]
  constructor
  · intro he
    have hl : (s.pushed.filter Prod.snd).length = s.pushed.length := by
      simpa [Console.kept] using congrArg List.length he
    exact List.length_filter_eq_length_iff.1 hl
  · intro ha
    rw [Console.kept, List.filter_eq_self.2 ha]

/-- In every order of reads, pushes and pops: the popped bytes and then the
unread ones are the stream so far without the bytes that were pushed while 255
bytes were unread and without those still to be pushed. So the popped bytes are
a prefix of the stream, and none is lost, exactly when no push found the buffer
full. -/
theorem console_conserved (g : Globals) (os : List ConsoleOp) :
    let s := after (Console.step g) {} os
    s.pushed.map Prod.fst ++ s.chunk = s.stream ∧
      s.popped ++ s.dev.unread = (s.pushed.filter Prod.snd).map Prod.fst ∧
      (s.Lossless ↔ ∀ p ∈ s.pushed, p.2 = true) ∧
      (s.Lossless → s.popped <+: s.stream) := by
  have h := Console.run_conserved g os
  refine ⟨h.stream, h.kept, Console.lossless_iff _ h, fun hl => ?_⟩
  exact ⟨_, by rw [← List.append_assoc]; exact hl⟩

/-- A chunk of 256 bytes that arrives before the guest has read anything: its
last byte is dropped. -/
theorem Console.full_chunk (g : Globals) {buf : List UInt8} (hb : buf.length = 256) :
    let s := after (Console.step g) {} (.read buf :: List.replicate 256 .push)
    s.chunk = [] ∧ s.popped = [] ∧ s.stream = buf ∧ s.dev.unread.length = 255 ∧ ¬ s.Lossless := by
  have hs : Console.step g {} (.read buf) = { chunk := buf, stream := buf } := by
    rw [Console.step_read, if_pos ⟨rfl, by omega⟩]
    rfl
  have h := Console.push_chunk g { chunk := buf, stream := buf }
  have hu : ({} : Devices).unread.length = 0 := rfl
  simp only [hb, hu] at h
  rw [after_cons, hs]
  obtain ⟨h1, h2, h3, h4⟩ := h
  refine ⟨h1, h3, h2, by rw [h4]; omega, fun hl => ?_⟩
  have := congrArg List.length hl
  rw [h1, h2, h3, List.length_append, List.length_append, h4, hb] at this
  simp at this

/-- `read` fills its 256-byte buffer before the guest has read anything. -/
theorem console_loses_byte :
    let g : Globals := ⟨false, false, 1, fun _ => [], 4⟩
    let s := after (Console.step g) {} (.read (List.replicate 256 0x61) :: List.replicate 256 .push)
    s.chunk = [] ∧ s.popped = [] ∧ s.stream.length = 256 ∧ s.dev.unread.length = 255 ∧
      ¬ s.Lossless := by
  obtain ⟨h1, h2, h3, h4, h5⟩ :=
    Console.full_chunk ⟨false, false, 1, fun _ => [],
      4⟩ (List.length_replicate (n := 256) (a := 0x61))
  exact ⟨h1, h2, by rw [h3, List.length_replicate], h4, h5⟩

end MiniKvm.Vmm
