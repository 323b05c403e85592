import MiniKvm.Vmm.Getchar

/-!
# What an IN leaves for the guest

The bytes at `data_offset` keep what an earlier exit left there until a handler
overwrites them (kvm-vmm-x86/src/main.c:1955-1984, 2058-2116, 2236-2266,
2318-2344). COM1 and the legacy ports fill all bytes of an IN, and port 0x500
does for a Linux guest; for the others `handle_hypercall_in` fills the first
byte only: `in_data_determined_iff`.
-/
namespace MiniKvm.Vmm

/-- The same exit, with anything in the data area. -/
structure SameRequest (e e' : IoExit) : Prop where
  out : e'.out = e.out
  port : e'.port = e.port
  regs : e'.regs = e.regs
  size : e'.data.length = e.data.length

theorem logIo_sameRequest (g : Globals) (ctx : Vcpu) {e e' : IoExit} (h : SameRequest e e')
    (d : Devices) : logIo g ctx e' d = logIo g ctx e d := by
  unfold logIo
  rw [h.out, h.port, h.size]

/-- What `handle_hypercall_in` puts in the first byte. -/
def hypercallByte (ctx : Vcpu) : UInt8 := if ctx.pendingGetchar then getcharByte ctx else 0

theorem handleHypercallIn_data (g : Globals) (ctx : Vcpu) (data : List UInt8) (d : Devices) :
    (handleHypercallIn g ctx data d).data = data.set 0 (hypercallByte ctx) := by
  unfold handleHypercallIn hypercallByte
  split <;> rfl

section In

variable (g : Globals) {ctx : Vcpu} {e : IoExit} (d : Devices)

theorem handleIo_in_hypercall (ho : e.out = false) (hp : e.port = HYPERCALL_PORT)
    (hl : ctx.linuxGuest = false) :
    (handleIo g ctx e d).data = e.data.set 0 (hypercallByte ctx) := by
  unfold handleIo
  simp only [ho, hp, hl, if_true, Bool.false_eq_true, if_false]
  exact handleHypercallIn_data g ctx e.data _

/-- Every other IN is a function of the port, the size and the devices. -/
theorem handleIo_in_other {e' : IoExit} (h : SameRequest e e') (ho : e.out = false)
    (hp : ¬ (e.port = HYPERCALL_PORT ∧ ctx.linuxGuest = false)) :
    (handleIo g ctx e' d).data = (handleIo g ctx e d).data := by
  unfold handleIo
  simp only [logIo_sameRequest g ctx h, h.out, h.port, h.size, ho, Bool.false_eq_true, if_false]
  by_cases hport : e.port = HYPERCALL_PORT
  · have hl : ctx.linuxGuest = true := by
      cases hl : ctx.linuxGuest with
      | false => exact absurd ⟨hport, hl⟩ hp
      | true => rfl
    simp only [if_pos hport, hl, if_true]
  · simp only [if_neg hport]

end In

/-- A byte behind the first one, changed. -/
def IoExit.smudge (e : IoExit) : IoExit :=
  { e with
    data := e.data.set 1 (e.data.getD 1 0 + 1)
    sized := by rw [List.length_set]; exact e.sized }

theorem IoExit.smudge_sameRequest (e : IoExit) : SameRequest e e.smudge :=
  ⟨rfl, rfl, rfl, List.length_set ..⟩

/-- Whatever was in the data area before an IN, the guest receives the same
bytes, exactly unless it is an IN of more than one byte from port 0x500 by a
guest that is not Linux. -/
theorem in_data_determined_iff (g : Globals) (ctx : Vcpu) (d : Devices) {e : IoExit}
    (ho : e.out = false) :
    (∀ e', SameRequest e e' → (handleIo g ctx e' d).data = (handleIo g ctx e d).data) ↔
      ¬ (e.port = HYPERCALL_PORT ∧ ctx.linuxGuest = false ∧ e.data.length ≠ 1) := by
  constructor
  · rintro hall ⟨hp, hl, hlen⟩
    have h1 : 1 < e.data.length := by
      have hs := e.sized
      omega
    have heq := hall e.smudge e.smudge_sameRequest
    rw [handleIo_in_hypercall g d ho hp hl,
      handleIo_in_hypercall g (e := e.smudge) d ho hp hl] at heq
    have hbyte := congrArg (fun l => l[1]?) heq
    simp [IoExit.smudge, h1] at hbyte
  · intro hn e' h
    by_cases hp : e.port = HYPERCALL_PORT ∧ ctx.linuxGuest = false
    · obtain ⟨hport, hl⟩ := hp
      have h1 : e.data.length = 1 := by
        by_contra hne
        exact hn ⟨hport, hl, hne⟩
      rw [handleIo_in_hypercall g d (h.out.trans ho) (h.port.trans hport) hl,
        handleIo_in_hypercall g d ho hport hl]
      obtain ⟨a, ha⟩ := List.length_eq_one_iff.1 h1
      obtain ⟨b, hb⟩ := List.length_eq_one_iff.1 (h.size.trans h1)
      rw [ha, hb]
      rfl
    · exact handleIo_in_other g d h ho hp

/-- A two-byte IN from port 0x500. -/
def inWord (stale : UInt8) : IoExit :=
  { out := false, port := 0x500, data := [0, stale], sized := Or.inr (Or.inl rfl) }

theorem in_data_determined_iff_rbr :
    (∀ e', SameRequest { out := false, port := 0x3f8, data := [0] } e' →
      (handleIo ⟨false, false, 1, fun _ => [], 3⟩ {} e' {}).data = [0]) ↔
        ¬ ((0x3f8 : UInt16) = HYPERCALL_PORT ∧ false = false ∧ [(0 : UInt8)].length ≠ 1) :=
  in_data_determined_iff ⟨false, false, 1, fun _ => [], 3⟩ {} {} rfl

/-- The second byte is the one that was there before. -/
theorem in_word_stale :
    ¬ ∀ (g : Globals) (ctx : Vcpu) (d : Devices) (e e' : IoExit), e.out = false →
      SameRequest e e' → (handleIo g ctx e' d).data = (handleIo g ctx e d).data := by
  intro hall
  have heq := hall ⟨false, false, 1, fun _ => [], 3⟩ {} {} (inWord 0) (inWord 1) rfl
    ⟨rfl, rfl, rfl, rfl⟩
  exact absurd heq (by decide)

end MiniKvm.Vmm
