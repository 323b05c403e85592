import MiniKvm.Vmm.InData
import MiniKvm.Vmm.UartBlock

/-!
# String port I/O

A REP INS or OUTS exit carries `io.count` elements, one behind the other at
`data_offset`. `handle_io` (kvm-vmm-x86/src/main.c:2271-2344) never reads
`io.count`: it does what it does for the first element and leaves the others.

`string_io_iff`: that has the effect of one exit for each element, from any
devices, exactly when there is one element, or nothing is logged and the other
elements would repeat what the first one did.
-/
namespace MiniKvm.Vmm

open Model16550

/-! ## The exits -/

/-- `kvm_run->io` of a string instruction: the elements at `data_offset`. -/
structure StringExit where
  out : Bool
  port : UInt16
  first : List UInt8
  rest : List (List UInt8)
  regs : Option Regs := some {}
  sized : first.length = 1 ∨ first.length = 2 ∨ first.length = 4 := by decide
  same : ∀ c ∈ rest, c.length = first.length := by decide

namespace StringExit

/-- What `handle_io` sees: `size` bytes at `data_offset`. -/
def head (e : StringExit) : IoExit :=
  { out := e.out, port := e.port, data := e.first, regs := e.regs, sized := e.sized }

/-- Exits with count 1 for the elements after the first. -/
def tail (e : StringExit) : List IoExit :=
  e.rest.pmap (fun c hc => { e.head with data := c, sized := by rw [hc]; exact e.sized }) e.same

end StringExit

/-- `handle_io` on a string exit; the bytes are those at `data_offset` after it.
mirrors kvm-vmm-x86/src/main.c:2271-2344 -/
def handleStringIo (g : Globals) (ctx : Vcpu) (e : StringExit) (d : Devices) : IoResult :=
  let r := handleIo g ctx e.head d
  { r with data := r.data ++ e.rest.flatten }

/-- One exit after the other. -/
def handleEach (g : Globals) : Vcpu → List IoExit → Devices → IoResult
  | ctx, [], d => ⟨0, ctx, [], d⟩
  | ctx, e :: es, d =>
    let r := handleIo g ctx e d
    let t := handleEach g r.ctx es r.dev
    { t with data := r.data ++ t.data }

/-- The same state of the vCPU, the same devices and the same bytes for the guest. -/
structure SameEffect (r r' : IoResult) : Prop where
  ctx : r.ctx = r'.ctx
  data : r.data = r'.data
  dev : SameDev r.dev r'.dev

/-- The elements after the first would change nothing. -/
def StringExit.RestIdle (g : Globals) (ctx : Vcpu) (e : StringExit) : Prop :=
  if e.out then
    if e.port = HYPERCALL_PORT then
      ctx.linuxGuest = true ∨ ∀ regs, e.regs = some regs →
        regs.rax.toUInt8 ≠ HC_PUTCHAR ∧ regs.rax.toUInt8 ≠ HC_GETCHAR
    else if isUartPort e.port then Repeats g e.port e.first e.rest
    else
      (e.port = 0x92 →
        (e.rest.getLastD e.first).headD 0 ||| 0x02 = e.first.headD 0 ||| 0x02) ∧
      (e.port = 0x70 → (e.rest.getLastD e.first).headD 0 = e.first.headD 0)
  else if e.port = HYPERCALL_PORT ∧ ctx.linuxGuest = false then ∀ c ∈ e.rest, c.headD 0 = 0
  else
    (isUartPort e.port = true → 6 ≤ offset e.port) ∧ e.port ≠ 0x92 ∧
      ∀ c ∈ e.rest, ∀ b ∈ c, b = 0

/-! ## One exit after the other -/

namespace StringExit

variable (e : StringExit)

theorem mem_tail {x : IoExit} (h : x ∈ e.tail) :
    x.out = e.out ∧ x.port = e.port ∧ x.regs = e.regs ∧ x.data ∈ e.rest := by
  obtain ⟨c, hc, rfl⟩ := List.mem_pmap.1 h
  exact ⟨rfl, rfl, rfl, hc⟩

theorem tail_data : e.tail.map IoExit.data = e.rest := by
  unfold tail
  rw [List.map_pmap]
  exact (List.pmap_eq_map (f := fun c => c) e.same).trans (List.map_id' e.rest)

end StringExit

/-- Exits that leave the context and the data area alone and act on the devices
through their bytes. -/
theorem handleEach_out {g : Globals} {ctx : Vcpu} {F : List UInt8 → Devices → Devices}
    {es : List IoExit}
    (h : ∀ x ∈ es, ∀ d, (handleIo g ctx x d).ctx = ctx ∧ (handleIo g ctx x d).data = x.data ∧
      (handleIo g ctx x d).dev = F x.data d) (d : Devices) :
    (handleEach g ctx es d).ctx = ctx ∧
      (handleEach g ctx es d).data = (es.map IoExit.data).flatten ∧
      (handleEach g ctx es d).dev = (es.map IoExit.data).foldl (fun d c => F c d) d := by
  induction es generalizing d with
  | nil => exact ⟨rfl, rfl, rfl⟩
  | cons x es ih =>
    obtain ⟨h1, h2, h3⟩ := h x List.mem_cons_self d
    obtain ⟨i1, i2, i3⟩ := ih (fun x' hx' => h x' (List.mem_cons_of_mem _ hx')) (F x.data d)
    rw [handleEach]
    simp only [h1, h2, h3]
    exact ⟨i1, congrArg (x.data ++ ·) i2, i3⟩

/-- Exits that leave the context and the devices alone. -/
theorem handleEach_in {g : Globals} {ctx : Vcpu} {d : Devices} {D : List UInt8 → List UInt8}
    {es : List IoExit}
    (h : ∀ x ∈ es, (handleIo g ctx x d).ctx = ctx ∧ (handleIo g ctx x d).data = D x.data ∧
      (handleIo g ctx x d).dev = d) :
    (handleEach g ctx es d).ctx = ctx ∧
      (handleEach g ctx es d).data = (es.map IoExit.data).flatMap D ∧
      (handleEach g ctx es d).dev = d := by
  induction es with
  | nil => exact ⟨rfl, rfl, rfl⟩
  | cons x es ih =>
    obtain ⟨h1, h2, h3⟩ := h x List.mem_cons_self
    obtain ⟨i1, i2, i3⟩ := ih fun x' hx' => h x' (List.mem_cons_of_mem _ hx')
    rw [handleEach]
    simp only [h1, h2, h3]
    exact ⟨i1, congrArg (D x.data ++ ·) i2, i3⟩

/-- The exits after the first do nothing that the first did not. -/
structure Idle (g : Globals) (e : StringExit) (r : IoResult) : Prop where
  ctx : (handleEach g r.ctx e.tail r.dev).ctx = r.ctx
  data : (handleEach g r.ctx e.tail r.dev).data = e.rest.flatten
  dev : SameDev (handleEach g r.ctx e.tail r.dev).dev r.dev

theorem sameEffect_iff (g : Globals) (ctx : Vcpu) (e : StringExit) (d : Devices) :
    SameEffect (handleEach g ctx (e.head :: e.tail) d) (handleStringIo g ctx e d) ↔
      Idle g e (handleIo g ctx e.head d) := by
  constructor
  · exact fun h => ⟨h.ctx, List.append_cancel_left h.data, h.dev⟩
  · exact fun h => ⟨h.ctx, congrArg (_ ++ ·) h.data, h.dev⟩

/-! ## Output only grows -/

section Stdout

variable (g : Globals) (ctx : Vcpu)

theorem stdout_vcpuPrintf (text : List UInt8) (d : Devices) :
    d.stdout.length + text.length ≤ (vcpuPrintf g ctx text d).stdout.length := by
  show _ ≤ (d.stdout ++ (_ ++ text)).length
  rw [List.length_append, List.length_append]
  omega

theorem stdout_le_vcpuPrintf (text : List UInt8) (d : Devices) :
    d.stdout.length ≤ (vcpuPrintf g ctx text d).stdout.length := by
  have := stdout_vcpuPrintf g ctx text d
  omega

theorem stdout_lt_vcpuPutchar (ch : UInt8) (d : Devices) :
    d.stdout.length < (vcpuPutchar g ctx ch d).stdout.length := by
  unfold vcpuPutchar
  simp only [List.length_append]
  split
  · simp only [List.length_append, List.length_singleton]
    omega
  · exact Nat.lt_succ_self _

theorem stdout_le_logHypercall (regs : Regs) (d : Devices) :
    d.stdout.length ≤ (logHypercall g ctx regs d).stdout.length := by
  unfold logHypercall
  split
  · simp only
    split
    · exact stdout_le_vcpuPrintf g ctx _ _
    · exact Nat.le_refl _
  · exact Nat.le_refl _

theorem stdout_le_handleHypercallOut (regs : Regs) (data : List UInt8) (d : Devices) :
    d.stdout.length ≤ (handleHypercallOut g ctx regs data d).dev.stdout.length := by
  refine Nat.le_trans (stdout_le_logHypercall g ctx regs d) ?_
  unfold handleHypercallOut
  generalize logHypercall g ctx regs d = d'
  simp only [keyboardBufferPop_snd]
  split
  · simp only
    split
    · exact stdout_le_vcpuPrintf g ctx _ _
    · exact Nat.le_refl _
  · split
    · exact Nat.le_of_lt (stdout_lt_vcpuPutchar g ctx _ _)
    · split
      · exact Nat.le_refl _
      · simp only
        split
        · exact stdout_le_vcpuPrintf g ctx _ _
        · exact Nat.le_refl _

theorem stdout_le_handleHypercallIn (data : List UInt8) (d : Devices) :
    d.stdout.length ≤ (handleHypercallIn g ctx data d).dev.stdout.length := by
  unfold handleHypercallIn
  split
  all_goals
    simp only
    split
    · split
      · exact stdout_le_vcpuPrintf g ctx _ _
      · exact Nat.le_refl _
    · exact Nat.le_refl _

theorem stdout_uartReads (port : UInt16) (n : Nat) (d : Devices) :
    (uartReads port n d).2.stdout = d.stdout := by
  induction n generalizing port d with
  | zero => rfl
  | succ n ih =>
    have h1 : (uartRead port d).2.stdout = d.stdout := by
      rw [uartRead_snd, keyboardBufferPop_snd]
      split <;> rfl
    exact (ih (port + 1) _).trans h1

theorem stdout_logIo_le (e : IoExit) (d : Devices) :
    (logIo g ctx e d).stdout.length ≤ (handleIo g ctx e d).dev.stdout.length := by
  unfold handleIo
  generalize logIo g ctx e d = d'
  simp only
  split
  · split
    · split
      · exact Nat.le_refl _
      · split
        · exact Nat.le_refl _
        · exact stdout_le_handleHypercallOut g ctx _ _ _
    · split
      · exact stdout_le_uartWrites g _ _ _
      · show _ ≤ (miscPortOut _ _ _).stdout.length
        unfold miscPortOut
        simp only
        split
        · exact Nat.le_refl _
        · split <;> exact Nat.le_refl _
  · split
    · split
      · exact Nat.le_refl _
      · exact stdout_le_handleHypercallIn g ctx _ _
    · split
      · simp only [stdout_uartReads]
        exact Nat.le_refl _
      · exact Nat.le_refl _

theorem stdout_le_handleIo (e : IoExit) (d : Devices) :
    d.stdout.length ≤ (handleIo g ctx e d).dev.stdout.length := by
  refine Nat.le_trans ?_ (stdout_logIo_le g ctx e d)
  unfold logIo
  split
  · simp only
    split
    · exact stdout_le_vcpuPrintf g ctx _ _
    · exact Nat.le_refl _
  · exact Nat.le_refl _

/-- The log line of an exit. -/
theorem stdout_lt_handleIo_log {e : IoExit} {d : Devices} (hv : g.verbose = true)
    (hd : d.ioCount < 100) : d.stdout.length < (handleIo g ctx e d).dev.stdout.length := by
  refine Nat.lt_of_lt_of_le ?_ (stdout_logIo_le g ctx e d)
  unfold logIo
  rw [if_pos hv]
  simp only
  rw [if_pos hd]
  refine Nat.lt_of_lt_of_le ?_ (stdout_vcpuPrintf g ctx _ _)
  have hio : (ascii "IO[").length = 3 := rfl
  simp only [List.length_append, hio]
  omega

theorem stdout_le_handleEach (es : List IoExit) (d : Devices) :
    d.stdout.length ≤ (handleEach g ctx es d).dev.stdout.length := by
  induction es generalizing ctx d with
  | nil => exact Nat.le_refl _
  | cons x es ih => exact Nat.le_trans (stdout_le_handleIo g ctx x d) (ih _ _)

end Stdout

/-- An exit after the first that prints something. -/
theorem not_idle_of_stdout (g : Globals) {e : StringExit} {r : IoResult} {x : IoExit}
    {es : List IoExit} (hx : e.tail = x :: es)
    (h : r.dev.stdout.length < (handleIo g r.ctx x r.dev).dev.stdout.length) : ¬ Idle g e r := by
  intro hidle
  have hs := hidle.dev.stdout
  rw [hx, handleEach] at hs
  have hle := stdout_le_handleEach g (handleIo g r.ctx x r.dev).ctx es
    (handleIo g r.ctx x r.dev).dev
  rw [hs] at hle
  omega

/-- An exit after the first that takes the last unread byte. -/
theorem not_idle_of_unread {g : Globals} (hv : g.verbose = false) {e : StringExit} {r : IoResult}
    {x : IoExit} {es : List IoExit} (hx : e.tail = x :: es)
    (h : (handleIo g r.ctx x r.dev).dev.unread = []) (hr : r.dev.unread ≠ []) : ¬ Idle g e r := by
  have hnil : ∀ (es : List IoExit) ctx (d : Devices), d.unread = [] →
      (handleEach g ctx es d).dev.unread = [] := by
    intro es
    induction es with
    | nil => exact fun _ _ hd => hd
    | cons x es ih => exact fun ctx d hd => ih _ _ (handleIo_unread hv ctx hd x)
  intro hidle
  have hu := hidle.dev.unread
  rw [hx, handleEach] at hu
  exact hr (hu.symm.trans (hnil es _ _ h))

/-! ## OUT -/

/-- An exit for another element of the same instruction. -/
structure Like (e : StringExit) (x : IoExit) : Prop where
  out : x.out = e.out
  port : x.port = e.port
  regs : x.regs = e.regs

theorem StringExit.like_head (e : StringExit) : Like e e.head := ⟨rfl, rfl, rfl⟩

theorem StringExit.like_tail (e : StringExit) {x : IoExit} (h : x ∈ e.tail) : Like e x :=
  have hm := e.mem_tail h
  ⟨hm.1, hm.2.1, hm.2.2.1⟩

theorem handleIo_out_data (g : Globals) (ctx : Vcpu) {x : IoExit} (ho : x.out = true)
    (d : Devices) : (handleIo g ctx x d).data = x.data := by
  have hh : ∀ regs d', (handleHypercallOut g ctx regs x.data d').data = x.data := by
    intro regs d'
    unfold handleHypercallOut
    simp only
    split
    · rfl
    · split
      · rfl
      · split <;> rfl
  unfold handleIo
  simp only [ho, if_true]
  split
  · split
    · rfl
    · split
      · rfl
      · exact hh _ _
  · split <;> rfl

/-- OUTs that act on the devices alone, each through its own bytes. -/
theorem idle_out_iff {g : Globals} {ctx : Vcpu} {e : StringExit}
    {F : List UInt8 → Devices → Devices} (ho : e.out = true)
    (h : ∀ x, Like e x → ∀ d, (handleIo g ctx x d).ctx = ctx ∧
      (handleIo g ctx x d).dev = F x.data d) (d : Devices) :
    Idle g e (handleIo g ctx e.head d) ↔
      SameDev (e.rest.foldl (fun d c => F c d) (F e.first d)) (F e.first d) := by
  obtain ⟨h1, h2⟩ := h e.head e.like_head d
  have h2 : (handleIo g ctx e.head d).dev = F e.first d := h2
  have hout : ∀ x ∈ e.tail, ∀ d, (handleIo g ctx x d).ctx = ctx ∧
      (handleIo g ctx x d).data = x.data ∧ (handleIo g ctx x d).dev = F x.data d := by
    intro x hx d
    have hl := e.like_tail hx
    exact ⟨(h x hl d).1, handleIo_out_data g ctx (hl.out.trans ho) d, (h x hl d).2⟩
  obtain ⟨a1, a2, a3⟩ := handleEach_out hout (F e.first d)
  rw [e.tail_data] at a2 a3
  rw [← a3]
  constructor
  · intro hi
    have := hi.dev
    rwa [h1, h2] at this
  · intro hs
    refine ⟨?_, ?_, ?_⟩
    · rw [h1, h2, a1]
    · rw [h1, h2, a2]
    · rwa [h1, h2]

theorem flatMap_eq_flatten_iff {D : List UInt8 → List UInt8} (hD : ∀ c, (D c).length = c.length)
    (cs : List (List UInt8)) : cs.flatMap D = cs.flatten ↔ ∀ c ∈ cs, D c = c := by
  induction cs with
  | nil => exact ⟨fun _ _ hc => absurd hc List.not_mem_nil, fun _ => rfl⟩
  | cons c cs ih =>
    rw [List.flatMap_cons, List.flatten_cons, List.forall_mem_cons, ← ih]
    constructor
    · exact fun h => List.append_inj h (hD c)
    · rintro ⟨h1, h2⟩
      rw [h1, h2]

/-- Exits that leave the context and the devices alone. -/
theorem idle_still_iff {g : Globals} {e : StringExit} {r : IoResult}
    {D : List UInt8 → List UInt8} (hD : ∀ c, (D c).length = c.length)
    (h : ∀ x, Like e x → (handleIo g r.ctx x r.dev).ctx = r.ctx ∧
      (handleIo g r.ctx x r.dev).data = D x.data ∧ (handleIo g r.ctx x r.dev).dev = r.dev) :
    Idle g e r ↔ ∀ c ∈ e.rest, D c = c := by
  obtain ⟨a1, a2, a3⟩ := handleEach_in fun x hx => h x (e.like_tail hx)
  rw [e.tail_data] at a2
  rw [← flatMap_eq_flatten_iff hD, ← a2]
  constructor
  · exact fun hi => hi.data
  · intro hd
    refine ⟨a1, hd, ?_⟩
    rw [a3]
    exact SameDev.refl _

/-- When a later act covers an earlier one, the last one counts. -/
theorem foldl_covers {S A : Type} {F : A → S → S} (h : ∀ a b s, F a (F b s) = F a s) (a : A)
    (as : List A) (s : S) : as.foldl (fun s a => F a s) (F a s) = F (as.getLastD a) s := by
  induction as generalizing a s with
  | nil => rfl
  | cons b as ih => rw [List.foldl_cons, h, ih, List.getLastD_cons]

theorem offset_le {port : UInt16} (h : isUartPort port = true) : offset port ≤ 7 := by
  unfold isUartPort at h
  unfold offset
  simp only [Bool.and_eq_true, decide_eq_true_eq, ge_iff_le, UInt16.le_iff_toNat_le] at h
  rw [UInt16.toNat_sub]
  simp only [UInt16.reduceToNat] at h ⊢
  omega

section Out

variable {g : Globals} (hv : g.verbose = false) (ctx : Vcpu) {e : StringExit} (ho : e.out = true)

include hv ho

theorem idle_uart_iff (hp : isUartPort e.port = true) {c : List UInt8} {cs : List (List UInt8)}
    (hr : e.rest = c :: cs) :
    (∀ d, Idle g e (handleIo g ctx e.head d)) ↔ Repeats g e.port e.first e.rest := by
  have hsmall : offset e.port + e.first.length ≤ 65536 := by
    have h1 := offset_le hp
    have h2 := e.sized
    omega
  have hlen : ∀ c' ∈ c :: cs, c'.length = e.first.length := by
    rw [← hr]
    exact e.same
  rw [hr, ← writeElems_same_iff g hsmall hlen]
  refine forall_congr' fun d => ?_
  rw [idle_out_iff (F := uartWrites g e.port) ho, hr]
  · rfl
  · intro x hx d
    obtain ⟨h1, h2⟩ := handleIo_uart hv ctx d (hx.out.trans ho) (by rw [hx.port]; exact hp)
    rw [hx.port] at h1
    exact ⟨h2, h1⟩

theorem idle_misc_iff (hh : e.port ≠ HYPERCALL_PORT) (hp : isUartPort e.port = false) :
    (∀ d, Idle g e (handleIo g ctx e.head d)) ↔
      (e.port = 0x92 →
        (e.rest.getLastD e.first).headD 0 ||| 0x02 = e.first.headD 0 ||| 0x02) ∧
      (e.port = 0x70 → (e.rest.getLastD e.first).headD 0 = e.first.headD 0) := by
  have hact : ∀ x, Like e x → ∀ d, (handleIo g ctx x d).ctx = ctx ∧
      (handleIo g ctx x d).dev = miscPortOut e.port x.data d := by
    intro x hx d
    unfold handleIo
    simp [logIo_of_quiet hv, hx.out.trans ho, hx.port, hh, hp]
  have hcovers : ∀ (a b : List UInt8) d,
      miscPortOut e.port a (miscPortOut e.port b d) = miscPortOut e.port a d := by
    intro a b d
    unfold miscPortOut
    simp only
    split
    · rfl
    · split <;> rfl
  simp only [idle_out_iff (F := miscPortOut e.port) ho hact, foldl_covers hcovers]
  unfold miscPortOut
  simp only
  by_cases h92 : e.port = 0x92
  · simp only [h92, if_true, forall_const]
    constructor
    · exact fun h => ⟨(h {}).port92, fun h70 => absurd h70 (by decide)⟩
    · exact fun h d => ⟨rfl, rfl, h.1, rfl, rfl, rfl⟩
  · by_cases h70 : e.port = 0x70
    · simp only [if_neg h92, if_pos h70]
      constructor
      · exact fun h => ⟨fun hp => absurd hp h92, fun _ => (h {}).cmosIndex⟩
      · exact fun h d => ⟨rfl, h.2 h70, rfl, rfl, rfl, rfl⟩
    · simp only [if_neg h92, if_neg h70]
      exact ⟨fun _ => ⟨fun hp => absurd hp h92, fun hp => absurd hp h70⟩, fun _ d => SameDev.refl d⟩

/-- An OUT to port 0x500. -/
theorem handleIo_hypercall_out (hp : e.port = HYPERCALL_PORT) {x : IoExit} (hx : Like e x)
    (ctx : Vcpu) (d : Devices) :
    handleIo g ctx x d =
      if ctx.linuxGuest then ⟨0, ctx, x.data, d⟩
      else match e.regs with
        | none => ⟨-1, ctx, x.data, d⟩
        | some regs => handleHypercallOut g ctx regs x.data d := by
  unfold handleIo
  cases hr : e.regs with
  | none =>
    simp only [logIo_of_quiet hv, hx.out.trans ho, hx.port.trans hp, hx.regs.trans hr, if_true]
  | some regs =>
    simp only [logIo_of_quiet hv, hx.out.trans ho, hx.port.trans hp, hx.regs.trans hr, if_true]

/-- The other hypercalls act on the context alone, and a second time not at all. -/
theorem hypercall_out_still (hp : e.port = HYPERCALL_PORT)
    (h : ctx.linuxGuest = true ∨ ∀ regs, e.regs = some regs →
      regs.rax.toUInt8 ≠ HC_PUTCHAR ∧ regs.rax.toUInt8 ≠ HC_GETCHAR) :
    ∃ f : Vcpu → Vcpu, (∀ c, f (f c) = f c ∧ (f c).linuxGuest = c.linuxGuest) ∧
      ∀ x, Like e x → ∀ c : Vcpu, c.linuxGuest = ctx.linuxGuest → ∀ d,
        (handleIo g c x d).ctx = f c ∧ (handleIo g c x d).data = x.data ∧
          (handleIo g c x d).dev = d := by
  by_cases hl : ctx.linuxGuest = true
  · refine ⟨id, fun _ => ⟨rfl, rfl⟩, fun x hx c hc d => ?_⟩
    rw [handleIo_hypercall_out hv ho hp hx, if_pos (hc.trans hl)]
    exact ⟨rfl, rfl, rfl⟩
  · have h := h.resolve_left hl
    cases hr : e.regs with
    | none =>
      refine ⟨id, fun _ => ⟨rfl, rfl⟩, fun x hx c hc d => ?_⟩
      rw [handleIo_hypercall_out hv ho hp hx, if_neg (by rw [hc]; exact hl), hr]
      exact ⟨rfl, rfl, rfl⟩
    | some regs =>
      obtain ⟨h1, h2⟩ := h regs hr
      by_cases h0 : regs.rax.toUInt8 = HC_EXIT
      · refine ⟨fun c => { c with running := false }, fun _ => ⟨rfl, rfl⟩, fun x hx c hc d => ?_⟩
        rw [handleIo_hypercall_out hv ho hp hx, if_neg (by rw [hc]; exact hl), hr]
        simp [handleHypercallOut, logHypercall_of_quiet hv, hv, h0]
      · refine ⟨id, fun _ => ⟨rfl, rfl⟩, fun x hx c hc d => ?_⟩
        rw [handleIo_hypercall_out hv ho hp hx, if_neg (by rw [hc]; exact hl), hr]
        simp [handleHypercallOut, logHypercall_of_quiet hv, hv, h0, h1, h2]

/-- PUTCHAR prints once for each element. -/
theorem not_idle_of_putchar (hp : e.port = HYPERCALL_PORT) (hl : ¬ ctx.linuxGuest = true)
    {regs : Regs} (hr : e.regs = some regs) (ha : regs.rax.toUInt8 = HC_PUTCHAR) {x : IoExit}
    {es : List IoExit} (ht : e.tail = x :: es) (d : Devices) :
    ¬ Idle g e (handleIo g ctx e.head d) := by
  have hput : ∀ y, Like e y → ∀ d, handleIo g ctx y d =
      ⟨0, ctx, y.data, vcpuPutchar g ctx regs.rbx.toUInt8 d⟩ := by
    intro y hy d
    rw [handleIo_hypercall_out hv ho hp hy, if_neg hl, hr]
    unfold handleHypercallOut
    simp only [logHypercall_of_quiet hv, ha]
    rfl
  refine not_idle_of_stdout g ht ?_
  rw [hput e.head e.like_head]
  simp only
  rw [hput x (e.like_tail (by rw [ht]; exact List.mem_cons_self))]
  exact stdout_lt_vcpuPutchar g ctx _ _

/-- GETCHAR pops once for each element. -/
theorem not_idle_of_getchar (hp : e.port = HYPERCALL_PORT) (hl : ¬ ctx.linuxGuest = true)
    {regs : Regs} (hr : e.regs = some regs) (ha : regs.rax.toUInt8 = HC_GETCHAR) {x : IoExit}
    {es : List IoExit} (ht : e.tail = x :: es) {d : Devices} (hd : d.unread.length = 2) :
    ¬ Idle g e (handleIo g ctx e.head d) := by
  have hget : ∀ y, Like e y → ∀ c : Vcpu, c.linuxGuest = ctx.linuxGuest → ∀ d,
      (handleIo g c y d).ctx.linuxGuest = c.linuxGuest ∧
        (handleIo g c y d).dev.unread = d.unread.tail := by
    intro y hy c hc d
    rw [handleIo_hypercall_out hv ho hp hy, if_neg (by rw [hc]; exact hl), hr]
    unfold handleHypercallOut
    simp only [logHypercall_of_quiet hv, ha]
    exact ⟨rfl, unread_pop d⟩
  obtain ⟨h1, h2⟩ := hget e.head e.like_head ctx rfl d
  obtain ⟨-, h3⟩ := hget x (e.like_tail (by rw [ht]; exact List.mem_cons_self)) _ h1
    (handleIo g ctx e.head d).dev
  have hone : (handleIo g ctx e.head d).dev.unread.length = 1 := by
    rw [h2, List.length_tail, hd]
  refine not_idle_of_unread hv ht ?_ fun hn => ?_
  · refine List.eq_nil_of_length_eq_zero ?_
    rw [h3, List.length_tail, hone]
  · rw [hn] at hone
    cases hone

theorem idle_hypercall_out_iff (hp : e.port = HYPERCALL_PORT) {x : IoExit} {es : List IoExit}
    (ht : e.tail = x :: es) :
    (∀ d, Idle g e (handleIo g ctx e.head d)) ↔
      ctx.linuxGuest = true ∨ ∀ regs, e.regs = some regs →
        regs.rax.toUInt8 ≠ HC_PUTCHAR ∧ regs.rax.toUInt8 ≠ HC_GETCHAR := by
  constructor
  · intro hall
    by_contra hn
    obtain ⟨hl, hn⟩ := not_or.1 hn
    refine hn fun regs hr => ⟨fun ha => ?_, fun ha => ?_⟩
    · exact not_idle_of_putchar hv ctx ho hp hl hr ha ht {} (hall {})
    · let two : Devices := keyboardBufferPush 0 (keyboardBufferPush 0 {})
      have htwo : two.unread.length = 2 := by decide
      exact not_idle_of_getchar hv ctx ho hp hl hr ha ht htwo (hall two)
  · intro h d
    obtain ⟨f, hf, hstill⟩ := hypercall_out_still hv ctx ho hp h
    obtain ⟨h1, -, h3⟩ := hstill e.head e.like_head ctx rfl d
    refine (idle_still_iff (D := fun c => c) (fun _ => rfl) fun y hy => ?_).2 fun _ _ => rfl
    rw [h1, h3]
    obtain ⟨i1, i2, i3⟩ := hstill y hy (f ctx) (hf ctx).2 d
    exact ⟨i1.trans (hf ctx).1, i2, i3⟩

end Out

/-! ## IN -/

/-- An IN from a port other than 0x500. -/
def portIn (port : UInt16) (n : Nat) (d : Devices) : List UInt8 × Devices :=
  if isUartPort port then uartReads port n d else (miscPortIn port n d, d)

theorem uartReads_length (port : UInt16) (n : Nat) (d : Devices) :
    (uartReads port n d).1.length = n := by
  induction n generalizing port d with
  | zero => rfl
  | succ n ih => exact congrArg (· + 1) (ih (port + 1) (uartRead port d).2)

theorem miscPortIn_length (port : UInt16) (n : Nat) (d : Devices) :
    (miscPortIn port n d).length = n := by
  unfold miscPortIn
  simp only
  split
  · rw [List.length_set, List.length_replicate]
  · split
    · rw [List.length_set, List.length_replicate]
    · exact List.length_replicate

theorem portIn_length (port : UInt16) (n : Nat) (d : Devices) :
    (portIn port n d).1.length = n := by
  unfold portIn
  split
  · exact uartReads_length port n d
  · exact miscPortIn_length port n d

/-- Behind MSR nothing answers. -/
theorem uartReads_unused {port : UInt16} {n : Nat} (hp : 6 ≤ offset port)
    (hs : offset port + n ≤ 65536) (d : Devices) :
    uartReads port n d = (List.replicate n 0, d) := by
  induction n generalizing port with
  | zero => rfl
  | succ n ih =>
    have h1 : uartRead port d = (0, d) := by
      unfold offset at hp
      unfold uartRead
      split
      all_goals first | omega | rfl
    have h2 : uartReads (port + 1) n d = (List.replicate n 0, d) := by
      cases n with
      | zero => rfl
      | succ n =>
        have hsucc : offset (port + 1) = offset port + 1 := offset_succ (by omega)
        exact ih (by omega) (by omega)
    rw [uartReads, h1]
    simp only [h2]
    rfl

/-- The ports that read as zero. -/
theorem portIn_unused {port : UInt16} {n : Nat} (hu : isUartPort port = true → 6 ≤ offset port)
    (h92 : port ≠ 0x92) (hn : n ≤ 4) (d : Devices) :
    portIn port n d = (List.replicate n 0, d) := by
  unfold portIn
  split
  · rename_i hp
    have := offset_le hp
    exact uartReads_unused (hu hp) (by omega) d
  · unfold miscPortIn
    simp only [if_neg h92, List.set_replicate_self, ite_self]

/-- The first byte of a second read. -/
def secondByte (port : UInt16) (n : Nat) (d : Devices) : UInt8 :=
  (portIn port n (portIn port n d).2).1.headD 0

/-- The others read the devices: two bytes unread, and no register as it was at
the start. -/
def busyDevices : Devices :=
  keyboardBufferPush 1 (keyboardBufferPush 1
    { uart0 := { ier := 2, lcr := 7, mcr := 1 }, port92 := 3 })

/-- RBR to LSR, and port 0x92. -/
def usedPorts : List UInt16 := [0x3f8, 0x3f9, 0x3fa, 0x3fb, 0x3fc, 0x3fd, 0x92]

theorem secondByte_ne {port : UInt16} (hp : port ∈ usedPorts) {n : Nat} (hn : n ∈ [1, 2, 4]) :
    secondByte port n {} ≠ secondByte port n busyDevices := by
  have hall : usedPorts.all (fun port => [1, 2, 4].all fun n =>
      decide (secondByte port n {} ≠ secondByte port n busyDevices)) = true := by decide
  exact of_decide_eq_true (List.all_eq_true.1 (List.all_eq_true.1 hall port hp) n hn)

theorem mem_usedPorts {port : UInt16}
    (h : ¬ ((isUartPort port = true → 6 ≤ offset port) ∧ port ≠ 0x92)) : port ∈ usedPorts := by
  by_cases h92 : port = 0x92
  · rw [h92]
    decide
  · have hn : ¬ (isUartPort port = true → 6 ≤ offset port) := fun hu => h ⟨hu, h92⟩
    obtain ⟨hp, hoff⟩ := Classical.not_imp.1 hn
    unfold isUartPort at hp
    unfold offset at hoff
    simp only [Bool.and_eq_true, decide_eq_true_eq, ge_iff_le, UInt16.le_iff_toNat_le] at hp
    rw [UInt16.toNat_sub] at hoff
    simp only [usedPorts, UInt16.reduceToNat, List.mem_cons, ← UInt16.toNat_inj] at hp hoff ⊢
    omega

theorem replicate_iff (c : List UInt8) :
    List.replicate c.length 0 = c ↔ ∀ b ∈ c, b = 0 := by
  rw [eq_comm, List.eq_replicate_iff, and_iff_right rfl]

theorem set_zero_iff (c : List UInt8) : c.set 0 0 = c ↔ c.headD 0 = 0 := by
  cases c with
  | nil => exact ⟨fun _ => rfl, fun _ => rfl⟩
  | cons b c =>
    rw [List.set_cons_zero, List.headD_cons, List.cons.injEq, and_iff_left rfl]
    exact eq_comm

/-- Exits that read zeros and do nothing else. -/
theorem idle_zero_iff {g : Globals} {ctx : Vcpu} {e : StringExit} {d : Devices}
    (h : ∀ x, Like e x → handleIo g ctx x d = ⟨0, ctx, List.replicate x.data.length 0, d⟩) :
    Idle g e (handleIo g ctx e.head d) ↔ ∀ c ∈ e.rest, ∀ b ∈ c, b = 0 := by
  rw [h e.head e.like_head,
    idle_still_iff (D := fun c => List.replicate c.length 0) fun c => List.length_replicate]
  · exact forall_congr' fun c => imp_congr_right fun _ => replicate_iff c
  · intro x hx
    simp only
    rw [h x hx]
    exact ⟨rfl, rfl, rfl⟩

section In

variable {g : Globals} (hv : g.verbose = false) (ctx : Vcpu) {e : StringExit} (ho : e.out = false)

include hv ho

theorem handleIo_portIn (hp : e.port ≠ HYPERCALL_PORT) {x : IoExit} (hx : Like e x) (d : Devices) :
    handleIo g ctx x d =
      ⟨0, ctx, (portIn e.port x.data.length d).1, (portIn e.port x.data.length d).2⟩ := by
  unfold handleIo portIn
  simp only [logIo_of_quiet hv, hx.out.trans ho, hx.port, if_neg hp, Bool.false_eq_true, if_false]
  split <;> rfl

theorem handleIo_hypercall_in (hp : e.port = HYPERCALL_PORT) {x : IoExit} (hx : Like e x)
    (d : Devices) :
    handleIo g ctx x d =
      if ctx.linuxGuest then ⟨0, ctx, List.replicate x.data.length 0, d⟩
      else ⟨0, { ctx with pendingGetchar := false }, x.data.set 0 (hypercallByte ctx), d⟩ := by
  unfold handleIo
  simp only [logIo_of_quiet hv, hx.out.trans ho, hx.port.trans hp, Bool.false_eq_true, if_false,
    if_true]
  split
  · rfl
  · unfold handleHypercallIn hypercallByte
    simp only [hv, Bool.false_eq_true, if_false]
    split
    · rfl
    · rename_i hpend
      have hctx : ctx = { ctx with pendingGetchar := false } := by
        cases ctx
        simp_all
      rw [← hctx]

/-- The first exit takes the pending character; the others read zero. -/
theorem idle_hypercall_in_iff (hp : e.port = HYPERCALL_PORT) (hl : ctx.linuxGuest = false)
    (d : Devices) : Idle g e (handleIo g ctx e.head d) ↔ ∀ c ∈ e.rest, c.headD 0 = 0 := by
  have hin : ∀ x, Like e x → ∀ c : Vcpu, c.linuxGuest = false →
      (handleIo g c x d).ctx = { c with pendingGetchar := false } ∧
        (handleIo g c x d).data = x.data.set 0 (hypercallByte c) ∧ (handleIo g c x d).dev = d := by
    intro x hx c hc
    rw [handleIo_hypercall_in hv c ho hp hx, if_neg (by rw [hc]; decide)]
    exact ⟨rfl, rfl, rfl⟩
  obtain ⟨h1, -, h3⟩ := hin e.head e.like_head ctx hl
  rw [idle_still_iff (D := fun c => c.set 0 0) fun c => List.length_set ..]
  · exact forall_congr' fun c => imp_congr_right fun _ => set_zero_iff c
  · intro x hx
    rw [h1, h3]
    exact hin x hx { ctx with pendingGetchar := false } hl

/-- The element after the first keeps its bytes only where it reads them. -/
theorem not_idle_of_used (hp : e.port ≠ HYPERCALL_PORT)
    (hu : ¬ ((isUartPort e.port = true → 6 ≤ offset e.port) ∧ e.port ≠ 0x92))
    {x : IoExit} {es : List IoExit} (ht : e.tail = x :: es) :
    ¬ ∀ d, Idle g e (handleIo g ctx e.head d) := by
  intro hall
  have hmem : x ∈ e.tail := by
    rw [ht]
    exact List.mem_cons_self
  have hx : Like e x := e.like_tail hmem
  have hlen : x.data.length = e.first.length := e.same _ (e.mem_tail hmem).2.2.2
  have hread : ∀ d, x.data.headD 0 = secondByte e.port e.first.length d := by
    intro d
    have hi := (hall d).data
    rw [handleIo_portIn hv ctx ho hp e.like_head, ht, handleEach] at hi
    simp only [handleIo_portIn hv ctx ho hp hx, ← e.tail_data, ht, List.map_cons,
      List.flatten_cons] at hi
    have h1 := (List.append_inj hi (portIn_length _ _ _)).1
    rw [← h1, hlen]
    rfl
  have hn : e.first.length ∈ [1, 2, 4] := by
    have := e.sized
    simp only [List.mem_cons, List.not_mem_nil, or_false]
    exact this
  exact secondByte_ne (mem_usedPorts hu) hn ((hread {}).symm.trans (hread busyDevices))

theorem idle_in_iff {x : IoExit} {es : List IoExit} (ht : e.tail = x :: es) :
    (∀ d, Idle g e (handleIo g ctx e.head d)) ↔
      if e.port = HYPERCALL_PORT ∧ ctx.linuxGuest = false then ∀ c ∈ e.rest, c.headD 0 = 0
      else
        (isUartPort e.port = true → 6 ≤ offset e.port) ∧ e.port ≠ 0x92 ∧
          ∀ c ∈ e.rest, ∀ b ∈ c, b = 0 := by
  by_cases hp : e.port = HYPERCALL_PORT
  · cases hl : ctx.linuxGuest with
    | false =>
      simp only [hp, true_and, if_true, idle_hypercall_in_iff hv ctx ho hp hl]
      exact ⟨fun h => h {}, fun h _ => h⟩
    | true =>
      have hz : ∀ d x, Like e x →
          handleIo g ctx x d = ⟨0, ctx, List.replicate x.data.length 0, d⟩ := by
        intro d x hx
        rw [handleIo_hypercall_in hv ctx ho hp hx, if_pos hl]
      rw [if_neg fun h => absurd h.2 (by decide)]
      simp only [idle_zero_iff (hz _)]
      constructor
      · intro h
        refine ⟨fun hu => absurd hp (not_hypercall_of_uart hu), ?_, h {}⟩
        rw [hp]
        decide
      · exact fun h _ => h.2.2
  · rw [if_neg fun h => hp h.1]
    by_cases hu : (isUartPort e.port = true → 6 ≤ offset e.port) ∧ e.port ≠ 0x92
    · have hz : ∀ d x, Like e x →
          handleIo g ctx x d = ⟨0, ctx, List.replicate x.data.length 0, d⟩ := by
        intro d x hx
        have hn : x.data.length ≤ 4 := by
          have := x.sized
          omega
        rw [handleIo_portIn hv ctx ho hp hx, portIn_unused hu.1 hu.2 hn]
      simp only [idle_zero_iff (hz _)]
      exact ⟨fun h => ⟨hu.1, hu.2, h {}⟩, fun h _ => h.2.2⟩
    · exact ⟨fun h => absurd h (not_idle_of_used hv ctx ho hp hu ht),
        fun h => absurd ⟨h.1, h.2.1⟩ hu⟩

end In

/-! ## All elements or the first -/

theorem not_idle_of_verbose {g : Globals} (hv : g.verbose = true) (ctx : Vcpu) {e : StringExit}
    {x : IoExit} {es : List IoExit} (ht : e.tail = x :: es) :
    ¬ Idle g e (handleIo g ctx e.head {}) := by
  refine not_idle_of_stdout g ht (stdout_lt_handleIo_log g _ hv ?_)
  rw [ioCount_handleIo hv]
  decide

/-- `handle_io` does for a string exit what it does for one exit after the
other, from any devices, exactly when there is one element, or when nothing is
logged and the elements after the first would change nothing. -/
theorem string_io_iff (g : Globals) (ctx : Vcpu) (e : StringExit) :
    (∀ d, SameEffect (handleEach g ctx (e.head :: e.tail) d) (handleStringIo g ctx e d)) ↔
      e.rest = [] ∨ (g.verbose = false ∧ e.RestIdle g ctx) := by
  simp only [sameEffect_iff]
  cases hr : e.rest with
  | nil =>
    have ht : e.tail = [] := by
      rw [← List.map_eq_nil_iff (f := IoExit.data), e.tail_data, hr]
    refine ⟨fun _ => Or.inl rfl, fun _ d => ⟨?_, ?_, ?_⟩⟩
    · rw [ht, handleEach]
    · rw [ht, handleEach, hr]
      rfl
    · rw [ht, handleEach]
      exact SameDev.refl _
  | cons c cs =>
    obtain ⟨x, es, ht⟩ : ∃ x es, e.tail = x :: es := by
      refine List.exists_cons_of_ne_nil fun h => ?_
      have := e.tail_data
      rw [h, hr] at this
      cases this
    rw [or_iff_right (List.cons_ne_nil c cs)]
    cases hv : g.verbose with
    | true =>
      exact ⟨fun h => absurd (h {}) (not_idle_of_verbose hv ctx ht), fun h => nomatch h.1⟩
    | false =>
      rw [and_iff_right rfl]
      unfold StringExit.RestIdle
      cases ho : e.out with
      | false =>
        rw [if_neg (by decide)]
        exact idle_in_iff hv ctx ho ht
      | true =>
        rw [if_pos rfl]
        split
        · rename_i hp
          exact idle_hypercall_out_iff hv ctx ho hp ht
        · rename_i hp
          split
          · rename_i hu
            exact idle_uart_iff hv ctx ho hu hr
          · rename_i hu
            exact idle_misc_iff hv ctx ho hp (Bool.eq_false_iff.2 hu)

/-- Two elements for THR. -/
def outsb : StringExit := { out := true, port := 0x3f8, first := [0x61], rest := [[0x62]] }

/-- Only the first is printed. -/
theorem outsb_prints_one :
    ¬ ∀ (g : Globals) (ctx : Vcpu) (e : StringExit) (d : Devices),
      SameEffect (handleEach g ctx (e.head :: e.tail) d) (handleStringIo g ctx e d) := by
  intro hall
  have hout := (hall ⟨false, false, 1, fun _ => [], 3⟩ {} outsb {}).dev.stdout
  exact absurd hout (by decide)

end MiniKvm.Vmm
