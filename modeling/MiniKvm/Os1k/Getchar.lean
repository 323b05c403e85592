import MiniKvm.Core.Trace
import MiniKvm.Vmm.InData

/-!
# The two `getchar`s of the 1K OS

`getchar` of the user library and `getchar` of the kernel
(kvm-vmm-x86/os-1k/user.c:41-63, kernel.c:122-147) against the port 0x500
handlers. The guest runs on the registers KVM gives it back: an OUT leaves them
as they are, and an IN sets AL.

The user's `getchar` reads AL after an IN and tries again on -1, which is also
what the byte 0xFF extends to: `user_getchar_transparent_iff`. The kernel's
reads EAX after the OUT, where its own request number still is:
`getchar_agree_iff`.
-/
namespace MiniKvm.Os1k

open Vmm

/-! ## The source -/

/-- A vCPU with the devices. -/
structure Guest where
  ctx : Vcpu
  dev : Devices

/-- `movb $2, %al; movw $0x500, %dx` -/
def loadRequest (r : Regs) : Regs :=
  { r with rax := r.rax &&& ~~~0xFF ||| 0x02, rdx := r.rdx &&& ~~~0xFFFF ||| 0x500 }

/-- `outb %al, %dx` -/
def outb (g : Globals) (r : Regs) (s : Guest) : Guest :=
  let e : IoExit :=
    { out := true, port := r.rdx.toUInt16, data := [r.rax.toUInt8], regs := some r,
      sized := Or.inl rfl }
  let res := handleIo g s.ctx e s.dev
  ⟨res.ctx, res.dev⟩

/-- `inb %dx, %al`; the data area holds what it held. -/
def inb (g : Globals) (r : Regs) (stale : UInt8) (s : Guest) : UInt8 × Guest :=
  let e : IoExit :=
    { out := false, port := r.rdx.toUInt16, data := [stale], sized := IoExit.sized_one stale }
  let res := handleIo g s.ctx e s.dev
  (res.data.headD 0, ⟨res.ctx, res.dev⟩)

/-- `movsbl %al, ch` -/
def movsbl (al : UInt8) : Int := al.toInt8.toInt

/-- One turn of the user's loop, up to the comparison; the value is `ch`.
mirrors kvm-vmm-x86/os-1k/user.c:45-55 -/
def userTurn (g : Globals) (r : Regs) (s : Guest) : Int × Guest :=
  let r := loadRequest r
  let (al, s) := inb g r r.rax.toUInt8 (outb g r s)
  (movsbl al, s)

/-- The same for the kernel's: `movl %eax, ch`, a 32-bit `long`.
mirrors kvm-vmm-x86/os-1k/kernel.c:128-137 -/
def kernelTurn (g : Globals) (r : Regs) (s : Guest) : Int × Guest :=
  let r := loadRequest r
  (r.rax.toUInt32.toInt32.toInt, outb g r s)

/-- The loop, over the registers that each of its turns begins with: the first
value that is not -1, and the guest then. `none` = it still waits. -/
def getcharLoop (turn : Regs → Guest → Int × Guest) : List Regs → Guest → Option (Int × Guest)
  | [], _ => none
  | r :: rs, s =>
    let (ch, s) := turn r s
    if ch ≠ -1 then some (ch, s) else getcharLoop turn rs s

/-- mirrors kvm-vmm-x86/os-1k/user.c:41-63 -/
def userGetchar (g : Globals) (rs : List Regs) (s : Guest) : Option (Int × Guest) :=
  getcharLoop (userTurn g) rs s

/-- mirrors kvm-vmm-x86/os-1k/kernel.c:122-147 -/
def kernelGetchar (g : Globals) (rs : List Regs) (s : Guest) : Option (Int × Guest) :=
  (getcharLoop (kernelTurn g) rs s).map fun (ch, s) =>
    ((Int32.ofInt ch &&& 0xFF).toInt, s)

/-! ## The instructions -/

theorem loadRequest_al (r : Regs) : (loadRequest r).rax.toUInt8 = HC_GETCHAR := by
  have hmask : (~~~0xFF : UInt64).toUInt8 = 0 := by decide
  show (r.rax &&& ~~~0xFF ||| 0x02).toUInt8 = _
  rw [UInt64.toUInt8_or, UInt64.toUInt8_and, hmask, UInt8.and_zero, UInt8.zero_or]
  rfl

theorem loadRequest_dx (r : Regs) : (loadRequest r).rdx.toUInt16 = HYPERCALL_PORT := by
  have hmask : (~~~0xFFFF : UInt64).toUInt16 = 0 := by decide
  show (r.rdx &&& ~~~0xFFFF ||| 0x500).toUInt16 = _
  rw [UInt64.toUInt16_or, UInt64.toUInt16_and, hmask, UInt16.and_zero, UInt16.zero_or]
  rfl

theorem movsbl_mod (al : UInt8) : movsbl al % 256 = al.toNat := by
  have h : movsbl al = (al.toNat : Int).bmod 256 := BitVec.toInt_eq_toNat_bmod al.toBitVec
  have hmod : (al.toNat : Int).bmod 256 % (256 : Nat) = al.toNat % (256 : Nat) := Int.bmod_emod
  have hlt := al.toNat_lt
  rw [h]
  omega

theorem movsbl_eq_neg_one (al : UInt8) : movsbl al = -1 ↔ al = 0xFF := by
  have h := movsbl_mod al
  constructor
  · intro hm
    rw [hm] at h
    apply UInt8.toNat_inj.1
    show al.toNat = 255
    omega
  · rintro rfl
    rfl

/-- The low byte of EAX after the request is loaded. -/
theorem loadRequest_eax (r : Regs) : (loadRequest r).rax.toUInt32.toInt32 &&& 0xFF = 2 := by
  have hmask : ~~~0xFF#32 &&& 0xFF#32 = 0#32 := by decide
  have hrax : (loadRequest r).rax.toUInt32 = r.rax.toUInt32 &&& ~~~0xFF ||| 0x02 := by
    show (r.rax &&& ~~~0xFF ||| 0x02).toUInt32 = _
    rw [UInt64.toUInt32_or, UInt64.toUInt32_and]
    rfl
  rw [hrax]
  apply Int32.toBitVec_inj.1
  show (r.rax.toUInt32.toBitVec &&& ~~~0xFF#32 ||| 0x02#32) &&& 0xFF#32 = 0x02#32
  rw [BitVec.and_or_distrib_right, BitVec.and_assoc, hmask, BitVec.and_zero]
  rfl

theorem loadRequest_ne_neg_one (r : Regs) : (loadRequest r).rax.toUInt32.toInt32.toInt ≠ -1 := by
  intro h
  have he := loadRequest_eax r
  have hm : (loadRequest r).rax.toUInt32.toInt32 = -1 := Int32.toInt_inj.1 h
  rw [hm] at he
  exact absurd he (by decide)

section Turn

variable (g : Globals) (r : Regs) {s : Guest}

/-- The request takes the oldest unread byte; the next IN returns it, or 0xFF
when there was none. -/
theorem outb_spec (hl : s.ctx.linuxGuest = false) :
    (outb g (loadRequest r) s).dev.unread = s.dev.unread.tail ∧
      (outb g (loadRequest r) s).ctx.linuxGuest = false ∧
      hypercallByte (outb g (loadRequest r) s).ctx = s.dev.unread.headD 0xFF := by
  obtain ⟨d', hu, hh⟩ := handleIo_request g s.ctx s.dev
    (e := { out := true, port := (loadRequest r).rdx.toUInt16,
            data := [(loadRequest r).rax.toUInt8], regs := some (loadRequest r),
            sized := Or.inl rfl })
    (loadRequest_dx r) ⟨rfl, hl, _, rfl, loadRequest_al r⟩
  unfold outb
  simp only [hh]
  refine ⟨by rw [unread_pop, hu], hl, ?_⟩
  show (if (keyboardBufferPop d').1 = -1 then 0xFF
    else UInt8.ofNat (keyboardBufferPop d').1.toNat) = s.dev.unread.headD 0xFF
  rw [keyboardBufferPop_fst, hu]
  cases s.dev.unread with
  | nil => rfl
  | cons c cs =>
    have hne : ¬ (c.toNat : Int) = -1 := by omega
    simp [hne]

theorem inb_spec (stale : UInt8) (hl : s.ctx.linuxGuest = false) :
    (inb g (loadRequest r) stale s).1 = hypercallByte s.ctx ∧
      (inb g (loadRequest r) stale s).2.dev.unread = s.dev.unread ∧
      (inb g (loadRequest r) stale s).2.ctx.linuxGuest = false := by
  have hp := loadRequest_dx r
  refine ⟨?_, ?_, ?_⟩
  · show (handleIo g s.ctx _ s.dev).data.headD 0 = _
    rw [handleIo_in_hypercall g s.dev rfl hp hl]
    rfl
  · exact (handleIo_in g s.ctx s.dev hp rfl fun h => by rw [hl] at h; cases h).2.1
  · exact (linuxGuest_handleIo g s.ctx s.dev hp).trans hl

/-- A turn of the user's loop takes the oldest unread byte. -/
theorem userTurn_spec (hl : s.ctx.linuxGuest = false) :
    (userTurn g r s).1 = movsbl (s.dev.unread.headD 0xFF) ∧
      (userTurn g r s).2.dev.unread = s.dev.unread.tail ∧
      (userTurn g r s).2.ctx.linuxGuest = false := by
  obtain ⟨o1, o2, o3⟩ := outb_spec g r hl
  obtain ⟨i1, i2, i3⟩ := inb_spec g r (loadRequest r).rax.toUInt8 o2
  refine ⟨?_, i2.trans o1, i3⟩
  show movsbl (inb g (loadRequest r) _ _).1 = _
  rw [i1, o3]

/-- The kernel's loop ends with its first turn, and its value is the number of
the request. -/
theorem kernelGetchar_cons (rs : List Regs) :
    kernelGetchar g (r :: rs) s = some (2, outb g (loadRequest r) s) := by
  unfold kernelGetchar getcharLoop kernelTurn
  simp only [if_pos (loadRequest_ne_neg_one r), Option.map_some, Int32.ofInt_toInt, loadRequest_eax]
  rfl

end Turn

/-! ## The two `getchar`s on a fixed buffer -/

/-- With the registers `entry k` at the start of turn `k`, `getchar` returns a
value that is `v` modulo 256 and leaves these bytes unread. -/
def Returns (getchar : List Regs → Guest → Option (Int × Guest)) (entry : Nat → Regs) (s : Guest)
    (v : Int) (left : List UInt8) : Prop :=
  ∃ n ch s', getchar ((List.range n).map entry) s = some (ch, s') ∧ ch % 256 = v ∧
    s'.dev.unread = left

theorem range_succ_map (entry : Nat → Regs) (n : Nat) :
    (List.range (n + 1)).map entry = entry 0 :: (List.range n).map fun k => entry (k + 1) := by
  rw [List.range_succ_eq_map, List.map_cons, List.map_map]
  rfl

theorem userGetchar_cons (g : Globals) (r : Regs) (rs : List Regs) (s : Guest) :
    userGetchar g (r :: rs) s =
      if (userTurn g r s).1 ≠ -1 then some (userTurn g r s)
      else userGetchar g rs (userTurn g r s).2 := rfl

theorem userGetchar_some (g : Globals) {rs : List Regs} {s s' : Guest} {ch : Int}
    (hl : s.ctx.linuxGuest = false) (h : userGetchar g rs s = some (ch, s')) :
    ∃ k b, s.dev.unread = List.replicate k 0xFF ++ b :: s'.dev.unread ∧ b ≠ 0xFF ∧
      ch % 256 = b.toNat := by
  induction rs generalizing s with
  | nil => cases h
  | cons r rs ih =>
    obtain ⟨h1, h2, h3⟩ := userTurn_spec g r hl
    rw [userGetchar_cons, h1] at h
    by_cases hff : s.dev.unread.headD 0xFF = 0xFF
    · rw [if_neg (not_not.2 ((movsbl_eq_neg_one _).2 hff))] at h
      obtain ⟨k, b, hu, hb⟩ := ih h3 h
      rw [h2] at hu
      cases hc : s.dev.unread with
      | nil =>
        rw [hc] at hu
        simp at hu
      | cons c cs =>
        rw [hc] at hff hu
        refine ⟨k + 1, b, ?_, hb⟩
        rw [List.replicate_succ, List.cons_append, ← hu, ← show c = 0xFF from hff]
        rfl
    · rw [if_pos (mt (movsbl_eq_neg_one _).1 hff)] at h
      have hs := Option.some_inj.1 h
      have hch : ch = movsbl (s.dev.unread.headD 0xFF) := by
        rw [← h1, hs]
      refine ⟨0, s.dev.unread.headD 0xFF, ?_, hff, by rw [hch, movsbl_mod]⟩
      rw [show s'.dev.unread = s.dev.unread.tail by rw [← h2, hs]]
      cases hc : s.dev.unread with
      | nil =>
        rw [hc] at hff
        exact absurd rfl hff
      | cons c cs => rfl

theorem userGetchar_reads (g : Globals) {b : UInt8} (hb : b ≠ 0xFF) {left : List UInt8} (k : Nat)
    (entry : Nat → Regs) {s : Guest} (hl : s.ctx.linuxGuest = false)
    (hu : s.dev.unread = List.replicate k 0xFF ++ b :: left) :
    Returns (userGetchar g) entry s b.toNat left := by
  induction k generalizing entry s with
  | zero =>
    obtain ⟨h1, h2, -⟩ := userTurn_spec g (entry 0) hl
    rw [hu] at h1 h2
    have h1 : (userTurn g (entry 0) s).1 = movsbl b := h1
    have hne : (userTurn g (entry 0) s).1 ≠ -1 := by
      rw [h1]
      exact mt (movsbl_eq_neg_one b).1 hb
    exact ⟨1, (userTurn g (entry 0) s).1, (userTurn g (entry 0) s).2, if_pos hne,
      by rw [h1, movsbl_mod], h2⟩
  | succ k ih =>
    obtain ⟨h1, h2, h3⟩ := userTurn_spec g (entry 0) hl
    rw [hu, List.replicate_succ, List.cons_append] at h1 h2
    have h1 : (userTurn g (entry 0) s).1 = -1 := h1.trans ((movsbl_eq_neg_one 0xFF).2 rfl)
    obtain ⟨n, ch, s', h, hv⟩ := ih (fun k => entry (k + 1)) h3 h2
    refine ⟨n + 1, ch, s', ?_, hv⟩
    rw [range_succ_map, userGetchar_cons, if_neg (not_not.2 h1), h]

/-- The user's `getchar` skips the bytes 0xFF and returns the first other one. -/
theorem user_returns_iff (g : Globals) (entry : Nat → Regs) {s : Guest}
    (hl : s.ctx.linuxGuest = false) {v : Int} {left : List UInt8} :
    Returns (userGetchar g) entry s v left ↔
      ∃ k b, s.dev.unread = List.replicate k 0xFF ++ b :: left ∧ b ≠ 0xFF ∧ v = b.toNat := by
  constructor
  · rintro ⟨n, ch, s', h, rfl, rfl⟩
    exact userGetchar_some g hl h
  · rintro ⟨k, b, hu, hb, rfl⟩
    exact userGetchar_reads g hb k entry hl hu

theorem kernel_returns_iff (g : Globals) (entry : Nat → Regs) {s : Guest}
    (hl : s.ctx.linuxGuest = false) {v : Int} {left : List UInt8} :
    Returns (kernelGetchar g) entry s v left ↔ v = 2 ∧ left = s.dev.unread.tail := by
  constructor
  · rintro ⟨n, ch, s', h, rfl, rfl⟩
    cases n with
    | zero => cases h
    | succ n =>
      rw [range_succ_map, kernelGetchar_cons] at h
      obtain ⟨rfl, rfl⟩ := Prod.mk.inj (Option.some_inj.1 h)
      exact ⟨rfl, (outb_spec g (entry 0) hl).1⟩
  · rintro ⟨rfl, rfl⟩
    refine ⟨1, 2, outb g (loadRequest (entry 0)) s, ?_, rfl, (outb_spec g (entry 0) hl).1⟩
    exact kernelGetchar_cons g (entry 0) []

/-- Whatever the registers on entry, kernel and user `getchar` return the same
value modulo 256 and leave the same bytes unread, or both wait, exactly when the
oldest unread byte is 2. -/
theorem getchar_agree_iff (g : Globals) (entry entry' : Nat → Regs) {s : Guest}
    (hl : s.ctx.linuxGuest = false) :
    (∀ v left, Returns (kernelGetchar g) entry s v left ↔ Returns (userGetchar g) entry' s v left) ↔
      ∃ rest, s.dev.unread = 0x02 :: rest := by
  simp only [kernel_returns_iff g entry hl, user_returns_iff g entry' hl]
  constructor
  · intro h
    obtain ⟨k, b, hu, -, hb⟩ := (h 2 s.dev.unread.tail).1 ⟨rfl, rfl⟩
    have hb2 : b = 2 := UInt8.toNat_inj.1 (by exact_mod_cast hb.symm)
    have hlen := congrArg List.length hu
    rw [List.length_append, List.length_replicate, List.length_cons, List.length_tail] at hlen
    have hk : k = 0 := by omega
    rw [hk, hb2] at hu
    exact ⟨_, hu⟩
  · rintro ⟨rest, hu⟩ v left
    rw [hu]
    constructor
    · rintro ⟨rfl, rfl⟩
      exact ⟨0, 2, rfl, by decide, rfl⟩
    · rintro ⟨k, b, hk, hb, rfl⟩
      cases k with
      | zero =>
        obtain ⟨rfl, rfl⟩ := List.cons.inj hk
        exact ⟨rfl, rfl⟩
      | succ k =>
        rw [List.replicate_succ, List.cons_append] at hk
        exact absurd (List.cons.inj hk).1 (by decide)

theorem getchar_agree_iff_two :
    let g : Globals := ⟨false, false, 1, fun _ => [], 4⟩
    let s : Guest := ⟨{}, keyboardBufferPush 0x02 {}⟩
    (∀ v left, Returns (kernelGetchar g) (fun _ => {}) s v left ↔
        Returns (userGetchar g) (fun _ => {}) s v left) ↔
      ∃ rest, s.dev.unread = 0x02 :: rest :=
  getchar_agree_iff _ _ _ rfl

/-- With nothing unread the kernel's `getchar` returns 2, and the user's waits. -/
theorem getchar_kernel_returns_request :
    let g : Globals := ⟨false, false, 1, fun _ => [], 4⟩
    let s : Guest := ⟨{}, {}⟩
    (∀ rs, (kernelGetchar g ({} :: rs) s).map Prod.fst = some 2) ∧
      (∀ rs, userGetchar g rs s = none) ∧
      ¬ ∀ (g : Globals) (entry : Nat → Regs) (s : Guest), s.ctx.linuxGuest = false → ∀ v left,
        (Returns (kernelGetchar g) entry s v left ↔ Returns (userGetchar g) entry s v left) := by
  intro g s
  have hu : s.dev.unread = [] := rfl
  refine ⟨fun rs => by rw [kernelGetchar_cons]; rfl, fun rs => ?_, fun hall => ?_⟩
  · cases h : userGetchar g rs s with
    | none => rfl
    | some p =>
      obtain ⟨ch, s'⟩ := p
      obtain ⟨k, b, hk, -⟩ := userGetchar_some g rfl h
      rw [hu] at hk
      simp at hk
  · have hk : Returns (kernelGetchar g) (fun _ => {}) s 2 [] :=
      (kernel_returns_iff g _ rfl).2 ⟨rfl, rfl⟩
    obtain ⟨k, b, hb, -⟩ := (user_returns_iff g _ rfl).1 ((hall g _ s rfl 2 []).1 hk)
    rw [hu] at hb
    simp at hb

/-! ## The input path of the user's `getchar` -/

/-- A guest that calls the user's `getchar` again and again. -/
structure InputPath where
  guest : Guest
  /-- Between the OUT and the IN. -/
  awaits : Bool := false
  /-- What the calls have returned. -/
  returned : List Int := []

inductive InputOp where
  | push (ch : UInt8)
  /-- The next port access of the guest, in a turn that began with these registers. -/
  | access (r : Regs)

/-- `userTurn`, one access at a time, and the comparison after it. -/
def InputPath.step (g : Globals) (s : InputPath) : InputOp → InputPath
  | .push ch => { s with guest := { s.guest with dev := keyboardBufferPush ch s.guest.dev } }
  | .access r =>
    let r := loadRequest r
    if s.awaits then
      let (al, guest) := inb g r r.rax.toUInt8 s.guest
      let ch := movsbl al
      { guest, awaits := false, returned := if ch ≠ -1 then s.returned ++ [ch] else s.returned }
    else { s with guest := outb g r s.guest, awaits := true }

/-- The bytes pushed, in order. -/
def pushed (os : List InputOp) : List UInt8 :=
  os.flatMap fun o => match o with
    | .push ch => [ch]
    | .access _ => []

/-- The byte taken by the last OUT and not yet returned. -/
def InputPath.inFlight (s : InputPath) : List UInt8 :=
  if s.awaits ∧ hypercallByte s.guest.ctx ≠ 0xFF then [hypercallByte s.guest.ctx] else []

/-- The bytes other than 0xFF. -/
def visible (bs : List UInt8) : List UInt8 := bs.filter (· ≠ 0xFF)

/-- After these pushes: what came out, what is in flight and what is unread make
up the bytes other than 0xFF, in order. -/
structure InputPath.Carries (s : InputPath) (bs : List UInt8) : Prop where
  linuxGuest : s.guest.ctx.linuxGuest = false
  unread : s.guest.dev.unread.length ≤ bs.length
  bytes : ∃ out : List UInt8, s.returned.map (· % 256) = out.map (fun b => (b.toNat : Int)) ∧
    out ++ s.inFlight ++ visible s.guest.dev.unread = visible bs

theorem visible_append (as bs : List UInt8) : visible (as ++ bs) = visible as ++ visible bs :=
  List.filter_append ..

theorem visible_cons (b : UInt8) (bs : List UInt8) :
    visible (b :: bs) = (if b ≠ 0xFF then [b] else []) ++ visible bs := by
  unfold visible
  rw [List.filter_cons]
  by_cases hb : b = 0xFF <;> simp [hb]

theorem pushed_cons (o : InputOp) (os : List InputOp) :
    pushed (o :: os) = pushed [o] ++ pushed os := by
  cases o <;> rfl

theorem pushed_append (os ps : List InputOp) : pushed (os ++ ps) = pushed os ++ pushed ps :=
  List.flatMap_append

theorem pushed_access (rs : List Regs) : pushed (rs.map .access) = [] := by
  induction rs with
  | nil => rfl
  | cons r rs ih => exact (pushed_cons _ _).trans ih

section Access

variable (g : Globals) (r : Regs) {s : InputPath}

/-- The OUT of a turn. -/
theorem InputPath.step_out (hl : s.guest.ctx.linuxGuest = false) (hw : s.awaits = false) :
    let t := s.step g (.access r)
    t.awaits = true ∧ t.returned = s.returned ∧ t.guest.ctx.linuxGuest = false ∧
      t.guest.dev.unread = s.guest.dev.unread.tail ∧
      t.inFlight ++ visible t.guest.dev.unread = visible s.guest.dev.unread := by
  have ht : s.step g (.access r) =
      { s with guest := outb g (loadRequest r) s.guest, awaits := true } := by
    show (if s.awaits then _ else _) = _
    rw [hw]
    rfl
  obtain ⟨h1, h2, h3⟩ := outb_spec g r hl
  intro t
  have htu : t.guest.dev.unread = s.guest.dev.unread.tail := by
    show (s.step g (.access r)).guest.dev.unread = _
    rw [ht, ← h1]
  have htf : t.inFlight = if s.guest.dev.unread.headD 0xFF ≠ 0xFF then
      [s.guest.dev.unread.headD 0xFF] else [] := by
    show (s.step g (.access r)).inFlight = _
    rw [ht, ← h3]
    unfold InputPath.inFlight
    simp only [true_and]
  refine ⟨congrArg InputPath.awaits ht, (congrArg InputPath.returned ht).trans rfl, ?_, htu, ?_⟩
  · show (s.step g (.access r)).guest.ctx.linuxGuest = false
    rw [ht]
    exact h2
  · rw [htf, htu]
    cases s.guest.dev.unread with
    | nil => rfl
    | cons c cs => exact (visible_cons c cs).symm

/-- The IN of a turn. -/
theorem InputPath.step_in (hl : s.guest.ctx.linuxGuest = false) (hw : s.awaits = true) :
    let t := s.step g (.access r)
    t.awaits = false ∧ t.returned = s.returned ++ s.inFlight.map movsbl ∧
      t.guest.ctx.linuxGuest = false ∧ t.guest.dev.unread = s.guest.dev.unread := by
  obtain ⟨h1, h2, h3⟩ := inb_spec g r (loadRequest r).rax.toUInt8 hl
  have ht : s.step g (.access r) =
      { guest := (inb g (loadRequest r) (loadRequest r).rax.toUInt8 s.guest).2
        awaits := false
        returned := if movsbl (hypercallByte s.guest.ctx) ≠ -1 then
          s.returned ++ [movsbl (hypercallByte s.guest.ctx)] else s.returned } := by
    rw [← h1]
    show (if s.awaits then _ else _) = _
    rw [hw]
    rfl
  intro t
  have hret : t.returned = s.returned ++ s.inFlight.map movsbl := by
    refine (congrArg InputPath.returned ht).trans ?_
    unfold InputPath.inFlight
    simp only [hw, true_and, Ne, movsbl_eq_neg_one]
    split <;> simp
  refine ⟨congrArg InputPath.awaits ht, hret, ?_, ?_⟩
  · show (s.step g (.access r)).guest.ctx.linuxGuest = false
    rw [ht]
    exact h3
  · show (s.step g (.access r)).guest.dev.unread = _
    rw [ht]
    exact h2

end Access

theorem InputPath.inFlight_of_not_awaits {s : InputPath} (h : s.awaits = false) :
    s.inFlight = [] := by
  unfold InputPath.inFlight
  rw [h]
  rfl

/-- One access, or one push while there is room, carries on. -/
theorem InputPath.Carries.step (g : Globals) {s : InputPath} {bs : List UInt8} (h : s.Carries bs)
    (o : InputOp) (hroom : (bs ++ pushed [o]).length ≤ 255) :
    (s.step g o).Carries (bs ++ pushed [o]) := by
  obtain ⟨hl, hlen, out, hret, hbytes⟩ := h
  cases o with
  | push ch =>
    have hp : pushed [.push ch] = [ch] := rfl
    rw [hp, List.length_append, List.length_singleton] at hroom
    have hu : (s.step g (.push ch)).guest.dev.unread = s.guest.dev.unread ++ [ch] := by
      show (keyboardBufferPush ch s.guest.dev).unread = _
      rw [unread_push, if_pos (by omega)]
    refine ⟨hl, ?_, out, hret, ?_⟩
    · rw [hu, hp, List.length_append, List.length_append]
      exact Nat.add_le_add_right hlen 1
    · rw [hu, hp, visible_append, visible_append, ← hbytes, List.append_assoc, List.append_assoc,
        List.append_assoc]
      rfl
  | access r =>
    have hp : pushed [.access r] = [] := rfl
    rw [hp, List.append_nil]
    cases hw : s.awaits with
    | false =>
      obtain ⟨-, h2, h3, h4, h5⟩ := InputPath.step_out g r hl hw
      refine ⟨h3, ?_, out, h2 ▸ hret, ?_⟩
      · rw [h4, List.length_tail]
        omega
      · rw [InputPath.inFlight_of_not_awaits hw, List.append_nil] at hbytes
        rw [List.append_assoc, h5, hbytes]
    | true =>
      obtain ⟨h1, h2, h3, h4⟩ := InputPath.step_in g r hl hw
      refine ⟨h3, h4 ▸ hlen, out ++ s.inFlight, ?_, ?_⟩
      · rw [h2, List.map_append, List.map_append, hret, List.map_map]
        exact congrArg _ (List.map_congr_left fun b _ => movsbl_mod b)
      · rw [InputPath.inFlight_of_not_awaits h1, List.append_nil, h4, hbytes]

theorem InputPath.carries_run (g : Globals) {s : InputPath} {bs : List UInt8} (h : s.Carries bs)
    (os : List InputOp) (hroom : (bs ++ pushed os).length ≤ 255) :
    (after (InputPath.step g) s os).Carries (bs ++ pushed os) := by
  induction os generalizing s bs with
  | nil => rwa [show pushed [] = [] from rfl, List.append_nil]
  | cons o os ih =>
    rw [pushed_cons, ← List.append_assoc] at hroom ⊢
    have hlen : (bs ++ pushed [o]).length ≤ 255 := by
      rw [List.length_append] at hroom
      omega
    exact ih (h.step g o hlen) hroom

/-- Nothing is left to return. -/
structure InputPath.Drained (s : InputPath) : Prop where
  linuxGuest : s.guest.ctx.linuxGuest = false
  unread : s.guest.dev.unread = []
  inFlight : s.inFlight = []

theorem InputPath.Drained.step (g : Globals) {s : InputPath} (h : s.Drained) (r : Regs) :
    (s.step g (.access r)).Drained := by
  cases hw : s.awaits with
  | false =>
    obtain ⟨-, -, h3, h4, h5⟩ := InputPath.step_out g r h.linuxGuest hw
    rw [h.unread] at h4 h5
    exact ⟨h3, h4, (List.append_eq_nil_iff.1 h5).1⟩
  | true =>
    obtain ⟨h1, -, h3, h4⟩ := InputPath.step_in g r h.linuxGuest hw
    exact ⟨h3, h4.trans h.unread, InputPath.inFlight_of_not_awaits h1⟩

theorem InputPath.Drained.run (g : Globals) {s : InputPath} (h : s.Drained) (rs : List Regs) :
    (after (InputPath.step g) s (rs.map .access)).Drained := by
  induction rs generalizing s with
  | nil => exact h
  | cons r rs ih => exact ih (h.step g r)

/-- Two accesses for every unread byte, and one for the IN that is due, drain
the path. -/
theorem InputPath.drained_run (g : Globals) (rs : List Regs) {s : InputPath}
    (hl : s.guest.ctx.linuxGuest = false)
    (hrs : 2 * s.guest.dev.unread.length + (if s.awaits then 1 else 0) ≤ rs.length) :
    (after (InputPath.step g) s (rs.map .access)).Drained := by
  induction rs generalizing s with
  | nil =>
    rw [List.length_nil] at hrs
    have hw : s.awaits = false := by
      by_contra hw
      rw [if_pos (by simpa using hw)] at hrs
      omega
    have hu : s.guest.dev.unread.length = 0 := by omega
    exact ⟨hl, List.eq_nil_of_length_eq_zero hu, InputPath.inFlight_of_not_awaits hw⟩
  | cons r rs ih =>
    rw [List.length_cons] at hrs
    cases hw : s.awaits with
    | true =>
      obtain ⟨h1, -, h3, h4⟩ := InputPath.step_in g r hl hw
      refine ih h3 ?_
      rw [hw, if_pos rfl] at hrs
      rw [h1, h4]
      exact Nat.le_of_succ_le_succ hrs
    | false =>
      obtain ⟨h1, -, h3, h4, -⟩ := InputPath.step_out g r hl hw
      cases hu : s.guest.dev.unread with
      | nil => exact InputPath.Drained.run g ⟨hl, hu, InputPath.inFlight_of_not_awaits hw⟩ (r :: rs)
      | cons c cs =>
        refine ih h3 ?_
        rw [hu, List.length_cons] at hrs
        rw [h1, h4, hu, List.tail_cons, if_pos rfl]
        omega

theorem visible_eq_self {bs : List UInt8} : visible bs = bs ↔ 0xFF ∉ bs := by
  unfold visible
  rw [List.filter_eq_self]
  constructor
  · intro h hm
    exact absurd (h _ hm) (by decide)
  · intro h b hb
    exact decide_eq_true fun he => h (he ▸ hb)

/-- A string of at most 255 bytes is pushed, byte by byte, in any order with the
port accesses of the guest, and then the guest goes on long enough. The values
that the calls of the user's `getchar` returned are the string modulo 256,
exactly when no byte of it is 0xFF. -/
theorem user_getchar_transparent_iff (g : Globals) {ctx : Vcpu} {d : Devices}
    (hl : ctx.linuxGuest = false) (hd : d.unread = []) {os : List InputOp}
    (hs : (pushed os).length ≤ 255) {rs : List Regs}
    (hrs : 2 * (pushed os).length + 1 ≤ rs.length) :
    (after (InputPath.step g) { guest := ⟨ctx, d⟩ } (os ++ rs.map .access)).returned.map (· % 256) =
        (pushed os).map (fun b => (b.toNat : Int)) ↔
      0xFF ∉ pushed os := by
  have hstart : InputPath.Carries { guest := ⟨ctx, d⟩ } [] :=
    ⟨hl, Nat.le_of_eq (congrArg List.length hd), [], rfl, by rw [hd]; rfl⟩
  have hmid := InputPath.carries_run g hstart os (by rwa [List.nil_append])
  rw [List.nil_append] at hmid
  have hdrained :
      (after (InputPath.step g) { guest := ⟨ctx, d⟩ } (os ++ rs.map .access)).Drained := by
    rw [after_append]
    refine InputPath.drained_run g rs hmid.linuxGuest (Nat.le_trans ?_ hrs)
    have := hmid.unread
    split <;> omega
  have hall : pushed (os ++ rs.map .access) = pushed os := by
    rw [pushed_append, pushed_access, List.append_nil]
  have hend := InputPath.carries_run g hstart (os ++ rs.map .access)
    (by rwa [List.nil_append, hall])
  rw [List.nil_append, hall] at hend
  obtain ⟨out, hret, hbytes⟩ := hend.bytes
  rw [hdrained.unread, hdrained.inFlight, List.append_nil] at hbytes
  have hout : out = visible (pushed os) := by rw [← hbytes]; exact (List.append_nil out).symm
  rw [hret, hout, List.map_inj_right fun a b h => UInt8.toNat_inj.1 (by exact_mod_cast h)]
  exact visible_eq_self

theorem user_getchar_transparent_iff_a :
    let g : Globals := ⟨false, false, 1, fun _ => [], 4⟩
    let os : List InputOp := [.access {}, .push 0x61, .access {}]
    (after (InputPath.step g) { guest := ⟨{}, {}⟩ }
        (os ++ [{}, {}, ({} : Regs)].map .access)).returned.map (· % 256) =
        (pushed os).map (fun b => (b.toNat : Int)) ↔
      0xFF ∉ pushed os :=
  user_getchar_transparent_iff _ rfl rfl (by decide) (by decide)

/-- The byte 0xFF does not come out. -/
theorem user_getchar_swallows_0xFF :
    let g : Globals := ⟨false, false, 1, fun _ => [], 4⟩
    let rs : List Regs := [{}, {}, {}, {}, {}]
    let s := after (InputPath.step g) { guest := ⟨{}, {}⟩ }
      ([.push 0xFF, .push 0x61] ++ rs.map .access)
    s.returned = [0x61] ∧ s.guest.dev.unread = [] ∧
      s.returned.map (· % 256) ≠
        (pushed [.push 0xFF, .push 0x61]).map (fun b => (b.toNat : Int)) := by
  intro g rs s
  have hr : s.returned = [0x61] := by decide +kernel
  refine ⟨hr, by decide +kernel, ?_⟩
  rw [hr]
  decide

end MiniKvm.Os1k
