import MiniKvm.Vmm.Probe

/-!
# Blocks of stores to COM1

An OUT of several bytes stores them at consecutive offsets. A block that covers
neither THR nor both IER and LCR (`Block`) has one effect, whatever was stored
before it: it fixes the registers it covers (`uartWrites_store`), so that of
several equally placed blocks the last one counts (`writeElems_spec`).
-/
namespace MiniKvm.Vmm

open Model16550

/-! ## Offsets -/

theorem offset_succ {port : UInt16} (h : offset port + 1 < 65536) :
    offset (port + 1) = offset port + 1 := by
  unfold offset at h ⊢
  have hp : port + 1 - 0x3f8 = (port - 0x3f8) + 1 := by
    rw [UInt16.sub_eq_add_neg, UInt16.sub_eq_add_neg, UInt16.add_assoc, UInt16.add_assoc,
      UInt16.add_comm 1]
  rw [hp, UInt16.toNat_add]
  exact Nat.mod_eq_of_lt h

/-- The byte of a block that lies at an offset. -/
theorem byteAt_eq {port : UInt16} {bs : List UInt8} (h : offset port + bs.length ≤ 65536)
    (off : Nat) :
    byteAt port bs off = if offset port ≤ off then bs[off - offset port]? else none := by
  induction bs generalizing port with
  | nil => simp [byteAt]
  | cons b bs ih =>
    rw [List.length_cons] at h
    rw [byteAt]
    cases bs with
    | nil =>
      by_cases ho : offset port = off
      · simp [byteAt, ho]
      · rw [if_neg ho]
        split
        · rw [List.getElem?_eq_none (by simp; omega)]
          rfl
        · rfl
    | cons c cs =>
      rw [List.length_cons] at h
      have hs : offset (port + 1) = offset port + 1 := offset_succ (by omega)
      rw [ih (by rw [hs, List.length_cons]; omega), hs]
      by_cases ho : offset port = off
      · rw [if_neg (by omega), if_pos ho, if_pos (by omega), ho, Nat.sub_self]
        rfl
      · rw [if_neg ho, Option.or_none]
        by_cases hle : offset port ≤ off
        · rw [if_pos (by omega), if_pos hle,
            show off - offset port = off - (offset port + 1) + 1 by omega, List.getElem?_cons_succ]
        · rw [if_neg (by omega), if_neg hle]

/-- Which offsets a block covers depends on its length. -/
theorem byteAt_none_iff {port : UInt16} {bs cs : List UInt8} (h : offset port + bs.length ≤ 65536)
    (hlen : cs.length = bs.length) (off : Nat) :
    byteAt port cs off = none ↔ byteAt port bs off = none := by
  rw [byteAt_eq (by rwa [hlen]), byteAt_eq h]
  split
  · rw [List.getElem?_eq_none_iff, List.getElem?_eq_none_iff, hlen]
  · exact Iff.rfl

/-! ## One block -/

structure Block (port : UInt16) (bs : List UInt8) : Prop where
  noThr : byteAt port bs 0 = none
  noBank : byteAt port bs 1 = none ∨ byteAt port bs 3 = none
  small : offset port + bs.length ≤ 65536

/-- The registers after a block with these bytes at the offsets 1, 3 and 4. -/
def Uart16550.store (u : Uart16550) (b1 b3 b4 : Option UInt8) : Uart16550 :=
  { u with
    ier := if u.dlab then u.ier else b1.getD u.ier
    lcr := b3.getD u.lcr
    mcr := b4.getD u.mcr
    dlh := if u.dlab then b1.getD u.dlh else u.dlh }

/-- The interrupts a store of `b1` in IER pulses. -/
def ierIrqs (g : Globals) (b1 : Option UInt8) : List Nat :=
  match b1 with
  | some b => if g.linuxSerialInputEnabled ∧ b &&& 0x02 ≠ 0 ∧ 0 ≤ g.vmFd then [4] else []
  | none => []

/-- A register is kept by a block that does not reach it under any DLAB it
meets. -/
theorem uartWrites_reg_out (g : Globals) {r : Reg} {port : UInt16} {bs : List UInt8} {d : Devices}
    (h : ∀ dl, (byteAt port bs 3 = none → dl = d.uart0.dlab) → ∀ off, target dl off = some r →
      byteAt port bs off = none) :
    (uartWrites g port bs d).uart0.reg r = d.uart0.reg r := by
  induction bs generalizing port d with
  | nil => rfl
  | cons b bs ih =>
    have hnow : target d.uart0.dlab (offset port) ≠ some r := fun ht =>
      (byteAt_cons_none.1 (h _ (fun _ => rfl) _ ht)).2 rfl
    have hb : (uartWrite g port b d).uart0.reg r = d.uart0.reg r := by
      rw [uartWrite_reg, if_neg hnow]
    rw [uartWrites, ih fun dl hdl off ht => ?_, hb]
    refine (byteAt_cons_none.1 (h dl (fun h3 => ?_) off ht)).1
    obtain ⟨h3, hp⟩ := byteAt_cons_none.1 h3
    rw [hdl h3, dlab_uartWrite, if_neg hp]

theorem target_ier {dl : Bool} {off : Nat} (h : target dl off = some .ier) :
    off = 1 ∧ dl = false := by
  unfold target at h
  split at h <;> simp_all

theorem target_dlh {dl : Bool} {off : Nat} (h : target dl off = some .dlh) :
    off = 1 ∧ dl = true := by
  unfold target at h
  split at h <;> simp_all

theorem target_dll {dl : Bool} {off : Nat} (h : target dl off = some .dll) :
    off = 0 ∧ dl = true := by
  unfold target at h
  split at h <;> simp_all

theorem dlh_target (off : Nat) : target true off = some .dlh ↔ off = 1 := by
  unfold target
  split <;> simp_all

/-- The register that offset 1 reaches while DLAB is `v`. -/
theorem uartWrites_bank (g : Globals) {v : Bool} {r : Reg}
    (hr : ∀ {dl off}, target dl off = some r → off = 1 ∧ dl = v)
    (hon : ∀ off, target v off = some r ↔ off = 1) {port : UInt16} {bs : List UInt8}
    (h : Block port bs) (d : Devices) :
    (uartWrites g port bs d).uart0.reg r =
      if d.uart0.dlab = v then (byteAt port bs 1).getD (d.uart0.reg r) else d.uart0.reg r := by
  rcases h.noBank with h1 | h3
  · rw [h1, Option.getD_none, ite_self]
    refine uartWrites_reg_out g fun dl _ off ht => ?_
    rw [(hr ht).1]
    exact h1
  · by_cases hd : d.uart0.dlab = v
    · rw [if_pos hd]
      refine uartWrites_reg g (Or.inr ⟨h3, ?_⟩)
      rw [hd]
      exact hon
    · rw [if_neg hd]
      refine uartWrites_reg_out g fun dl hdl off ht => ?_
      exact absurd ((hdl h3).symm.trans (hr ht).2) hd

theorem uartWrites_store (g : Globals) {port : UInt16} {bs : List UInt8} (h : Block port bs)
    (d : Devices) :
    (uartWrites g port bs d).uart0 =
      d.uart0.store (byteAt port bs 1) (byteAt port bs 3) (byteAt port bs 4) := by
  apply Uart16550.ext_reg
  intro r
  cases r with
  | lcr => exact uartWrites_reg g (Or.inl lcr_target)
  | mcr => exact uartWrites_reg g (Or.inl mcr_target)
  | dll =>
    refine uartWrites_reg_out g fun dl _ off ht => ?_
    rw [(target_dll ht).1]
    exact h.noThr
  | ier =>
    rw [uartWrites_bank g target_ier ier_target h]
    show _ = if d.uart0.dlab then d.uart0.reg .ier else (byteAt port bs 1).getD (d.uart0.reg .ier)
    cases d.uart0.dlab <;> rfl
  | dlh =>
    rw [uartWrites_bank g target_dlh dlh_target h]
    show _ = if d.uart0.dlab then (byteAt port bs 1).getD (d.uart0.reg .dlh) else d.uart0.reg .dlh
    cases d.uart0.dlab <;> rfl

theorem uartWrites_stdout (g : Globals) {port : UInt16} {bs : List UInt8}
    (h : byteAt port bs 0 = none) (d : Devices) :
    (uartWrites g port bs d).stdout = d.stdout := by
  induction bs generalizing port d with
  | nil => rfl
  | cons b bs ih =>
    obtain ⟨hrest, hp⟩ := byteAt_cons_none.1 h
    rw [uartWrites, ih hrest, uartWrite_stdout, if_neg fun hc => hp hc.1, List.append_nil]

theorem uartWrite_pulses (g : Globals) {port : UInt16} (h : offset port ≠ 0) (b : UInt8)
    (d : Devices) :
    (uartWrite g port b d).pulses =
      d.pulses ++ if offset port = 1 ∧ d.uart0.dlab = false then ierIrqs g (some b) else [] := by
  have hier : (pulseThre g { d with uart0 := { d.uart0 with ier := b } }).pulses =
      d.pulses ++ ierIrqs g (some b) := by
    unfold pulseThre pulseIrqLine ierIrqs
    by_cases hs : g.linuxSerialInputEnabled = true ∧ b &&& 0x02 ≠ 0
    · rw [if_pos hs]
      by_cases hf : g.vmFd < 0
      · rw [if_pos hf]
        simp only
        rw [if_neg fun hc => absurd hc.2.2 (by omega), List.append_nil]
      · rw [if_neg hf]
        simp only
        rw [if_pos ⟨hs.1, hs.2, by omega⟩]
    · rw [if_neg hs]
      simp only
      rw [if_neg fun hc => hs ⟨hc.1, hc.2.1⟩, List.append_nil]
  unfold uartWrite
  unfold offset at h ⊢
  split
  · rename_i h0
    exact absurd h0 h
  · rename_i h1
    cases hd : d.uart0.dlab with
    | true => simp [h1]
    | false => simpa [h1] using hier
  all_goals simp_all

theorem uartWrites_pulses_none (g : Globals) {port : UInt16} {bs : List UInt8}
    (h0 : byteAt port bs 0 = none) (h1 : byteAt port bs 1 = none) (d : Devices) :
    (uartWrites g port bs d).pulses = d.pulses := by
  induction bs generalizing port d with
  | nil => rfl
  | cons b bs ih =>
    obtain ⟨h0, hp0⟩ := byteAt_cons_none.1 h0
    obtain ⟨h1, hp1⟩ := byteAt_cons_none.1 h1
    rw [uartWrites, ih h0 h1, uartWrite_pulses g hp0, if_neg fun hc => hp1 hc.1, List.append_nil]

/-- The block pulses what its byte in IER asks for, while DLAB is clear. -/
theorem uartWrites_pulses (g : Globals) {port : UInt16} {bs : List UInt8} (h : Block port bs)
    (d : Devices) :
    (uartWrites g port bs d).pulses =
      d.pulses ++ if d.uart0.dlab then [] else ierIrqs g (byteAt port bs 1) := by
  cases h1 : byteAt port bs 1 with
  | none =>
    rw [uartWrites_pulses_none g h.noThr h1]
    show d.pulses = d.pulses ++ if d.uart0.dlab then [] else []
    rw [ite_self, List.append_nil]
  | some v =>
    -- the block starts at IER
    cases bs with
    | nil => cases h1
    | cons b bs =>
      obtain ⟨h0, hp0⟩ := byteAt_cons_none.1 h.noThr
      have hsmall := h.small
      rw [byteAt_eq hsmall] at h1
      have hp1 : offset port = 1 := by
        split at h1
        · omega
        · cases h1
      have hv : b = v := by
        rw [hp1] at h1
        exact Option.some_inj.1 h1
      have hrest : byteAt (port + 1) bs 1 = none := by
        have hs : offset (port + 1) = offset port + 1 := offset_succ (by omega)
        rw [List.length_cons] at hsmall
        rw [byteAt_eq (by rw [hs]; omega), if_neg (by omega)]
      rw [uartWrites, uartWrites_pulses_none g h0 hrest, uartWrite_pulses g hp0, hv]
      cases d.uart0.dlab <;> simp [hp1]

theorem uartWrites_other (g : Globals) (port : UInt16) (bs : List UInt8) (d : Devices) :
    (uartWrites g port bs d).cmosIndex = d.cmosIndex ∧
      (uartWrites g port bs d).port92 = d.port92 ∧ (uartWrites g port bs d).unread = d.unread := by
  have hthre : ∀ d', (pulseThre g d').cmosIndex = d'.cmosIndex := fun d' => by
    unfold pulseThre pulseIrqLine
    split
    · split <;> rfl
    · rfl
  have hcmos : ∀ p b d', (uartWrite g p b d').cmosIndex = d'.cmosIndex := fun p b d' => by
    unfold uartWrite
    split
    · split
      · rfl
      · exact hthre _
    · split
      · rfl
      · exact hthre _
    all_goals rfl
  induction bs generalizing port d with
  | nil => exact ⟨rfl, rfl, rfl⟩
  | cons b bs ih =>
    obtain ⟨h1, h2, h3⟩ := ih (port + 1) (uartWrite g port b d)
    exact ⟨h1.trans (hcmos port b d), h2.trans (uartWrite_port92 g port b d),
      h3.trans (unread_uartWrite g port b d)⟩

/-! ## Equally placed blocks -/

/-- Several blocks, one after the other. -/
def writeElems (g : Globals) (port : UInt16) (cs : List (List UInt8)) (d : Devices) : Devices :=
  cs.foldl (fun d c => uartWrites g port c d) d

theorem writeElems_cons (g : Globals) (port : UInt16) (c : List UInt8) (cs : List (List UInt8))
    (d : Devices) :
    writeElems g port (c :: cs) d = writeElems g port cs (uartWrites g port c d) := rfl

theorem Block.of_length {port : UInt16} {bs cs : List UInt8} (h : Block port bs)
    (hlen : cs.length = bs.length) : Block port cs := by
  have hn := byteAt_none_iff h.small hlen
  exact ⟨(hn 0).2 h.noThr, h.noBank.imp (hn 1).2 (hn 3).2, by rw [hlen]; exact h.small⟩

/-- The register file after a block. -/
def storeBlock (port : UInt16) (u : Uart16550) (bs : List UInt8) : Uart16550 :=
  u.store (byteAt port bs 1) (byteAt port bs 3) (byteAt port bs 4)

theorem getD_getD {x y : Option UInt8} {v : UInt8} (h : y = none ↔ x = none) :
    y.getD (x.getD v) = y.getD v := by
  cases y with
  | none => rw [h.1 rfl]; rfl
  | some y => rfl

/-- The later of two stores in the same registers counts. -/
theorem store_store (u : Uart16550) {b1 b3 b4 c1 c3 c4 : Option UInt8} (h1 : c1 = none ↔ b1 = none)
    (h3 : c3 = none ↔ b3 = none) (h4 : c4 = none ↔ b4 = none) (hbank : b1 = none ∨ b3 = none) :
    (u.store b1 b3 b4).store c1 c3 c4 = u.store c1 c3 c4 := by
  rcases hbank with rfl | rfl
  · rw [h1.2 rfl]
    simp only [Uart16550.store, Option.getD_none, ite_self, getD_getD h3, getD_getD h4]
  · rw [h3.2 rfl]
    have hd : (u.store b1 none b4).dlab = u.dlab := rfl
    unfold Uart16550.store at hd ⊢
    rw [hd]
    cases u.dlab <;>
      simp only [Option.getD_none, if_true, if_false, Bool.false_eq_true, getD_getD h1,
        getD_getD h4]

theorem storeBlock_storeBlock {port : UInt16} {bs cs : List UInt8} (h : Block port bs)
    (hlen : cs.length = bs.length) (u : Uart16550) :
    storeBlock port (storeBlock port u bs) cs = storeBlock port u cs :=
  have hn := byteAt_none_iff h.small hlen
  store_store u (hn 1) (hn 3) (hn 4) h.noBank

/-- Blocks that do not reach IER pulse nothing. -/
theorem ierIrqs_nil (g : Globals) {port : UInt16} {cs : List (List UInt8)}
    (h : ∀ c ∈ cs, byteAt port c 1 = none) :
    (cs.flatMap fun c => ierIrqs g (byteAt port c 1)) = [] :=
  List.flatMap_eq_nil_iff.2 fun c hc => by rw [h c hc]; rfl

/-- The last of several equally placed blocks counts. -/
theorem writeElems_spec (g : Globals) {port : UInt16} {bs : List UInt8} (h : Block port bs)
    {cs : List (List UInt8)} (hcs : ∀ c ∈ cs, c.length = bs.length) (d : Devices) :
    (writeElems g port cs (uartWrites g port bs d)).uart0 =
        storeBlock port d.uart0 (cs.getLastD bs) ∧
      (writeElems g port cs (uartWrites g port bs d)).stdout = d.stdout ∧
      (writeElems g port cs (uartWrites g port bs d)).pulses =
        d.pulses ++ if d.uart0.dlab then []
          else (bs :: cs).flatMap fun c => ierIrqs g (byteAt port c 1) := by
  induction cs generalizing bs d with
  | nil =>
    refine ⟨uartWrites_store g h d, uartWrites_stdout g h.noThr d, ?_⟩
    rw [List.flatMap_cons, List.flatMap_nil, List.append_nil]
    exact uartWrites_pulses g h d
  | cons c cs ih =>
    have hc := hcs c List.mem_cons_self
    have hblock := h.of_length hc
    obtain ⟨i1, i2, i3⟩ := ih hblock
      (fun c' hc' => (hcs c' (List.mem_cons_of_mem _ hc')).trans hc.symm) (uartWrites g port bs d)
    rw [writeElems_cons, i1, i2, i3]
    refine ⟨?_, uartWrites_stdout g h.noThr d, ?_⟩
    · have hlast : (cs.getLastD c).length = bs.length := hcs _ List.getLastD_mem_cons
      rw [uartWrites_store g h, List.getLastD_cons]
      exact storeBlock_storeBlock h hlast d.uart0
    · rw [uartWrites_pulses g h, List.append_assoc]
      congr 1
      rcases h.noBank with h1 | h3
      · have hnone : ∀ c' ∈ bs :: c :: cs, byteAt port c' 1 = none := by
          intro c' hc'
          rcases List.mem_cons.1 hc' with rfl | hc'
          · exact h1
          · exact (byteAt_none_iff h.small (hcs c' hc') 1).2 h1
        rw [ierIrqs_nil g hnone, ierIrqs_nil g fun c' hc' => hnone c' (List.mem_cons_of_mem _ hc'),
          ite_self, ite_self, h1]
        show (if d.uart0.dlab then [] else []) ++ [] = []
        rw [ite_self, List.append_nil]
      · rw [dlab_uartWrites g d h3]
        cases d.uart0.dlab <;> rfl

/-! ## Other blocks

A block with THR prints once for each element, unless its own LCR byte closes
THR; and then, as in a block with IER and LCR, the next element reaches a
register that the first one did not. -/

section Congr

variable (g : Globals) {q : Reg} {d d' : Devices}

/-- Two devices with one DLAB agree on a register as long as both are written alike. -/
theorem uartWrite_reg_congr (hl : d.uart0.lcr = d'.uart0.lcr) (hq : d.uart0.reg q = d'.uart0.reg q)
    (port : UInt16) (b : UInt8) :
    (uartWrite g port b d).uart0.reg q = (uartWrite g port b d').uart0.reg q := by
  have hd : d.uart0.dlab = d'.uart0.dlab := by
    unfold Uart16550.dlab
    rw [hl]
  rw [uartWrite_reg, uartWrite_reg, hd, hq]

theorem uartWrites_reg_congr (hl : d.uart0.lcr = d'.uart0.lcr)
    (hq : d.uart0.reg q = d'.uart0.reg q) (port : UInt16) (bs : List UInt8) :
    (uartWrites g port bs d).uart0.lcr = (uartWrites g port bs d').uart0.lcr ∧
      (uartWrites g port bs d).uart0.reg q = (uartWrites g port bs d').uart0.reg q := by
  induction bs generalizing port d d' with
  | nil => exact ⟨hl, hq⟩
  | cons b bs ih =>
    exact ih (uartWrite_reg_congr g (q := .lcr) hl hl port b) (uartWrite_reg_congr g hl hq port b)
      (port + 1)

theorem writeElems_reg_congr (hl : d.uart0.lcr = d'.uart0.lcr)
    (hq : d.uart0.reg q = d'.uart0.reg q) (port : UInt16) (cs : List (List UInt8)) :
    (writeElems g port cs d).uart0.reg q = (writeElems g port cs d').uart0.reg q := by
  induction cs generalizing d d' with
  | nil => exact hq
  | cons c cs ih =>
    obtain ⟨h1, h2⟩ := uartWrites_reg_congr g hl hq port c
    exact ih h1 h2

end Congr

theorem stdout_le_uartWrites (g : Globals) (port : UInt16) (bs : List UInt8) (d : Devices) :
    d.stdout.length ≤ (uartWrites g port bs d).stdout.length := by
  induction bs generalizing port d with
  | nil => exact Nat.le_refl _
  | cons b bs ih =>
    refine Nat.le_trans ?_ (ih (port + 1) (uartWrite g port b d))
    rw [uartWrite_stdout, List.length_append]
    omega

theorem stdout_le_writeElems (g : Globals) (port : UInt16) (cs : List (List UInt8)) (d : Devices) :
    d.stdout.length ≤ (writeElems g port cs d).stdout.length := by
  induction cs generalizing d with
  | nil => exact Nat.le_refl _
  | cons c cs ih => exact Nat.le_trans (stdout_le_uartWrites g port c d) (ih _)

/-- The next element prints when DLAB is clear. -/
theorem stdout_lt_writeElems (g : Globals) {port : UInt16} (hp : offset port = 0) {c : List UInt8}
    (hc : c ≠ []) (cs : List (List UInt8)) {d : Devices} (hd : d.uart0.dlab = false) :
    d.stdout.length < (writeElems g port (c :: cs) d).stdout.length := by
  obtain ⟨b, bs, rfl⟩ := List.exists_cons_of_ne_nil hc
  refine Nat.lt_of_lt_of_le ?_ (stdout_le_writeElems g port cs _)
  refine Nat.lt_of_lt_of_le ?_ (stdout_le_uartWrites g (port + 1) bs _)
  rw [uartWrite_stdout, if_pos ⟨hp, hd⟩, List.length_append]
  exact Nat.lt_succ_self _

/-- DLAB after a block with a byte in LCR. -/
theorem dlab_of_block (g : Globals) {port : UInt16} {bs : List UInt8} {w : UInt8}
    (h : byteAt port bs 3 = some w) (d : Devices) :
    (uartWrites g port bs d).uart0.dlab = decide (w &&& 0x80 ≠ 0) := by
  have hl : (uartWrites g port bs d).uart0.lcr = w := by
    have hr : (uartWrites g port bs d).uart0.reg .lcr =
        (byteAt port bs 3).getD (d.uart0.reg .lcr) := uartWrites_reg g (Or.inl lcr_target)
    rw [h] at hr
    exact hr
  unfold Uart16550.dlab
  rw [hl]

/-- A block that begins at a register of bank `v` and leaves DLAB at `v`: from
the other bank, the first element keeps that register and the second sets it. -/
theorem ne_of_two_banks (g : Globals) {port : UInt16} {b : UInt8} {bs c : List UInt8}
    (cs : List (List UInt8)) {v : Bool} {r : Reg} (hr : r = .dll ∨ r = .dlh ∨ r = .ier)
    (hdlab : ∀ d, (uartWrites g port (b :: bs) d).uart0.dlab = v)
    (hv : target v (offset port) = some r) (hn : target (!v) (offset port) ≠ some r)
    (hbs : ∀ dl off, target dl off = some r → byteAt (port + 1) bs off = none) (hc : c ≠ []) :
    ∃ d : Devices, (uartWrites g port (b :: bs) d).uart0 ≠
      (writeElems g port (c :: cs) (uartWrites g port (b :: bs) d)).uart0 := by
  by_contra hall
  have hall : ∀ d : Devices, (uartWrites g port (b :: bs) d).uart0 =
      (writeElems g port (c :: cs) (uartWrites g port (b :: bs) d)).uart0 := fun d =>
    by_contra fun hd => hall ⟨d, hd⟩
  -- the three registers hold `x`, and DLAB selects the other bank
  let start : UInt8 → Devices := fun x =>
    { uart0 := { ier := x, dll := x, dlh := x, lcr := if v then 0 else 0x80 } }
  have hstart : ∀ x, (start x).uart0.dlab = !v ∧ (start x).uart0.reg r = x := by
    intro x
    refine ⟨?_, by rcases hr with rfl | rfl | rfl <;> rfl⟩
    show decide ((if v then (0 : UInt8) else 0x80) &&& 0x80 ≠ 0) = !v
    cases v <;> decide
  have hfirst : ∀ x, (uartWrites g port (b :: bs) (start x)).uart0.reg r = x := by
    intro x
    rw [uartWrites, uartWrites_reg_out g fun dl _ off ht => hbs dl off ht, uartWrite_reg,
      (hstart x).1, if_neg hn, (hstart x).2]
  have hsecond : ∀ x y,
      (writeElems g port (c :: cs) (uartWrites g port (b :: bs) (start x))).uart0.reg r =
        (writeElems g port (c :: cs) (uartWrites g port (b :: bs) (start y))).uart0.reg r := by
    intro x y
    have hxy : (start x).uart0.lcr = (start y).uart0.lcr := rfl
    have hl := (uartWrites_reg_congr g (q := .lcr) hxy hxy port (b :: bs)).1
    obtain ⟨c0, c', rfl⟩ := List.exists_cons_of_ne_nil hc
    have h0 : ∀ z, (uartWrite g port c0 (uartWrites g port (b :: bs) (start z))).uart0.reg r = c0 :=
      fun z => by rw [uartWrite_reg, hdlab, if_pos hv]
    obtain ⟨h1, h2⟩ := uartWrites_reg_congr g (q := r)
      (uartWrite_reg_congr g (q := .lcr) hl hl port c0) ((h0 x).trans (h0 y).symm) (port + 1) c'
    exact writeElems_reg_congr g h1 h2 port cs
  have h01 : (0 : UInt8) = 1 :=
    calc (0 : UInt8) = (uartWrites g port (b :: bs) (start 0)).uart0.reg r := (hfirst 0).symm
      _ = (writeElems g port (c :: cs) (uartWrites g port (b :: bs) (start 0))).uart0.reg r := by
          rw [← hall]
      _ = (writeElems g port (c :: cs) (uartWrites g port (b :: bs) (start 1))).uart0.reg r :=
          hsecond 0 1
      _ = (uartWrites g port (b :: bs) (start 1)).uart0.reg r := by rw [← hall]
      _ = 1 := hfirst 1
  exact absurd h01 (by decide)

section Other

variable (g : Globals) {port : UInt16} {b : UInt8} {bs c : List UInt8}

/-- The bytes behind the first lie at higher offsets. -/
theorem byteAt_tail_none (hsmall : offset port + (b :: bs).length ≤ 65536) {off : Nat}
    (ho : off ≤ offset port) : byteAt (port + 1) bs off = none := by
  cases bs with
  | nil => rfl
  | cons b' bs =>
    rw [List.length_cons, List.length_cons] at hsmall
    have hs : offset (port + 1) = offset port + 1 := offset_succ (by omega)
    rw [byteAt_eq (by rw [hs, List.length_cons]; omega), if_neg (by omega)]

/-- THR: the next element prints, or reaches DLL. -/
theorem ne_of_thr (cs : List (List UInt8)) (hsmall : offset port + (b :: bs).length ≤ 65536)
    (hc : c ≠ []) (hp : offset port = 0) :
    ∃ d : Devices,
      (uartWrites g port (b :: bs) d).uart0 ≠
          (writeElems g port (c :: cs) (uartWrites g port (b :: bs) d)).uart0 ∨
        (uartWrites g port (b :: bs) d).stdout.length <
          (writeElems g port (c :: cs) (uartWrites g port (b :: bs) d)).stdout.length := by
  by_cases hd : (uartWrites g port (b :: bs) {}).uart0.dlab = false
  · exact ⟨{}, Or.inr (stdout_lt_writeElems g hp hc cs hd)⟩
  · have h3 : byteAt port (b :: bs) 3 ≠ none := fun h3 => hd (dlab_uartWrites g {} h3)
    obtain ⟨w, hw⟩ := Option.ne_none_iff_exists'.1 h3
    have hdlab : ∀ d, (uartWrites g port (b :: bs) d).uart0.dlab = true := fun d => by
      rw [dlab_of_block g hw d, ← dlab_of_block g hw {}]
      simpa using hd
    obtain ⟨d, hd⟩ := ne_of_two_banks g cs (r := .dll) (Or.inl rfl) hdlab
      (by rw [hp]; rfl) (by rw [hp]; decide)
      (fun dl off ht => byteAt_tail_none hsmall (Nat.le_of_eq ((target_dll ht).1.trans hp.symm))) hc
    exact ⟨d, Or.inl hd⟩

/-- IER and LCR: the next element reaches the other register at offset 1. -/
theorem ne_of_ier_lcr (cs : List (List UInt8)) (hsmall : offset port + (b :: bs).length ≤ 65536)
    (hc : c ≠ []) (hp : offset port = 1) {w : UInt8} (hw : byteAt port (b :: bs) 3 = some w) :
    ∃ d : Devices, (uartWrites g port (b :: bs) d).uart0 ≠
      (writeElems g port (c :: cs) (uartWrites g port (b :: bs) d)).uart0 := by
  have hdlab := dlab_of_block g hw
  cases hv : decide (w &&& 0x80 ≠ 0) with
  | true =>
    rw [hv] at hdlab
    exact ne_of_two_banks g cs (r := .dlh) (Or.inr (Or.inl rfl)) hdlab
      (by rw [hp]; rfl) (by rw [hp]; decide)
      (fun dl off ht => byteAt_tail_none hsmall (Nat.le_of_eq ((target_dlh ht).1.trans hp.symm))) hc
  | false =>
    rw [hv] at hdlab
    exact ne_of_two_banks g cs (r := .ier) (Or.inr (Or.inr rfl)) hdlab
      (by rw [hp]; rfl) (by rw [hp]; decide)
      (fun dl off ht => byteAt_tail_none hsmall (Nat.le_of_eq ((target_ier ht).1.trans hp.symm))) hc

end Other

/-- The blocks with THR, or with both IER and LCR: some devices tell two elements
from one. -/
theorem ne_of_not_block (g : Globals) {port : UInt16} {bs c : List UInt8} (cs : List (List UInt8))
    (hsmall : offset port + bs.length ≤ 65536) (hlen : c.length = bs.length)
    (h : ¬ Block port bs) :
    ∃ d : Devices,
      (uartWrites g port bs d).uart0 ≠
          (writeElems g port (c :: cs) (uartWrites g port bs d)).uart0 ∨
        (uartWrites g port bs d).stdout.length <
          (writeElems g port (c :: cs) (uartWrites g port bs d)).stdout.length := by
  cases bs with
  | nil => exact absurd ⟨rfl, Or.inl rfl, hsmall⟩ h
  | cons b bs =>
    have hc : c ≠ [] := by
      intro hc
      rw [hc] at hlen
      cases hlen
    have hat := byteAt_eq hsmall
    by_cases hp0 : offset port = 0
    · exact ne_of_thr g cs hsmall hc hp0
    · have h0 : byteAt port (b :: bs) 0 = none := by
        rw [hat, if_neg (by omega)]
      have hbank : ¬ (byteAt port (b :: bs) 1 = none ∨ byteAt port (b :: bs) 3 = none) :=
        fun hb => h ⟨h0, hb, hsmall⟩
      obtain ⟨h1, h3⟩ := not_or.1 hbank
      have hp : offset port = 1 := by
        rw [hat] at h1
        by_contra hne
        exact h1 (if_neg (by omega))
      obtain ⟨w, hw⟩ := Option.ne_none_iff_exists'.1 h3
      obtain ⟨d, hd⟩ := ne_of_ier_lcr g cs hsmall hc hp hw
      exact ⟨d, Or.inl hd⟩

/-! ## One element or all of them -/

/-- The same registers, unread bytes, output and interrupts. -/
structure SameDev (d d' : Devices) : Prop where
  uart0 : d.uart0 = d'.uart0
  cmosIndex : d.cmosIndex = d'.cmosIndex
  port92 : d.port92 = d'.port92
  unread : d.unread = d'.unread
  stdout : d.stdout = d'.stdout
  pulses : d.pulses = d'.pulses

theorem SameDev.refl (d : Devices) : SameDev d d := ⟨rfl, rfl, rfl, rfl, rfl, rfl⟩

/-- Stores that repeat: no THR, not both IER and LCR, the last element with the
bytes of the first, and no later element that pulses. -/
structure Repeats (g : Globals) (port : UInt16) (bs : List UInt8) (cs : List (List UInt8)) :
    Prop where
  block : Block port bs
  last : ∀ off ∈ [1, 3, 4], byteAt port (cs.getLastD bs) off = byteAt port bs off
  quiet : ∀ c ∈ cs, ierIrqs g (byteAt port c 1) = []

theorem writeElems_other (g : Globals) (port : UInt16) (cs : List (List UInt8)) (d : Devices) :
    (writeElems g port cs d).cmosIndex = d.cmosIndex ∧ (writeElems g port cs d).port92 = d.port92 ∧
      (writeElems g port cs d).unread = d.unread := by
  induction cs generalizing d with
  | nil => exact ⟨rfl, rfl, rfl⟩
  | cons c cs ih =>
    obtain ⟨h1, h2, h3⟩ := ih (uartWrites g port c d)
    obtain ⟨o1, o2, o3⟩ := uartWrites_other g port c d
    exact ⟨h1.trans o1, h2.trans o2, h3.trans o3⟩

theorem getD_inj {x y : Option UInt8} {v : UInt8} (h : y = none ↔ x = none)
    (hv : y.getD v = x.getD v) : y = x := by
  cases y with
  | none => exact (h.1 rfl).symm
  | some y =>
    cases x with
    | none => cases h.2 rfl
    | some x => exact congrArg some hv

/-- After the first element the others change nothing, from any devices, exactly
when the stores repeat. -/
theorem writeElems_same_iff (g : Globals) {port : UInt16} {bs c : List UInt8}
    {cs : List (List UInt8)} (hsmall : offset port + bs.length ≤ 65536)
    (hlen : ∀ c' ∈ c :: cs, c'.length = bs.length) :
    (∀ d, SameDev (writeElems g port (c :: cs) (uartWrites g port bs d)) (uartWrites g port bs d)) ↔
      Repeats g port bs (c :: cs) := by
  constructor
  · intro hall
    have hblock : Block port bs := by
      by_contra hn
      obtain ⟨d, hd | hd⟩ := ne_of_not_block g cs hsmall (hlen c List.mem_cons_self) hn
      · exact hd (hall d).uart0.symm
      · rw [(hall d).stdout] at hd
        exact Nat.lt_irrefl _ hd
    have hlast : ((c :: cs).getLastD bs).length = bs.length := by
      rw [List.getLastD_cons]
      exact hlen _ List.getLastD_mem_cons
    have hn := byteAt_none_iff hsmall hlast
    obtain ⟨s1, -, s3⟩ := writeElems_spec g hblock hlen {}
    have hu : storeBlock port {} ((c :: cs).getLastD bs) = storeBlock port {} bs := by
      rw [← s1, (hall {}).uart0]
      exact uartWrites_store g hblock {}
    have hp := (hall {}).pulses
    rw [s3, uartWrites_pulses g hblock] at hp
    refine ⟨hblock, fun off hoff => ?_, ?_⟩
    · simp only [List.mem_cons, List.not_mem_nil, or_false] at hoff
      rcases hoff with rfl | rfl | rfl
      · exact getD_inj (hn 1) (congrArg Uart16550.ier hu)
      · exact getD_inj (hn 3) (congrArg Uart16550.lcr hu)
      · exact getD_inj (hn 4) (congrArg Uart16550.mcr hu)
    · have hp := List.append_cancel_left hp
      have hd : ({} : Devices).uart0.dlab = false := rfl
      rw [hd, if_neg (by decide), if_neg (by decide), List.flatMap_cons] at hp
      exact List.flatMap_eq_nil_iff.1 (List.append_right_eq_self.1 hp)
  · intro h d
    obtain ⟨s1, s2, s3⟩ := writeElems_spec g h.block hlen d
    obtain ⟨o1, o2, o3⟩ := writeElems_other g port (c :: cs) (uartWrites g port bs d)
    refine ⟨?_, o1, o2, o3, ?_, ?_⟩
    · rw [s1, uartWrites_store g h.block]
      unfold storeBlock
      rw [h.last 1 (by decide), h.last 3 (by decide), h.last 4 (by decide)]
    · rw [s2, uartWrites_stdout g h.block.noThr]
    · rw [s3, uartWrites_pulses g h.block, List.flatMap_cons, List.flatMap_eq_nil_iff.2 h.quiet,
        List.append_nil]

end MiniKvm.Vmm
