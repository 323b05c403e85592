import MiniKvm.Vmm.Guests

/-!
# What becomes of a loaded image

`load_guest_binary` runs before `setup_vcpu_context`, and its only check is
that the file fits into the memory. The tables are then written at fixed
places. `tableByte` says, for each mode, which byte is written where; the
memory of a guest that is ready to run is its file with these bytes over it
(`Ready.mem_eq`), so the file survives exactly when every byte of it that lies
under a table is the byte of that table.
-/
namespace MiniKvm.Vmm

open Paging

/-- The byte the VMM writes at an address of guest memory after the image has
been loaded, if it writes there. -/
def tableByte (mode : Mode) (a : Nat) : Option UInt8 :=
  match mode with
  | .real => none
  | .paging =>
    if 0x500 ≤ a ∧ a < 0x528 then some (gdtImage.getD (a - 0x500) 0)
    else if 0x528 ≤ a ∧ a < 0xD28 then some 0
    else if 0x100000 ≤ a ∧ a < 0x101000 then
      some ((leBytes 4 (pdWord ((a - 0x100000) / 4))).getD (a % 4) 0)
    else if 0x101000 ≤ a ∧ a < 0x102000 then
      some ((leBytes 4 (ptWord ((a - 0x101000) / 4))).getD (a % 4) 0)
    else if 0x102000 ≤ a ∧ a < 0x103000 then
      some ((leBytes 4 (ptWord ((a - 0x102000) / 4))).getD (a % 4) 0)
    else none
  | .longMode =>
    if 0x2000 ≤ a ∧ a < 0x3000 then
      some ((leBytes 8 (headWord 0x3007 ((a - 0x2000) / 8))).getD (a % 8) 0)
    else if 0x3000 ≤ a ∧ a < 0x4000 then
      some ((leBytes 8 (headWord 0x4007 ((a - 0x3000) / 8))).getD (a % 8) 0)
    else if 0x4000 ≤ a ∧ a < 0x5000 then
      some ((leBytes 8 (pdWord64 2 ((a - 0x4000) / 8))).getD (a % 8) 0)
    else if 0x5000 ≤ a ∧ a < 0x5028 then some (gdt64Byte (a - 0x5000))
    else if 0x5028 ≤ a ∧ a < 0x6000 then some 0
    else none

/-- The areas of guest memory that a mode's tables occupy. -/
def InTables (mode : Mode) (a : Nat) : Prop :=
  match mode with
  | .real => False
  | .paging => 0x500 ≤ a ∧ a < 0xD28 ∨ 0x100000 ≤ a ∧ a < 0x103000
  | .longMode => 0x2000 ≤ a ∧ a < 0x6000

theorem tableByte_isSome_iff (mode : Mode) (a : Nat) : (tableByte mode a).isSome ↔
    InTables mode a := by
  cases mode with
  | real => simp [tableByte, InTables]
  | paging =>
    simp only [tableByte, InTables]
    split_ifs <;> simp <;> omega
  | longMode =>
    simp only [tableByte, InTables]
    split_ifs <;> simp <;> omega

/-- A byte of a table whose words are known. -/
theorem byte_of_words {m : Mem} {w base n : Nat} {f : Nat → Nat} (hw : 0 < w)
    (h : ∀ i < n, m.load w (base + w * i) = f i) {a : Nat} (h1 : base ≤ a) (h2 : a < base + w * n)
    (hb : base % w = 0) : m a = (leBytes w (f ((a - base) / w))).getD (a % w) 0 := by
  have hi : (a - base) / w < n := (Nat.div_lt_iff_lt_mul hw).2 (by rw [Nat.mul_comm]; omega)
  have hdm := Nat.div_add_mod (a - base) w
  have hlt := Nat.mod_lt (a - base) hw
  have hmod : a % w = (a - base) % w := by
    have : a = base + (a - base) := by omega
    rw [this, Nat.add_mod, hb, Nat.zero_add, Nat.mod_mod, Nat.add_sub_cancel_left]
  rw [Mem.byte_of_load m (w := w) (a := base + w * ((a - base) / w)) (by omega) (by omega), h _ hi,
    hmod]
  congr 1
  omega

theorem PagingTables.eq {m m' : Mem} (h : PagingTables m m') (a : Nat) :
    m' a = (tableByte .paging a).getD (m a) := by
  simp only [tableByte]
  split_ifs with h1 h2 h3 h4 h5
  · have := h.gdt (a - 0x500) (by omega)
    rw [Nat.add_sub_cancel' h1.1] at this
    rw [Option.getD_some, this]
  · exact h.idt a h2.1 h2.2
  · exact byte_of_words (by omega) h.tables.pd h3.1 (by omega) (by decide)
  · exact byte_of_words (by omega) h.tables.pt0 h4.1 (by omega) (by decide)
  · exact byte_of_words (by omega) h.tables.pt512 h5.1 (by omega) (by decide)
  · exact h.frame a (by omega) (by omega)

theorem LongTables.eq {m m' : Mem} (h : LongTables 2 m m') (a : Nat) :
    m' a = (tableByte .longMode a).getD (m a) := by
  simp only [tableByte]
  split_ifs with h1 h2 h3 h4 h5
  · exact byte_of_words (by omega) h.tables.pml4 h1.1 (by omega) (by decide)
  · exact byte_of_words (by omega) h.tables.pdpt h2.1 (by omega) (by decide)
  · exact byte_of_words (by omega) h.tables.pd h3.1 (by omega) (by decide)
  · have := h.gdt (a - 0x5000) (by omega)
    rw [Nat.add_sub_cancel' h4.1] at this
    rw [Option.getD_some, this]
  · exact h.rest a h5.1 h5.2
  · exact h.frame a (by omega)

section Ready

variable {o : Opts} {k : GuestCalls} {i : Nat} {c : Vcpu} {v : Machine}

/-- Where the file of a guest goes. -/
def Opts.imageAddr (o : Opts) : Nat := if o.mode.enablePaging then o.loadOffset.toNat else 0

theorem initContext_loadOffset (o : Opts) (i : Nat) :
    (initContext o i).loadOffset.toNat = o.imageAddr := by
  unfold initContext Opts.imageAddr
  cases o.mode.enablePaging <;> rfl

theorem Ready.mem_eq (h : Ready o k i c v) {f : HostFile} (hf : k.load.fopen = some f) (a : Nat) :
    v.mem a = (tableByte o.mode a).getD (Mem.write (fun _ => 0) o.imageAddr f.bytes a) := by
  obtain ⟨f', hf', -, hcfg⟩ := h.image
  obtain rfl : f = f' := Option.some.inj (hf.symm.trans hf')
  rw [initContext_loadOffset] at hcfg
  cases hm : o.mode with
  | real =>
    simp only [Configured, initContext, hm, Mode.enableLongMode, Mode.enablePaging] at hcfg
    rw [hcfg.1]
    rfl
  | paging =>
    simp only [Configured, initContext, hm, Mode.enableLongMode, Mode.enablePaging] at hcfg
    exact hcfg.1.eq a
  | longMode =>
    simp only [Configured, initContext, hm, Mode.enableLongMode, Mode.enablePaging] at hcfg
    exact LongTables.eq hcfg.1 a

end Ready

/-- The file is still in guest memory, byte for byte. -/
def ImageIntact (o : Opts) (f : HostFile) (m : Mem) : Prop :=
  ∀ j (hj : j < f.bytes.length), m (o.imageAddr + j) = f.bytes[j]

/-- Every byte of the file that falls under a table is the table's byte there. -/
def AgreesWithTables (o : Opts) (f : HostFile) : Prop :=
  ∀ j (hj : j < f.bytes.length), ∀ b ∈ tableByte o.mode (o.imageAddr + j), f.bytes[j] = b

theorem Ready.intact_iff {o : Opts} {k : GuestCalls} {i : Nat} {c : Vcpu} {v : Machine}
    (h : Ready o k i c v) {f : HostFile} (hf : k.load.fopen = some f) :
    ImageIntact o f v.mem ↔ AgreesWithTables o f := by
  refine forall₂_congr fun j hj => ?_
  rw [h.mem_eq hf, Mem.write_add _ hj]
  cases tableByte o.mode (o.imageAddr + j) with
  | none => simp
  | some b => simp [eq_comm]

/-- An image that touches no table survives. -/
theorem Ready.intact_of_disjoint {o : Opts} {k : GuestCalls} {i : Nat} {c : Vcpu} {v : Machine}
    (h : Ready o k i c v) {f : HostFile} (hf : k.load.fopen = some f)
    (hd : ∀ j < f.bytes.length, ¬ InTables o.mode (o.imageAddr + j)) : ImageIntact o f v.mem := by
  rw [h.intact_iff hf]
  intro j hj b hb
  exact absurd ((tableByte_isSome_iff _ _).1 (Option.isSome_iff_exists.2 ⟨b, hb⟩)) (hd j hj)

/-- When the vCPUs are about to start, the file of guest `i` is intact exactly
when it agrees with the tables of its mode wherever it lies under them. -/
theorem image_intact_iff {o : Opts} {ks : List GuestCalls} {h0 h : Host}
    (hs : setupGuests o ks 0 h0 = (true, h)) {i : Nat} (hi : i < ks.length) {f : HostFile}
    (hf : ks[i].load.fopen = some f) :
    ImageIntact o f (h.machines i).mem ↔ AgreesWithTables o f :=
  (allReady_of_setup hs i hi).intact_iff hf

/-- `--long-mode --load 0x2000` with a one-byte guest. -/
def hltAtPml4 : Opts := { mode := .longMode, loadOffset := 0x2000 }

theorem image_intact_iff_hlt :
    ImageIntact hltAtPml4 .hlt
      ((setupGuests hltAtPml4 [.ofFile .hlt] 0 .afterInit).2.machines 0).mem ↔
      AgreesWithTables hltAtPml4 .hlt :=
  have hs : setupGuests hltAtPml4 [.ofFile .hlt] 0 .afterInit
      = (true, (setupGuests hltAtPml4 [.ofFile .hlt] 0 .afterInit).2) := Prod.ext (by rfl) rfl
  image_intact_iff hs (by decide) rfl

/-- The PML4 overwrites the guest that was loaded there. -/
theorem image_at_pml4_overwritten :
    ¬ ∀ (o : Opts) (ks : List GuestCalls) (h0 h : Host) (i : Nat) (hi : i < ks.length)
      (f : HostFile),
      setupGuests o ks 0 h0 = (true, h) → ks[i].load.fopen = some f →
        ImageIntact o f (h.machines i).mem := by
  intro hall
  let r := setupGuests hltAtPml4 [.ofFile .hlt] 0 .afterInit
  have hs : r = (true, r.2) := Prod.ext (by rfl) rfl
  have hint := hall hltAtPml4 [.ofFile .hlt] .afterInit r.2 0 (by decide) .hlt hs rfl
  have hr : AllReady hltAtPml4 [.ofFile .hlt] r.2 := allReady_of_setup hs
  have hagree := ((hr 0 (by decide)).intact_iff rfl).1 hint
  exact absurd (hagree 0 (by decide) 0x07 (by decide)) (by decide)

end MiniKvm.Vmm
