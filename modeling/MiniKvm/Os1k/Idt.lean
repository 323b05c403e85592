import MiniKvm.Os1k.Kernel
import MiniKvm.Vmm.Tables

/-!
# Interrupt gates of the 1K OS

`setup_idt_entry` (os-1k/kernel.c:495-508) writes a gate as two 32-bit words,
the VMM and the processor read it as `idt_entry_t`. The first word is built
with its halves the wrong way round: the low half of the handler's address
lands in the selector, and the selector in the offset.
-/
namespace MiniKvm.Os1k

open Vmm

/-- `handler` is a 32-bit address.
mirrors kvm-vmm-x86/os-1k/kernel.c:495-508 -/
def setupIdtEntry (vector : Nat) (handler : UInt32) (dpl : Nat) (m : Mem) : Mem :=
  let idt := 0x528
  let handlerAddr := handler.toNat
  let flags := 0x8E00 ||| ((dpl &&& 0x3) <<< 13)
  let m := store32 m (idt + 4 * (vector * 2 + 0)) (((handlerAddr &&& 0xFFFF) <<< 16) ||| 0x0008)
  store32 m (idt + 4 * (vector * 2 + 1)) ((handlerAddr &&& 0xFFFF0000) ||| flags)

/-- A present 32-bit interrupt gate to `handler` in the kernel's code segment. -/
structure IsGate (e : IdtEntry) (handler : UInt32) (dpl : Nat) : Prop where
  offset : e.offset = handler.toNat
  selector : e.selector = 0x08
  reserved : e.reserved = 0
  present : e.flags.toNat / 0x80 = 1
  dpl : e.flags.toNat / 0x20 % 4 = dpl
  type : e.flags.toNat % 0x20 = 0xE

/-! ## The two words -/

theorem lowWord_eq (h : Nat) : ((h &&& 0xFFFF) <<< 16) ||| 0x0008 = h % 65536 * 65536 + 8 := by
  rw [show (0xFFFF : Nat) = 2 ^ 16 - 1 from rfl, Nat.and_two_pow_sub_one_eq_mod, Nat.shiftLeft_eq]
  exact or_low_bits (k := 16) _ (by decide)

theorem gateFlags_eq {dpl : Nat} (hdpl : dpl < 4) :
    0x8E00 ||| ((dpl &&& 0x3) <<< 13) = 0x8E00 + dpl * 8192 := by
  have hall : ∀ d < 4, 0x8E00 ||| ((d &&& 0x3) <<< 13) = 0x8E00 + d * 8192 := by decide
  exact hall dpl hdpl

theorem highWord_eq {h dpl : Nat} (hh : h < 2 ^ 32) (hdpl : dpl < 4) :
    (h &&& 0xFFFF0000) ||| (0x8E00 ||| ((dpl &&& 0x3) <<< 13)) =
      h / 65536 * 65536 + (0x8E00 + dpl * 8192) := by
  rw [gateFlags_eq hdpl,
    show h &&& 0xFFFF0000 = h / 2 ^ 16 * 2 ^ 16 from and_high_mask (k := 16) (n := 16) hh]
  exact or_low_bits (k := 16) _ (by omega)

/-! ## What is decoded -/

/-- Entry `vector`, as both sides address it. -/
def gateAddr (vector : Nat) : Nat := idtAddr + IDT_ENTRY_SIZE * vector

theorem setupIdtEntry_eq {vector dpl : Nat} {handler : UInt32} (hv : vector < 256) (hdpl : dpl < 4)
    (m : Mem) :
    setupIdtEntry vector handler dpl m =
      (m.store 4 (gateAddr vector) (handler.toNat % 65536 * 65536 + 8)).store 4
        (gateAddr vector + 4)
        (handler.toNat / 65536 * 65536 + (0x8E00 + dpl * 8192)) := by
  have hg : gateAddr vector = 0x528 + 8 * vector := rfl
  have hkb := KERNEL_BASE_eq
  have hlow : phys (0x528 + 4 * (vector * 2 + 0)) = gateAddr vector := by
    rw [phys, if_neg (by omega)]
    omega
  have hhigh : phys (0x528 + 4 * (vector * 2 + 1)) = gateAddr vector + 4 := by
    rw [phys, if_neg (by omega)]
    omega
  unfold setupIdtEntry store32
  simp only [lowWord_eq, highWord_eq handler.toNat_lt hdpl, hlow, hhigh]

theorem idtEntryAt_setup {vector dpl : Nat} {handler : UInt32} (hv : vector < 256) (hdpl : dpl < 4)
    (m : Mem) :
    idtEntryAt (setupIdtEntry vector handler dpl m) (gateAddr vector) =
      ⟨8, handler.toNat % 65536, 0, UInt8.ofNat (0x8E + dpl * 32), handler.toNat / 65536⟩ := by
  have hlow : ∀ i < 4, setupIdtEntry vector handler dpl m (gateAddr vector + i) =
      UInt8.ofNat ((handler.toNat % 65536 * 65536 + 8) / 256 ^ i) := fun i hi => by
    rw [setupIdtEntry_eq hv hdpl, Mem.store_out _ _ (by omega), Mem.store_byte _ _ hi]
  have hhigh : ∀ i < 4, setupIdtEntry vector handler dpl m (gateAddr vector + (4 + i)) =
      UInt8.ofNat ((handler.toNat / 65536 * 65536 + (0x8E00 + dpl * 8192)) / 256 ^ i) :=
        fun i hi => by
    rw [setupIdtEntry_eq hv hdpl, ← Nat.add_assoc (gateAddr vector), Mem.store_byte _ _ hi]
  have hh := handler.toNat_lt
  have h0 := hlow 0 (by decide)
  rw [Nat.add_zero] at h0
  unfold idtEntryAt
  simp only [Mem.load_two, Nat.add_assoc, h0, hlow 1 (by decide), hlow 2 (by decide),
    hlow 3 (by decide), hhigh 0 (by decide), hhigh 1 (by decide), hhigh 2 (by decide),
    hhigh 3 (by decide)]
  simp only [IdtEntry.mk.injEq, ← UInt8.toNat_inj, UInt8.toNat_ofNat', UInt8.toNat_zero]
  refine ⟨?_, ?_, ?_, ?_, ?_⟩ <;> omega

theorem setupIdtEntry_out {vector dpl : Nat} {handler : UInt32} (hv : vector < 256) (hdpl : dpl < 4)
    (m : Mem) {x : Nat} (hx : x < gateAddr vector ∨ gateAddr vector + IDT_ENTRY_SIZE ≤ x) :
    setupIdtEntry vector handler dpl m x = m x := by
  simp only [IDT_ENTRY_SIZE] at hx
  rw [setupIdtEntry_eq hv hdpl, Mem.store_out _ _ (by omega), Mem.store_out _ _ (by omega)]

/-- The selector is the low half of the handler's address: the gate is right
when that happens to be 8. -/
theorem setup_idt_entry_iff {vector dpl : Nat} (hv : vector < 256) (hdpl : dpl < 4)
    (handler : UInt32) (m : Mem) :
    (IsGate (idtEntryAt (setupIdtEntry vector handler dpl m) (gateAddr vector)) handler dpl ∧
      ∀ x, x < gateAddr vector ∨ gateAddr vector + IDT_ENTRY_SIZE ≤ x →
        setupIdtEntry vector handler dpl m x = m x) ↔
    handler.toNat % 65536 = 8 := by
  have hflags : (UInt8.ofNat (0x8E + dpl * 32)).toNat = 0x8E + dpl * 32 := by
    rw [UInt8.toNat_ofNat']
    omega
  rw [idtEntryAt_setup hv hdpl]
  refine ⟨fun h => h.1.selector,
    fun h => ⟨⟨?_, h, rfl, ?_, ?_, ?_⟩, fun x => setupIdtEntry_out hv hdpl m⟩⟩
  · have hor := or_low_bits (k := 16) (handler.toNat / 65536) (show 8 < 2 ^ 16 by decide)
    rw [IdtEntry.offset, Nat.shiftLeft_eq, Nat.or_comm, hor]
    omega
  · simp only [hflags]
    omega
  · simp only [hflags]
    omega
  · simp only [hflags]
    omega

theorem setup_idt_entry_iff_eight :
    IsGate (idtEntryAt (setupIdtEntry 0x20 0x80010008 0 fun _ => 0) (gateAddr 0x20)) 0x80010008 0 :=
  ((setup_idt_entry_iff (by decide) (by decide) _ _).2 (by decide)).1

/-- The timer's gate, its handler at 0x80001200: selector 0x1200, offset 0x80000008. -/
theorem setup_idt_entry_timer :
    idtEntryAt (setupIdtEntry 0x20 0x80001200 0 fun _ => 0) 0x628 = ⟨8, 0x1200, 0, 0x8E, 0x8000⟩ ∧
      ¬ IsGate (idtEntryAt (setupIdtEntry 0x20 0x80001200 0 fun _ => 0) 0x628) 0x80001200 0 := by
  have he : idtEntryAt (setupIdtEntry 0x20 0x80001200 0 fun _ => 0) 0x628 = ⟨8, 0x1200, 0, 0x8E,
      0x8000⟩ := by
    decide +kernel
  refine ⟨he, fun h => ?_⟩
  have hsel := h.selector
  rw [he] at hsel
  exact absurd hsel (by decide)

end MiniKvm.Os1k
