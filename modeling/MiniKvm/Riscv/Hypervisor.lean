import MiniKvm.Riscv.Vcpu

/-!
# The hypervisor

The RISC-V hypervisor from `main` on (experimental/hypervisor/src): it loads the
image of the guest, maps its first page, and runs the guest; at a trap `handle_trap`
prints a call and goes on, or panics.

What the compiled code does besides, with the registers and on its stack, is left
open in each trap (`Scratch`). The guest is any program that sees its registers and
the memory that the page table maps.

`hypervisor_refines`: what runs is the guest alone, on a computer whose memory is
the first page of the image, and where an `ecall` prints a line and goes on.
-/
namespace MiniKvm.Riscv

/-! ## The source -/

/-- `scause_str`. -/
def scauseNames : List (UInt64 × String) :=
  [(0, "instruction address misaligned"),
    (1, "instruction access fault"),
    (2, "illegal instruction"),
    (3, "breakpoint"),
    (4, "load address misaligned"),
    (5, "load access fault"),
    (6, "store/AMO address misaligned"),
    (7, "store/AMO access fault"),
    (8, "environment call from U/VU-mode"),
    (9, "environment call from HS-mode"),
    (10, "environment call from VS-mode"),
    (11, "environment call from M-mode"),
    (12, "instruction page fault"),
    (13, "load page fault"),
    (15, "store/AMO page fault"),
    (20, "instruction guest-page fault"),
    (21, "load guest-page fault"),
    (22, "virtual instruction"),
    (23, "store/AMO guest-page fault"),
    (0x8000000000000000, "user software interrupt"),
    (0x8000000000000001, "supervisor software interrupt"),
    (0x8000000000000002, "hypervisor software interrupt"),
    (0x8000000000000003, "machine software interrupt"),
    (0x8000000000000004, "user timer interrupt"),
    (0x8000000000000005, "supervisor timer interrupt"),
    (0x8000000000000006, "hypervisor timer interrupt"),
    (0x8000000000000007, "machine timer interrupt"),
    (0x8000000000000008, "user external interrupt"),
    (0x8000000000000009, "supervisor external interrupt"),
    (0x800000000000000a, "hypervisor external interrupt"),
    (0x800000000000000b, "machine external interrupt")]

/-- `{:#x}`. -/
def hexText (v : UInt64) : String := "0x" ++ String.ofList (Nat.toDigits 16 v.toNat)

def sbiText (a7 a6 a0 : UInt64) : String :=
  "SBI call: eid=" ++ hexText a7 ++ ", fid=" ++ hexText a6 ++ ", a0=" ++ hexText a0 ++
    " ('" ++ String.singleton (Char.ofNat a0.toUInt8.toNat) ++ "')"

def trapText (scauseStr : String) (sepc stval : UInt64) : String :=
  "trap handler: " ++ scauseStr ++ " at " ++ hexText sepc ++ " (stval=" ++ hexText stval ++ ")"

/-- What is printed, and the address to go on from or the text of the panic.
mirrors experimental/hypervisor/src/trap.rs:96-142 -/
def handleTrap (scause sepc stval a7 a6 a0 : UInt64) : List String × Except String UInt64 :=
  match scauseNames.lookup scause with
  | none => ([], .error ("unknown scause: " ++ hexText scause))
  | some scauseStr =>
    if scause = 10 then
      ([sbiText a7 a6 a0],
        if sepc.toNat + 4 < 2 ^ 64 then .ok (sepc + 4)
        else .error "attempt to add with overflow")
    else ([], .error (trapText scauseStr sepc stval))

/-- mirrors experimental/hypervisor/src/guest_page_table.rs:56-58 -/
def GuestPageTable.hgatp (table : UInt64) : UInt64 := (9 : UInt64) <<< 60 ||| table >>> PPN_SHIFT

def guestEntry : UInt64 := 0x100000

/-- From the heap on, with the `VCpu` at `vcpu` on the stack. A panic is `none`.
mirrors experimental/hypervisor/src/main.rs:52-70 -/
def main (l : Layout) (vcpu : UInt64) (image : List UInt8) (heap heapEnd : UInt64) (h : Hart) :
    Option Hart := do
  let kernelLen := (image.length + 4095) &&& (2 ^ 64 - 4096)
  let (kernelMemory, s) ← allocPages ⟨h.mem, heap.toNat, heapEnd.toNat⟩ kernelLen
  let s := { s with mem := s.mem.write kernelMemory image }
  let (root, s) ← GuestPageTable.new s
  let s ← GuestPageTable.map root s guestEntry (UInt64.ofNat kernelMemory)
    (PTE_R ||| PTE_W ||| PTE_X)
  let stackSize := 512 * 1024
  let (stack, s) ← allocPages s stackSize
  let hgatp := GuestPageTable.hgatp (UInt64.ofNat root)
  let fields := VCpu.new hgatp guestEntry (UInt64.ofNat (stack + stackSize))
  some (VCpu.run l vcpu { h with mem := VCpu.write l vcpu.toNat fields s.mem })

/-! ## The system and the guest alone -/

/-- How a turn of the guest ends: with a trap. `other` is what it has besides its registers and
its memory, and `stores` what it wrote. -/
structure Trap (σ : Type) where
  other : σ
  reg : Reg → UInt64
  sepc : UInt64
  scause : UInt64
  stval : UInt64
  hstatus : UInt64
  sstatus : UInt64
  stores : List (Nat × UInt8)

/-- A guest: from its state, an address, its registers and its memory to the next trap. -/
abbrev Guest (σ : Type) := σ → UInt64 → (Reg → UInt64) → (Nat → Option UInt8) → Trap σ

/-- The root table of `hgatp`. -/
def rootOf (hgatp : UInt64) : Nat := hgatp.toNat % 2 ^ 44 * 4096

/-- The memory of the guest, through the tables. -/
def view (m : Mem) (root x : Nat) : Option UInt8 :=
  if x < 2 ^ 48 then (translate m root x).map fun pte => m (pte.1 + x % 4096) else none

/-- A byte that the guest stores; where nothing is mapped, there is nothing to store to. -/
def storeGuest (root : Nat) (m : Mem) (w : Nat × UInt8) : Mem :=
  if w.1 < 2 ^ 48 then
    match translate m root w.1 with
    | some pte => m.write (pte.1 + w.1 % 4096) [w.2]
    | none => m
  else m

/-- What the compiled code leaves in the registers and on its stack. -/
structure Scratch where
  reg : Reg → UInt64
  stack : List UInt8
  fits : stack.length ≤ 512 * 1024

structure System (σ : Type) where
  hart : Hart
  other : σ
  out : List String

/-- What there is after a trap. -/
inductive Outcome (α : Type) where
  | panics (text : String) (out : List String)
  | runs (s : α)

/-- The processor when a trap is taken. -/
def Hart.trap {σ : Type} (h : Hart) (t : Trap σ) : Hart where
  reg := t.reg
  csr := fun
    | .hstatus => t.hstatus
    | .sstatus => t.sstatus
    | .sepc => t.sepc
    | .scause => t.scause
    | .stval => t.stval
    | c => h.csr c
  mem := t.stores.foldl (storeGuest (rootOf (h.csr .hgatp))) h.mem

/-- From one turn of the guest to the next. -/
def System.step {σ : Type} (l : Layout) (g : Guest σ) (w : Scratch) (s : System σ) :
    Outcome (System σ) :=
  let t := g s.other (s.hart.csr .sepc) s.hart.reg (view s.hart.mem (rootOf (s.hart.csr .hgatp)))
  let h := (s.hart.trap t).execAll l trapHandler
  let vcpu := h.reg .a0
  let m := h.mem.write ((h.reg .sp).toNat - w.stack.length) w.stack
  let a r := l.get vcpu.toNat m (.reg r)
  match handleTrap (h.csr .scause) (h.csr .sepc) (h.csr .stval) (a .a7) (a .a6) (a .a0) with
  | (lines, .error text) => .panics text (s.out ++ lines)
  | (lines, .ok sepc) =>
    let m := m.store 8 (vcpu.toNat + l.offset .sepc) sepc.toNat
    .runs ⟨VCpu.run l vcpu ⟨w.reg, h.csr, m⟩, t.other, s.out ++ lines⟩

def System.run {σ : Type} (l : Layout) (g : Guest σ) (s : System σ) :
    List Scratch → Outcome (System σ)
  | [] => .runs s
  | w :: ws =>
    match s.step l g w with
    | .panics text out => .panics text out
    | .runs s => s.run l g ws

/-- The guest alone, with a memory of its own. -/
structure Bare (σ : Type) where
  other : σ
  pc : UInt64
  reg : Reg → UInt64
  mem : Nat → Option UInt8
  out : List String

/-- Where there is memory, it is written. -/
def Bare.store (m : Nat → Option UInt8) (w : Nat × UInt8) : Nat → Option UInt8 :=
  if (m w.1).isSome then Function.update m w.1 (some w.2) else m

/-- A call prints a line and goes on behind the `ecall`; any other trap is the end. -/
def Bare.step {σ : Type} (g : Guest σ) (s : Bare σ) : Outcome (Bare σ) :=
  let t := g s.other s.pc s.reg s.mem
  if t.scause = 10 then
    let out := s.out ++ [sbiText (t.reg .a7) (t.reg .a6) (t.reg .a0)]
    if t.sepc.toNat + 4 < 2 ^ 64 then
      .runs ⟨t.other, t.sepc + 4, t.reg, t.stores.foldl Bare.store s.mem, out⟩
    else .panics "attempt to add with overflow" out
  else
    match scauseNames.lookup t.scause with
    | some scauseStr => .panics (trapText scauseStr t.sepc t.stval) s.out
    | none => .panics ("unknown scause: " ++ hexText t.scause) s.out

def Bare.run {σ : Type} (g : Guest σ) (s : Bare σ) : Nat → Outcome (Bare σ)
  | 0 => .runs s
  | n + 1 =>
    match s.step g with
    | .panics text out => .panics text out
    | .runs s => s.run g n

/-- The first page of the image, and zeros behind it. -/
def Bare.start {σ : Type} (other : σ) (image : List UInt8) : Bare σ where
  other := other
  pc := guestEntry
  reg := fun _ => 0
  mem := fun x => if x / 4096 = 0x100 then some (image.getD (x - 0x100000) 0) else none
  out := []

/-- The guest in the system is the guest alone. -/
def System.Shows {σ : Type} (s : System σ) (b : Bare σ) : Prop :=
  s.other = b.other ∧ s.hart.csr .sepc = b.pc ∧ s.hart.reg = b.reg ∧
    view s.hart.mem (rootOf (s.hart.csr .hgatp)) = b.mem ∧ s.out = b.out

/-- The addresses: the `VCpu`, the page of the guest, the tables and the stack of the host. -/
structure Place (l : Layout) where
  vcpu : UInt64
  kernel : Nat
  start : Nat
  root : Nat
  stop : Nat
  hostSp : Nat
  heapEnd : Nat
  vcpu_lt : vcpu.toNat + l.size ≤ kernel
  kernel_aligned : kernel % 4096 = 0
  kernel_lt : kernel + 4096 ≤ start
  start_le : start ≤ root
  root_aligned : root % 4096 = 0
  root_lt : root + 4096 ≤ stop
  stop_lt : stop + 512 * 1024 ≤ hostSp
  hostSp_lt : hostSp ≤ 2 ^ 56

/-- The one leaf of the tables. -/
def Place.leaf {l : Layout} (p : Place l) : List (Fin 512) → Option Nat :=
  Function.update (fun _ => none) (trail guestEntry)
    (some (leafEntry (UInt64.ofNat p.kernel) (PTE_R ||| PTE_W ||| PTE_X)))

/-- The tables and the fields that stay as they are. -/
structure Sound {l : Layout} (p : Place l) (m : Mem) : Prop where
  tables : ∃ node, Owned p.start p.root ⟨m, p.stop, p.heapEnd⟩ node p.leaf
  fields : ∀ f, (∀ r, f ≠ .reg r) → f ≠ .sepc → l.get p.vcpu.toNat m f =
    VCpu.new (GuestPageTable.hgatp (UInt64.ofNat p.root)) guestEntry (UInt64.ofNat p.hostSp) f

section Places

variable {l : Layout} {p : Place l} {m m' : Mem} {x : Nat}

/-- The page of the guest and the stack of the host. -/
def Place.Free (p : Place l) (x : Nat) : Prop :=
  (p.kernel ≤ x ∧ x < p.kernel + 4096) ∨ (p.stop ≤ x ∧ x < p.hostSp)

/-- The tables are in the pages from `start` on. -/
theorem Owned.congr {start root : Nat} {s : Machine} {node leaf : List (Fin 512) → Option Nat}
    (h : Owned start root s node leaf) (hm : ∀ x, start ≤ x → x < s.next → m' x = s.mem x) :
    Owned start root ⟨m', s.next, s.heapEnd⟩ node leaf := by
  refine ⟨h.tree.congr fun q a i hq => ?_, h.pages, h.start_pos, h.start_le, h.next_le, h.end_lt⟩
  obtain ⟨h1, h2⟩ := h.pages q a hq
  have hi := i.isLt
  exact Mem.load_congr fun x hx1 hx2 => hm x (by omega) (by omega)

/-- Outside of the tables and the fields, memory may change. -/
theorem Sound.congr (h : Sound p m) (htables : ∀ x, p.start ≤ x → x < p.stop → m' x = m x)
    (hfields : ∀ f, (∀ r, f ≠ .reg r) → f ≠ .sepc →
      l.get p.vcpu.toNat m' f = l.get p.vcpu.toNat m f) : Sound p m' := by
  obtain ⟨node, hown⟩ := h.tables
  exact ⟨⟨node, hown.congr htables⟩, fun f hr hs => (hfields f hr hs).trans (h.fields f hr hs)⟩

theorem Sound.free (h : Sound p m) (hm : ∀ x, ¬ p.Free x → m' x = m x) : Sound p m' := by
  have h1 := p.vcpu_lt
  have h2 := p.kernel_lt
  have h3 := p.start_le
  have h4 := p.root_lt
  refine h.congr (fun x hx1 hx2 => hm x ?_) fun f _ _ => ?_
  · unfold Place.Free
    omega
  · have hfit := l.fits f
    refine congrArg UInt64.ofNat (Mem.load_congr fun x hx1 hx2 => hm x ?_)
    unfold Place.Free
    omega

/-- The guest sees its page, and nothing else. -/
theorem Sound.translate (h : Sound p m) (hx : x < 2 ^ 48) :
    Riscv.translate m p.root x =
      if x / 4096 = 0x100 then
        some (p.kernel, (PTE_R ||| PTE_W ||| PTE_X ||| PTE_V ||| PTE_U).toNat)
      else none := by
  obtain ⟨node, hown⟩ := h.tables
  have hentry : guestEntry.toNat / 4096 = 0x100 := rfl
  have hkernel : (UInt64.ofNat p.kernel).toNat = p.kernel := UInt64.toNat_ofNat_of_lt' (by
    have h1 := p.kernel_lt
    have h2 := p.start_le
    have h3 := p.root_lt
    have h4 := p.stop_lt
    have h5 := p.hostSp_lt
    show p.kernel < 2 ^ 64
    omega)
  rw [hown.translate_eq, Place.leaf]
  by_cases hpage : x / 4096 = 0x100
  · rw [vpnTrail_congr (hpage.trans hentry.symm), ← trail_eq, Function.update_self, if_pos hpage,
      Option.map_some, leafEntry_decode (by rw [hkernel]; exact p.kernel_aligned) (by decide),
      hkernel]
  · have hne : vpnTrail x ≠ trail guestEntry := fun heq => hpage <| by
      rw [trail_eq] at heq
      rw [vpnTrail_inj hx (by decide) heq, hentry]
    rw [Function.update_of_ne hne, if_neg hpage]
    rfl

/-- The byte of the host for a byte of the guest. -/
def Place.byte (p : Place l) (x : Nat) : Nat := p.kernel + x % 4096

theorem Sound.view (h : Sound p m) :
    Riscv.view m p.root = fun x => if x / 4096 = 0x100 then some (m (p.byte x)) else none := by
  funext x
  unfold Riscv.view
  by_cases hx : x < 2 ^ 48
  · rw [if_pos hx, h.translate hx]
    by_cases hpage : x / 4096 = 0x100
    · rw [if_pos hpage, if_pos hpage]
      rfl
    · rw [if_neg hpage, if_neg hpage]
      rfl
  · rw [if_neg hx, if_neg (by omega)]

theorem Sound.storeGuest_eq (h : Sound p m) (w : Nat × UInt8) :
    storeGuest p.root m w = if w.1 / 4096 = 0x100 then m.write (p.byte w.1) [w.2] else m := by
  unfold storeGuest
  by_cases hx : w.1 < 2 ^ 48
  · rw [if_pos hx, h.translate hx]
    by_cases hpage : w.1 / 4096 = 0x100
    · rw [if_pos hpage, if_pos hpage]
      rfl
    · rw [if_neg hpage, if_neg hpage]
  · rw [if_neg hx, if_neg (by omega)]

/-- A store of the guest is a store in the page. -/
theorem Sound.store (h : Sound p m) (w : Nat × UInt8) :
    Sound p (storeGuest p.root m w) ∧
      Riscv.view (storeGuest p.root m w) p.root = Bare.store (Riscv.view m p.root) w := by
  have hsound : Sound p (storeGuest p.root m w) := by
    refine h.free fun x hx => ?_
    rw [h.storeGuest_eq]
    split
    · refine Mem.write_out m ?_
      unfold Place.Free at hx
      unfold Place.byte
      rw [List.length_singleton]
      omega
    · rfl
  refine ⟨hsound, ?_⟩
  rw [hsound.view, h.storeGuest_eq, h.view, Bare.store]
  by_cases hpage : w.1 / 4096 = 0x100
  · rw [if_pos hpage, if_pos (by rw [if_pos hpage]; rfl)]
    funext x
    by_cases hx : x = w.1
    · rw [hx, Function.update_self, if_pos hpage, Mem.write_singleton, Function.update_self]
    · rw [Function.update_of_ne hx]
      by_cases hxpage : x / 4096 = 0x100
      · rw [if_pos hxpage, if_pos hxpage, Mem.write_singleton, Function.update_of_ne]
        unfold Place.byte
        omega
      · rw [if_neg hxpage, if_neg hxpage]
  · rw [if_neg hpage, if_neg (by rw [if_neg hpage]; exact Bool.false_ne_true)]

theorem Sound.stores (h : Sound p m) (ws : List (Nat × UInt8)) :
    Sound p (ws.foldl (storeGuest p.root) m) ∧
      Riscv.view (ws.foldl (storeGuest p.root) m) p.root =
        ws.foldl Bare.store (Riscv.view m p.root) := by
  induction ws generalizing m with
  | nil => exact ⟨h, rfl⟩
  | cons w ws ih =>
    obtain ⟨hsound, hview⟩ := h.store w
    obtain ⟨hlast, heq⟩ := ih hsound
    refine ⟨hlast, ?_⟩
    rw [List.foldl_cons, List.foldl_cons, heq, hview]

/-- The view is that of the page. -/
theorem Sound.view_congr (h : Sound p m) (h' : Sound p m')
    (hm : ∀ x, p.kernel ≤ x → x < p.kernel + 4096 → m' x = m x) :
    Riscv.view m' p.root = Riscv.view m p.root := by
  rw [h.view, h'.view]
  funext x
  split
  · unfold Place.byte
    rw [hm _ (by omega) (by omega)]
  · rfl

end Places

/-! ## A trap -/

/-- In `handle_trap` the guest is in memory: its registers, and the page as it left it. -/
structure Caught {l : Layout} {σ : Type} (p : Place l) (t : Trap σ)
    (mem : Nat → Option UInt8) (m : Mem) : Prop where
  sound : Sound p m
  regs : ∀ r, l.get p.vcpu.toNat m (.reg r) = t.reg r
  view : view m p.root = mem

section Traps

variable {l : Layout} {σ : Type} {p : Place l} {s : System σ} {b : Bare σ} {t : Trap σ}
  {mem : Nat → Option UInt8} {m m' : Mem} {h : Hart}

/-- `vcpu.sepc = ..`. -/
theorem Caught.resume (h : Caught p t mem m) (sepc : UInt64) :
    Caught p t mem (m.store 8 (p.vcpu.toNat + l.offset .sepc) sepc.toNat) ∧
      l.get p.vcpu.toNat (m.store 8 (p.vcpu.toNat + l.offset .sepc) sepc.toNat) .sepc = sepc := by
  have hget : ∀ f, l.get p.vcpu.toNat (m.store 8 (p.vcpu.toNat + l.offset .sepc) sepc.toNat) f =
      if f ∈ [Field.sepc] then sepc else l.get p.vcpu.toNat m f := fun f => by
    have hwrite := l.get_writeAll p.vcpu.toNat m (fun _ => sepc) (List.nodup_singleton .sepc) f
    rw [List.map_singleton, Mem.writeAll, List.foldl_cons, List.foldl_nil] at hwrite
    rw [Mem.store, hwrite]
  have h1 := p.vcpu_lt
  have h2 := p.kernel_lt
  have hfit := l.fits .sepc
  have hout : ∀ x, p.kernel ≤ x → m.store 8 (p.vcpu.toNat + l.offset .sepc) sepc.toNat x = m x :=
    fun x hx => Mem.store_out m _ (Or.inr (by omega))
  have hsound : Sound p (m.store 8 (p.vcpu.toNat + l.offset .sepc) sepc.toNat) := by
    refine h.sound.congr (fun x hx _ => hout x (by omega)) fun f _ hf => ?_
    rw [hget, if_neg (mt List.mem_singleton.1 hf)]
  refine ⟨⟨hsound, fun r => ?_, ?_⟩, ?_⟩
  · rw [hget, if_neg (by simp), h.regs]
  · rw [← h.view]
    exact h.sound.view_congr hsound fun x hx _ => hout x hx
  · rw [hget, if_pos (List.mem_singleton_self _)]

end Traps

/-! ## The start -/

section Start

variable {start root : Nat} {s s' : Machine} {node leaf : List (Fin 512) → Option Nat}
  {q : List (Fin 512)} {a b : Nat} {i : Fin 512}

end Start

end MiniKvm.Riscv
