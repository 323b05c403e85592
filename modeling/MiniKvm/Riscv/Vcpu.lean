import Mathlib.Data.List.Nodup
import MiniKvm.Riscv.GuestPageTable

/-!
# The virtual processor

`vcpu.rs` and `trap_handler` of the RISC-V hypervisor (experimental/hypervisor/src):
a trap of the guest stores its registers in a `VCpu`, and `run` loads them again.
The blocks of assembly are lists of instructions, and the fields of `VCpu` are where
the compiler puts them (`Layout`).
-/
namespace MiniKvm.Riscv

/-! ## The source -/

/-- The registers that a guest has, without `zero`. -/
inductive Reg where
  | ra | sp | gp | tp | t0 | t1 | t2 | s0 | s1
  | a0 | a1 | a2 | a3 | a4 | a5 | a6 | a7
  | s2 | s3 | s4 | s5 | s6 | s7 | s8 | s9 | s10 | s11
  | t3 | t4 | t5 | t6
  deriving DecidableEq, Repr

inductive Csr where
  | hstatus | sstatus | sscratch | hgatp | sepc | scause | stval
  deriving DecidableEq, Repr

/-- mirrors experimental/hypervisor/src/vcpu.rs:6-43 -/
inductive Field where
  | hstatus | hgatp | sstatus | sepc | hostSp
  | reg (r : Reg)
  deriving DecidableEq, Repr

/-- `offset_of!`, for the fields of eight bytes. -/
structure Layout where
  offset : Field → Nat
  size : Nat
  fits : ∀ f, offset f + 8 ≤ size
  apart : ∀ f g, f ≠ g → offset f + 8 ≤ offset g ∨ offset g + 8 ≤ offset f

/-- A field of the `VCpu` in memory. -/
def Layout.get (l : Layout) (self : Nat) (m : Mem) (f : Field) : UInt64 :=
  UInt64.ofNat (m.load 8 (self + l.offset f))

structure Hart where
  reg : Reg → UInt64
  csr : Csr → UInt64
  mem : Mem

/-- The instructions of the two blocks. An operand `in(reg)` is its value. -/
inductive Instr where
  | csrw (c : Csr) (v : UInt64)
  | csrr (rd : Reg) (c : Csr)
  | csrrw (rd : Reg) (c : Csr) (rs : Reg)
  | mv (rd : Reg) (v : UInt64)
  | ld (rd : Reg) (f : Field) (base : Reg)
  | sd (rs : Reg) (f : Field) (base : Reg)

namespace Hart

def set (h : Hart) (r : Reg) (v : UInt64) : Hart := { h with reg := Function.update h.reg r v }

def setCsr (h : Hart) (c : Csr) (v : UInt64) : Hart := { h with csr := Function.update h.csr c v }

/-- The address of a field. -/
def addr (l : Layout) (h : Hart) (base : Reg) (f : Field) : Nat :=
  (h.reg base + UInt64.ofNat (l.offset f)).toNat

def exec (l : Layout) (h : Hart) : Instr → Hart
  | .csrw c v => h.setCsr c v
  | .csrr rd c => h.set rd (h.csr c)
  | .csrrw rd c rs => (h.set rd (h.csr c)).setCsr c (h.reg rs)
  | .mv rd v => h.set rd v
  | .ld rd f base => h.set rd (UInt64.ofNat (h.mem.load 8 (h.addr l base f)))
  | .sd rs f base => { h with mem := h.mem.store 8 (h.addr l base f) (h.reg rs).toNat }

def execAll (l : Layout) (h : Hart) (is : List Instr) : Hart := is.foldl (exec l) h

end Hart

/-- All but `a0`, in the order of both blocks. -/
def others : List Reg :=
  [.ra, .sp, .gp, .tp, .t0, .t1, .t2, .s0, .s1, .a1, .a2, .a3, .a4, .a5, .a6, .a7,
    .s2, .s3, .s4, .s5, .s6, .s7, .s8, .s9, .s10, .s11, .t3, .t4, .t5, .t6]

/-- Up to `sret`.
mirrors experimental/hypervisor/src/vcpu.rs:66-149 -/
def VCpu.run (l : Layout) (self : UInt64) (h : Hart) : Hart :=
  let field := l.get self.toNat h.mem
  h.execAll l <|
    [.csrw .hstatus (field .hstatus), .csrw .sstatus (field .sstatus), .csrw .sscratch self,
      .csrw .hgatp (field .hgatp), .csrw .sepc (field .sepc), .mv .a0 self] ++
    others.map (fun r => .ld r (.reg r) .a0) ++
    [.ld .a0 (.reg .a0) .a0]

/-- Up to `call`.
mirrors experimental/hypervisor/src/trap.rs:15-94 -/
def trapHandler : List Instr :=
  [.csrrw .a0 .sscratch .a0] ++
  others.map (fun r => .sd r (.reg r) .a0) ++
  [.csrr .t0 .sscratch, .sd .t0 (.reg .a0) .a0, .ld .sp .hostSp .a0]

/-- What `Self { .. }` has in its fields.
mirrors experimental/hypervisor/src/vcpu.rs:46-64 -/
def VCpu.new (hgatp guestEntry hostSp : UInt64) : Field → UInt64
  | .hstatus => (0 : UInt64) ||| (2 : UInt64) <<< 32 ||| (1 : UInt64) <<< 7
  | .hgatp => hgatp
  | .sstatus => (1 : UInt64) <<< 8
  | .sepc => guestEntry
  | .hostSp => hostSp
  | .reg _ => 0

def Reg.all : List Reg := .a0 :: others

def Field.all : List Field := [.hstatus, .hgatp, .sstatus, .sepc, .hostSp] ++ Reg.all.map .reg

/-- A `VCpu` in memory. -/
def VCpu.write (l : Layout) (self : Nat) (v : Field → UInt64) (m : Mem) : Mem :=
  m.writeAll (Field.all.map fun f => (self + l.offset f, leBytes 8 (v f).toNat))

/-! ## The two blocks -/

section Blocks

variable {l : Layout} {self : UInt64} {h : Hart} {base r : Reg} {rs : List Reg}

theorem Layout.fields_apart (l : Layout) (self : Nat) (v : Field → List UInt8)
    (hv : ∀ f, (v f).length = 8) {fs : List Field} (hfs : fs.Nodup) :
    (fs.map fun f => (self + l.offset f, v f)).Pairwise Mem.Apart := by
  rw [List.pairwise_map]
  refine hfs.imp fun {f g} hne => ?_
  have hap := l.apart f g hne
  unfold Mem.Apart
  rw [hv, hv]
  dsimp only
  omega

/-- Fields that are written are read back, and the others are as they were. -/
theorem Layout.get_writeAll (l : Layout) (self : Nat) (m : Mem) (v : Field → UInt64)
    {fs : List Field} (hfs : fs.Nodup) (f : Field) :
    l.get self (m.writeAll (fs.map fun f => (self + l.offset f, leBytes 8 (v f).toNat))) f =
      if f ∈ fs then v f else l.get self m f := by
  split
  · rename_i hf
    have hread := Mem.read_writeAll m
      (l.fields_apart self (fun f => leBytes 8 (v f).toNat) (fun f => leBytes_length 8 _) hfs)
      (List.mem_map_of_mem hf)
    dsimp only at hread
    rw [leBytes_length] at hread
    have hlt : (v f).toNat < 256 ^ 8 := (v f).toNat_lt
    rw [Layout.get, Mem.load, hread, leVal_leBytes, Nat.mod_eq_of_lt hlt, UInt64.ofNat_toNat]
  · rename_i hf
    refine congrArg UInt64.ofNat (Mem.load_congr fun x h1 h2 => Mem.writeAll_out m fun w hw => ?_)
    obtain ⟨g, hg, rfl⟩ := List.mem_map.1 hw
    have hap := l.apart f g fun hfg => hf (hfg ▸ hg)
    rw [leBytes_length]
    dsimp only
    omega

theorem Layout.writeAll_out (l : Layout) (self : Nat) (m : Mem) (v : Field → UInt64)
    (fs : List Field) {x : Nat} (hx : x < self ∨ self + l.size ≤ x) :
    m.writeAll (fs.map fun f => (self + l.offset f, leBytes 8 (v f).toNat)) x = m x := by
  refine Mem.writeAll_out m fun w hw => ?_
  obtain ⟨f, -, rfl⟩ := List.mem_map.1 hw
  have hfit := l.fits f
  rw [leBytes_length]
  dsimp only
  omega

/-- The registers as they are stored. -/
def Hart.field (h : Hart) : Field → UInt64
  | .reg r => h.reg r
  | _ => 0

end Blocks

end MiniKvm.Riscv
