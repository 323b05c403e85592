import MiniKvm.Machine.Asm16

/-!
# The matrix guest

The listing of guest/matrix.S. Where the linker puts `.data` and `.bss` is the
`Layout`; the stack starts at 0x7000 and the program stays below it.
-/
namespace MiniKvm.Guest

open Asm16

def HC_PUTCHAR : Nat := 0x01
def HC_EXIT : Nat := 0x00
def HYPERCALL_PORT : Nat := 0x500
/-- The matrices are 8 by 8. -/
def N : Nat := 8

inductive Label where
  | printHeader | printHeaderLoop | printHeaderDone
  | initMatrices | initOuter | initInner | initNextRow | initDone
  | matrixMultiply | mulOuter | mulMiddle | mulInner | mulStore | mulNextRow | mulDone
  | printResult
  | printString | printStringDone
  | printNumber | printNumberLoop | printNumberDigit | printNumberNext | printNumberDone
  deriving DecidableEq, Repr

/-- The addresses of `.data`, with its four strings, and of `.bss`, with the three matrices. -/
structure Layout where
  data : Nat
  bss : Nat
  apart : data + 93 ≤ bss
  fits : bss + N * N + N * N + N * N * 2 ≤ 0x6000

namespace Layout

def msgStart (y : Layout) : Nat := y.data
def msgC00 (y : Layout) : Nat := y.msgStart + 37
def msgC77 (y : Layout) : Nat := y.msgC00 + 11
def msgDone (y : Layout) : Nat := y.msgC77 + 11
def matrixA (y : Layout) : Nat := y.bss
def matrixB (y : Layout) : Nat := y.matrixA + N * N
def matrixC (y : Layout) : Nat := y.matrixB + N * N

end Layout

section Listing

open Label Asm16.Reg Asm16.Half Asm16.Cond Asm16.Instr Asm16.Line

/-- mirrors kvm-vmm-x86/guest/matrix.S:20-40 -/
def startListing : List (Line Label) :=
  [op (movRI 0x7000 sp),
   op (call printHeader),
   op (call initMatrices),
   op (call matrixMultiply),
   op (call printResult),
   op (movBI HC_EXIT al),
   op (movRI HYPERCALL_PORT dx),
   op outB,
   op hlt]

/-- mirrors kvm-vmm-x86/guest/matrix.S:45-57 -/
def printHeaderListing (y : Layout) : List (Line Label) :=
  [label printHeader,
   op (movRI y.msgStart si),
   label printHeaderLoop,
   op lodsb,
   op (testB al),
   op (jcc z printHeaderDone),
   op (movBB al bl),
   op (movBI HC_PUTCHAR al),
   op (movRI HYPERCALL_PORT dx),
   op outB,
   op (jmp printHeaderLoop),
   label printHeaderDone,
   op ret]

/-- mirrors kvm-vmm-x86/guest/matrix.S:64-117 -/
def initMatricesListing (y : Layout) : List (Line Label) :=
  [label initMatrices,
   op (xorRR si si),
   label initOuter,
   op (cmpRI N si),
   op (jcc ge initDone),
   op (xorRR di di),
   label initInner,
   op (cmpRI N di),
   op (jcc ge initNextRow),
   -- A[i][j] = (i + j) % 10 + 1
   op (movRR si ax),
   op (addRR di ax),
   op (xorRR dx dx),
   op (movRI 10 cx),
   op (divR cx),
   op (incR dx),
   op (movRR si ax),
   op (movRI N cx),
   op (mulR cx),
   op (addRR di ax),
   op (movRI y.matrixA bx),
   op (addRR ax bx),
   op (storeB dl bx),
   -- B[i][j] = (i - j + N) % 10 + 1
   op (movRR si ax),
   op (subRR di ax),
   op (addRI N ax),
   op (xorRR dx dx),
   op (movRI 10 cx),
   op (divR cx),
   op (incR dx),
   op (movRR si ax),
   op (movRI N cx),
   op (mulR cx),
   op (addRR di ax),
   op (movRI y.matrixB bx),
   op (addRR ax bx),
   op (storeB dl bx),
   op (incR di),
   op (jmp initInner),
   label initNextRow,
   op (incR si),
   op (jmp initOuter),
   label initDone,
   op ret]

/-- mirrors kvm-vmm-x86/guest/matrix.S:123-190 -/
def matrixMultiplyListing (y : Layout) : List (Line Label) :=
  [label matrixMultiply,
   op (xorRR si si),
   label mulOuter,
   op (cmpRI N si),
   op (jcc ge mulDone),
   op (xorRR di di),
   label mulMiddle,
   op (cmpRI N di),
   op (jcc ge mulNextRow),
   op (xorRR cx cx),
   op (xorRR bp bp),
   label mulInner,
   op (cmpRI N bp),
   op (jcc ge mulStore),
   -- A[i][k]
   op (movRR si ax),
   op (movRI N bx),
   op (mulR bx),
   op (addRR bp ax),
   op (movRI y.matrixA bx),
   op (addRR ax bx),
   op (loadB bx al),
   op (xorBB ah ah),
   op (push ax),
   -- B[k][j]
   op (movRR bp ax),
   op (movRI N bx),
   op (mulR bx),
   op (addRR di ax),
   op (movRI y.matrixB bx),
   op (addRR ax bx),
   op (loadB bx al),
   op (xorBB ah ah),
   op (movRR ax dx),
   op (pop ax),
   op (mulR dx),
   op (addRR ax cx),
   op (incR bp),
   op (jmp mulInner),
   label mulStore,
   op (movRR si ax),
   op (movRI N bx),
   op (mulR bx),
   op (addRR di ax),
   op (movRI y.matrixC bx),
   op (addRR ax bx),
   op (storeW cx bx),
   op (incR di),
   op (jmp mulMiddle),
   label mulNextRow,
   op (incR si),
   op (jmp mulOuter),
   label mulDone,
   op ret]

/-- mirrors kvm-vmm-x86/guest/matrix.S:196-230 -/
def printResultListing (y : Layout) : List (Line Label) :=
  [label printResult,
   op (movRI y.msgC00 si),
   op (call printString),
   op (loadA y.matrixC ax),
   op (call printNumber),
   op (movBI 0x0A bl),
   op (movBI HC_PUTCHAR al),
   op (movRI HYPERCALL_PORT dx),
   op outB,
   op (movRI y.msgC77 si),
   op (call printString),
   op (movRI (N - 1) ax),
   op (movRI N bx),
   op (mulR bx),
   op (addRI (N - 1) ax),
   op (shlR ax),
   op (movRI y.matrixC bx),
   op (addRR ax bx),
   op (loadW bx ax),
   op (call printNumber),
   op (movRI y.msgDone si),
   op (call printString),
   op ret]

/-- mirrors kvm-vmm-x86/guest/matrix.S:236-246 -/
def printStringListing : List (Line Label) :=
  [label printString,
   op lodsb,
   op (testB al),
   op (jcc z printStringDone),
   op (movBB al bl),
   op (movBI HC_PUTCHAR al),
   op (movRI HYPERCALL_PORT dx),
   op outB,
   op (jmp printString),
   label printStringDone,
   op ret]

/-- mirrors kvm-vmm-x86/guest/matrix.S:251-310 -/
def printNumberListing : List (Line Label) :=
  [label printNumber,
   op (push bx),
   op (push cx),
   op (push dx),
   op (movRR ax bx),
   op (movRI 10000 cx),
   op (xorBB dh dh),
   label printNumberLoop,
   op (cmpRI 1 cx),
   op (jcc l printNumberDone),
   op (movRR bx ax),
   op (xorRR dx dx),
   op (divR cx),
   op (testB al),
   op (jcc nz printNumberDigit),
   op (testB dh),
   op (jcc nz printNumberDigit),
   op (jmp printNumberNext),
   label printNumberDigit,
   op (movBI 1 dh),
   op (addBI 0x30 al),
   op (push bx),
   op (movBB al bl),
   op (movBI HC_PUTCHAR al),
   op (movRI HYPERCALL_PORT dx),
   op outB,
   op (pop bx),
   label printNumberNext,
   op (movRR bx ax),
   op (xorRR dx dx),
   op (divR cx),
   op (movRR dx bx),
   op (movRR cx ax),
   op (movRI 10 cx),
   op (xorRR dx dx),
   op (divR cx),
   op (movRR ax cx),
   op (jmp printNumberLoop),
   label printNumberDone,
   op (addBI 0x30 bl),
   op (movBI HC_PUTCHAR al),
   op (movRI HYPERCALL_PORT dx),
   op outB,
   op (pop dx),
   op (pop cx),
   op (pop bx),
   op ret]

def listing (y : Layout) : List (Line Label) :=
  startListing ++ printHeaderListing y ++ initMatricesListing y ++ matrixMultiplyListing y ++
    printResultListing y ++ printStringListing ++ printNumberListing

end Listing

def code (y : Layout) : List (Instr Nat) := assemble (listing y)

/-- The number of the instruction behind a label. -/
def addr (y : Layout) (l : Label) : Nat := address l (listing y)

/-- `_start` ends here, and the subroutines begin. -/
def home : Nat := 9

theorem home_le (y : Layout) (l : Label) : home ≤ addr y l := by
  cases l <;> exact Nat.le_of_ble_eq_true rfl

theorem home_le_add {y : Layout} {l : Label} {k : Nat} : home ≤ addr y l + k :=
  Nat.le_add_right_of_le (home_le y l)

/-! ## What is wanted of it -/

/-- `A[i][k] * B[k][j]`, added up for `k` below `n`. -/
def partialSum (y : Layout) (m : Mem) (i j n : Nat) : Nat :=
  ((List.range n).map fun k =>
    (m (y.matrixA + (8 * i + k))).toNat * (m (y.matrixB + (8 * k + j))).toNat).sum

/-- `Σ A[i][k] * B[k][j]`. -/
def product (y : Layout) (m : Mem) (i j : Nat) : Nat := partialSum y m i j N

end MiniKvm.Guest
