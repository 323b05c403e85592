import MiniKvm.Guest.Matrix

/-!
# matrix_multiply

The three loops of `matrix_multiply` (guest/matrix.S:123-190), for every
content of the two matrices. The sums are those of the product, modulo 2^16;
the words are stored one byte apart (`spread`).
-/
namespace MiniKvm.Guest

open Asm16

/-- The stack is all that is different below `top`. -/
def Agrees (top : Nat) (m m' : Mem) : Prop := ∀ x, x < 0x6000 ∨ top ≤ x → m' x = m x

/-- The first `t` words, one byte apart. -/
def spread (a : Nat) (w : Nat → Nat) (m : Mem) : Nat → Mem
  | 0 => m
  | t + 1 => (spread a w m t).store 2 (a + t) (w t)

/-! ## Blocks -/

section Blocks

open Asm16.Reg Asm16.Half Asm16.Instr

/-- `bx` gets the address of the byte at a row and a column. -/
def elementAddress (row col : Reg) (base : Nat) : List (Instr Nat) :=
  [movRR row ax, movRI N bx, mulR bx, addRR col ax, movRI base bx, addRR ax bx]

/-- `ax` gets the byte at `bx`. -/
def loadByte : List (Instr Nat) := [loadB bx al, xorBB ah ah]

/-- `A[i][k]` goes on the stack and `B[k][j]` to `dx`; their product is added to `cx`. -/
def innerBody (y : Layout) : List (Instr Nat) :=
  elementAddress si bp y.matrixA ++ (loadByte ++ ([push ax] ++ (elementAddress bp di y.matrixB ++
    (loadByte ++ [movRR ax dx, pop ax, mulR dx, addRR ax cx, incR bp]))))

theorem execs_append (is js : List (Instr Nat)) (c : Cpu) :
    execs (is ++ js) c = (execs is c).bind (execs js) := by
  induction is generalizing c with
  | nil => rfl
  | cons i is ih =>
    rw [List.cons_append, execs, execs]
    cases exec i { c with ip := c.ip + 1 } with
    | none => rfl
    | some c' => exact ih c'

theorem execs_elementAddress {row col : Reg} (hrow : row = si ∨ row = bp)
    (hcol : col = bp ∨ col = di) {base : Nat} (hbase : base + 64 ≤ 65536) {c : Cpu} {r q : Nat}
    (hr : c.get row = r) (hq : c.get col = q) (hr8 : r < 8) (hq8 : q < 8) :
    execs (elementAddress row col base) c =
      some { c with
        ax := 8 * r + q
        bx := base + (8 * r + q)
        dx := 0
        flags := none
        ip := c.ip + 6 } := by
  have hraw : execs (elementAddress row col base) c =
      some { c with
        ax := (r * 8 % 65536 + q) % 65536
        bx := (base + (r * 8 % 65536 + q) % 65536) % 65536
        dx := r * 8 / 65536
        flags := none
        ip := c.ip + 6 } := by
    subst hr hq
    rcases hrow with rfl | rfl <;> rcases hcol with rfl | rfl <;> rfl
  have hax : (r * 8 % 65536 + q) % 65536 = 8 * r + q := by omega
  have hbx : (base + (8 * r + q)) % 65536 = base + (8 * r + q) := by omega
  have hdx : r * 8 / 65536 = 0 := by omega
  rw [hraw, hax, hbx, hdx]

theorem execs_loadByte (c : Cpu) :
    execs loadByte c =
      some { c with ax := (c.mem c.bx).toNat, flags := none, ip := c.ip + 2 } := by
  have hlt := (c.mem c.bx).toNat_lt
  have hraw : execs loadByte c =
      some { c with
        ax := ((c.ax / 256 * 256 + (c.mem c.bx).toNat) / 256 ^^^
          (c.ax / 256 * 256 + (c.mem c.bx).toNat) / 256) * 256 +
            (c.ax / 256 * 256 + (c.mem c.bx).toNat) % 256
        flags := none
        ip := c.ip + 2 } := rfl
  have hmod : (c.ax / 256 * 256 + (c.mem c.bx).toNat) % 256 = (c.mem c.bx).toNat := by omega
  rw [hraw, Nat.xor_self, hmod, Nat.zero_mul, Nat.zero_add]

theorem execs_push {src : Reg} {v : Nat} {c : Cpu} (hv : c.get src = v) (h2 : 2 ≤ c.sp)
    (hsp : c.sp < 65536) :
    execs [push src] c =
      some { c with sp := c.sp - 2, mem := c.mem.store 2 (c.sp - 2) v, ip := c.ip + 1 } := by
  have hraw : execs [push src] c =
      some { c with
        sp := (c.sp + 65534) % 65536
        mem := c.mem.store 2 ((c.sp + 65534) % 65536) (c.get src)
        ip := c.ip + 1 } := by
    cases src <;> rfl
  have hmod : (c.sp + 65534) % 65536 = c.sp - 2 := by omega
  rw [hraw, hmod, hv]

/-- The product of the word on the stack and `ax` is added to `cx`. -/
theorem execs_addProduct {c : Cpu} {a k : Nat} (htop : c.mem.load 2 c.sp = a) (hk : c.bp = k)
    (hk8 : k < 8) (hsp : c.sp + 2 < 65536) :
    execs [movRR ax dx, pop ax, mulR dx, addRR ax cx, incR bp] c =
      some { c with
        ax := a * c.ax % 65536
        dx := a * c.ax / 65536
        cx := (c.cx + a * c.ax % 65536) % 65536
        bp := k + 1
        sp := c.sp + 2
        flags := none
        ip := c.ip + 5 } := by
  have hraw : execs [movRR ax dx, pop ax, mulR dx, addRR ax cx, incR bp] c =
      some { c with
        ax := c.mem.load 2 c.sp * c.ax % 65536
        dx := c.mem.load 2 c.sp * c.ax / 65536
        cx := (c.cx + c.mem.load 2 c.sp * c.ax % 65536) % 65536
        bp := (c.bp + 1) % 65536
        sp := (c.sp + 2) % 65536
        flags := none
        ip := c.ip + 5 } := rfl
  have hbp : (k + 1) % 65536 = k + 1 := by omega
  have hsp' : (c.sp + 2) % 65536 = c.sp + 2 := by omega
  rw [hraw, htop, hk, hbp, hsp']

theorem execs_innerBody (y : Layout) {c : Cpu} {i j k a b : Nat} (hi : c.si = i) (hj : c.di = j)
    (hk : c.bp = k) (hi8 : i < 8) (hj8 : j < 8) (hk8 : k < 8)
    (ha : (c.mem (y.matrixA + (8 * i + k))).toNat = a)
    (hb : (c.mem (y.matrixB + (8 * k + j))).toNat = b) (hlow : 0x6002 ≤ c.sp)
    (hhigh : c.sp < 65536) :
    execs (innerBody y) c =
      some { c with
        ax := a * b % 65536
        bx := y.matrixB + (8 * k + j)
        cx := (c.cx + a * b % 65536) % 65536
        dx := a * b / 65536
        bp := k + 1
        flags := none
        mem := c.mem.store 2 (c.sp - 2) a
        ip := c.ip + 22 } := by
  have hfits := y.fits
  have hN : N * N = 64 := rfl
  have hA : y.matrixA = y.bss := rfl
  have hB : y.matrixB = y.bss + 64 := rfl
  have hlt := (c.mem (y.matrixA + (8 * i + k))).toNat_lt
  have hkeep : c.mem.store 2 (c.sp - 2) a (y.matrixB + (8 * k + j)) =
      c.mem (y.matrixB + (8 * k + j)) := Mem.store_out _ _ (by omega)
  have htop : (c.mem.store 2 (c.sp - 2) a).load 2 (c.sp - 2) = a :=
    Mem.load_store_of_lt c.mem _ (by omega)
  have hsp : c.sp - 2 + 2 = c.sp := by omega
  rw [innerBody, execs_append,
    execs_elementAddress (Or.inl rfl) (Or.inl rfl) (by omega) hi hk hi8 hk8, Option.bind_some,
    execs_append, execs_loadByte, Option.bind_some, ha, execs_append,
    execs_push (v := a) rfl (by dsimp only; omega) (by exact hhigh), Option.bind_some, execs_append,
    execs_elementAddress (Or.inr rfl) (Or.inr rfl) (by omega) (by exact hk) (by exact hj) hk8 hj8,
    Option.bind_some, execs_append, execs_loadByte, Option.bind_some,
    execs_addProduct (by exact htop) (by exact hk) hk8 (by dsimp only; omega)]
  dsimp only
  rw [hkeep, hb, hsp]

/-- `cx` goes to the element's address, and `di` to the next column. -/
def storeBody (y : Layout) : List (Instr Nat) :=
  elementAddress si di y.matrixC ++ [storeW cx bx, incR di]

theorem execs_storeBody (y : Layout) {c : Cpu} {i j : Nat} (hi : c.si = i) (hj : c.di = j)
    (hi8 : i < 8) (hj8 : j < 8) :
    execs (storeBody y) c =
      some { c with
        ax := 8 * i + j
        bx := y.matrixC + (8 * i + j)
        dx := 0
        di := j + 1
        flags := none
        mem := c.mem.store 2 (y.matrixC + (8 * i + j)) c.cx
        ip := c.ip + 8 } := by
  have hfits : y.matrixC + 128 ≤ 0x6000 := y.fits
  have hdi : (c.di + 1) % 65536 = j + 1 := by omega
  rw [storeBody, execs_append,
    execs_elementAddress (Or.inl rfl) (Or.inr rfl) (by omega) hi hj hi8 hj8, Option.bind_some]
  show some { c with
    ax := 8 * i + j
    bx := y.matrixC + (8 * i + j)
    dx := 0
    di := (c.di + 1) % 65536
    flags := none
    mem := c.mem.store 2 (y.matrixC + (8 * i + j)) c.cx
    ip := c.ip + 8 } = _
  rw [hdi]

end Blocks

/-! ## The loops -/

theorem spread_out {a t x : Nat} {w : Nat → Nat} {m : Mem} (h : x < a ∨ a + t + 1 ≤ x) :
    spread a w m t x = m x := by
  induction t with
  | zero => rfl
  | succ t ih => rw [spread, Mem.store_out _ _ (by omega), ih (by omega)]

/-- Only the low bytes are left, ... -/
theorem spread_low {a t n : Nat} {w : Nat → Nat} {m : Mem} (h : t < n) :
    spread a w m n (a + t) = UInt8.ofNat (w t) := by
  induction n with
  | zero => exact absurd h (Nat.not_lt_zero t)
  | succ n ih =>
    rw [spread]
    rcases Nat.lt_or_eq_of_le (Nat.le_of_lt_succ h) with hlt | rfl
    · rw [Mem.store_out _ _ (by omega), ih hlt]
    · have hbyte := Mem.store_byte (spread a w m t) (a := a + t) (w t) (show 0 < 2 by decide)
      rwa [Nat.add_zero, Nat.pow_zero, Nat.div_one] at hbyte

/-- ... and the high byte of the last word. -/
theorem spread_high (a n : Nat) (w : Nat → Nat) (m : Mem) :
    spread a w m (n + 1) (a + (n + 1)) = UInt8.ofNat (w n / 256) :=
  Mem.store_byte (spread a w m n) (a := a + n) (w n) (show 1 < 2 by decide)

theorem spread_congr {a t x : Nat} {w w' : Nat → Nat} {m m' : Mem} (hw : ∀ u < t, w u = w' u)
    (h : m x = m' x) : spread a w m t x = spread a w' m' t x := by
  induction t with
  | zero => exact h
  | succ t ih =>
    rw [spread, spread, hw t (Nat.lt_succ_self t)]
    exact Mem.store_congr 2 (a + t) (w' t) (ih fun u hu => hw u (Nat.lt_succ_of_lt hu))

theorem partialSum_succ (y : Layout) (m : Mem) (i j k : Nat) :
    partialSum y m i j (k + 1) = partialSum y m i j k +
      (m (y.matrixA + (8 * i + k))).toNat * (m (y.matrixB + (8 * k + j))).toNat := by
  rw [partialSum, List.range_succ, List.map_append, List.sum_append]
  rfl

/-- The word that is stored for element `t`. -/
def sums (y : Layout) (m : Mem) (t : Nat) : Nat := product y m (t / 8) (t % 8) % 65536

/-- `t` elements are stored; `m` is the memory before. -/
structure Multiplying (y : Layout) (m : Mem) (top : Nat) (out : List PortWrite) (t : Nat)
    (c : Cpu) : Prop where
  sp : c.sp = top
  mem : Agrees top (spread y.matrixC (sums y m) m t) c.mem
  out : c.out = out

structure AtInner (y : Layout) (m : Mem) (top : Nat) (out : List PortWrite) (i j k : Nat)
    (c : Cpu) : Prop extends Multiplying y m top out (8 * i + j) c where
  ip : c.ip = addr y .mulInner
  si : c.si = i
  di : c.di = j
  bp : c.bp = k
  cx : c.cx = partialSum y m i j k % 65536

structure AtMiddle (y : Layout) (m : Mem) (top : Nat) (out : List PortWrite) (i j : Nat)
    (c : Cpu) : Prop extends Multiplying y m top out (8 * i + j) c where
  ip : c.ip = addr y .mulMiddle
  si : c.si = i
  di : c.di = j

structure AtOuter (y : Layout) (m : Mem) (top : Nat) (out : List PortWrite) (i : Nat)
    (c : Cpu) : Prop extends Multiplying y m top out (8 * i) c where
  ip : c.ip = addr y .mulOuter
  si : c.si = i

section Loops

variable {y : Layout} {m : Mem} {top : Nat} {out : List PortWrite} {i j k t : Nat} {c : Cpu}

/-- The two matrices are as before. -/
theorem Multiplying.matrix (h : Multiplying y m top out t c) {x : Nat} (hx : y.bss ≤ x)
    (hx' : x < y.bss + 128) : c.mem x = m x := by
  have hfits := y.fits
  have hN : N * N = 64 := rfl
  have hC : y.matrixC = y.bss + 64 + 64 := rfl
  rw [h.mem x (by omega), spread_out (by omega)]

/-- A turn of the innermost loop, behind the test. -/
theorem inner_turn (htop : 0x6002 ≤ top) (htop' : top < 65536) (hi : i < 8) (hj : j < 8)
    (hk : k < 8) (h : AtInner y m top out i j k c) :
    ∃ c',
      Goes (code y) home
        { c with flags := some (cmpFlags k 8), ip := addr y .mulInner + 2 } c' ∧
      AtInner y m top out i j (k + 1) c' := by
  have hA : y.matrixA = y.bss := rfl
  have hB : y.matrixB = y.bss + 64 := rfl
  have hsp := h.sp
  have ha : (c.mem (y.matrixA + (8 * i + k))).toNat = (m (y.matrixA + (8 * i + k))).toNat := by
    rw [h.matrix (by omega) (by omega)]
  have hb : (c.mem (y.matrixB + (8 * k + j))).toNat = (m (y.matrixB + (8 * k + j))).toNat := by
    rw [h.matrix (by omega) (by omega)]
  have hbody : Goes (code y) home
      { c with flags := some (cmpFlags k 8), ip := addr y .mulInner + 2 } _ :=
    Goes.block rfl ⟨_, rfl⟩ home_le_add rfl
      (execs_innerBody y h.si h.di h.bp hi hj hk ha hb (hsp ▸ htop) (hsp ▸ htop'))
  have hback := hbody.trans (Goes.jmp (p := addr y .mulInner + 24) rfl rfl home_le_add)
  refine ⟨_, hback, ⟨hsp, ?_, h.out⟩, rfl, h.si, h.di, rfl, ?_⟩
  · intro x hx
    have hout : x < c.sp - 2 ∨ c.sp - 2 + 2 ≤ x := by omega
    exact (Mem.store_out _ _ hout).trans (h.mem x hx)
  · show (c.cx + _) % 65536 = _
    rw [h.cx, partialSum_succ, ← Nat.add_mod]

/-- The sum of an element is stored, and the next column is reached. -/
theorem middle_turn (htop : 0x6002 ≤ top) (htop' : top < 65536) (hi : i < 8) (hj : j < 8)
    (h : AtMiddle y m top out i j c) :
    ∃ c',
      Goes (code y) home
        { c with flags := some (cmpFlags j 8), ip := addr y .mulMiddle + 2 } c' ∧
      AtMiddle y m top out i (j + 1) c' := by
  have hC : y.matrixC + 128 ≤ 0x6000 := y.fits
  have hclear : Goes (code y) home
      { c with flags := some (cmpFlags j 8), ip := addr y .mulMiddle + 2 } _ :=
    Goes.block (b := [.xorRR .cx .cx, .xorRR .bp .bp]) rfl ⟨_, rfl⟩ home_le_add rfl rfl
  have hfirst : AtInner y m top out i j 0
      { c with cx := c.cx ^^^ c.cx, bp := c.bp ^^^ c.bp, flags := none, ip := addr y .mulInner } :=
    ⟨⟨h.sp, h.mem, h.out⟩, rfl, h.si, h.di, Nat.xor_self _, Nat.xor_self _⟩
  -- the sum
  obtain ⟨d, hsum, hd⟩ := Goes.upTo (n := N) (r := .bp) rfl rfl (home_le y .mulInner) (by decide)
    (fun _ _ hc => ⟨hc.ip, hc.bp⟩) (fun k hk _ hc => inner_turn htop htop' hi hj hk hc) hfirst
  have hstore : Goes (code y) home
      { d with flags := some (cmpFlags N N), ip := addr y .mulStore } _ :=
    Goes.block rfl ⟨_, rfl⟩ (home_le y .mulStore) rfl (execs_storeBody y hd.si hd.di hi hj)
  have hback := hstore.trans (Goes.jmp (p := addr y .mulStore + 8) rfl rfl home_le_add)
  refine ⟨_, hclear.trans (hsum.trans hback), ⟨hd.sp, ?_, hd.out⟩, rfl, hd.si, rfl⟩
  -- the word of this element is the next of `spread`
  have hrow : (8 * i + j) / 8 = i := by omega
  have hcol : (8 * i + j) % 8 = j := by omega
  have hword : d.cx = sums y m (8 * i + j) := by rw [hd.cx, sums, product, hrow, hcol]
  intro x hx
  show d.mem.store 2 (y.matrixC + (8 * i + j)) d.cx x =
    (spread y.matrixC (sums y m) m (8 * i + j)).store 2 (y.matrixC + (8 * i + j))
      (sums y m (8 * i + j)) x
  rw [hword]
  exact Mem.store_congr 2 _ _ (hd.mem x hx)

/-- A row is done, and the next one is reached. -/
theorem outer_turn (htop : 0x6002 ≤ top) (htop' : top < 65536) (hi : i < 8)
    (h : AtOuter y m top out i c) :
    ∃ c',
      Goes (code y) home
        { c with flags := some (cmpFlags i 8), ip := addr y .mulOuter + 2 } c' ∧
      AtOuter y m top out (i + 1) c' := by
  have hclear : Goes (code y) home
      { c with flags := some (cmpFlags i 8), ip := addr y .mulOuter + 2 } _ :=
    Goes.block (b := [.xorRR .di .di]) rfl ⟨_, rfl⟩ home_le_add rfl rfl
  have hfirst : AtMiddle y m top out i 0
      { c with di := c.di ^^^ c.di, flags := none, ip := addr y .mulMiddle } :=
    ⟨⟨h.sp, h.mem, h.out⟩, rfl, h.si, Nat.xor_self _⟩
  obtain ⟨d, hcols, hd⟩ := Goes.upTo (n := N) (r := .di) rfl rfl (home_le y .mulMiddle) (by decide)
    (fun _ _ hc => ⟨hc.ip, hc.di⟩) (fun j hj _ hc => middle_turn htop htop' hi hj hc) hfirst
  have hnext : Goes (code y) home
      { d with flags := some (cmpFlags N N), ip := addr y .mulNextRow } _ :=
    Goes.block (b := [.incR .si]) rfl ⟨_, rfl⟩ (home_le y .mulNextRow) rfl rfl
  have hback := hnext.trans (Goes.jmp (p := addr y .mulNextRow + 1) rfl rfl home_le_add)
  have hsi : (d.si + 1) % 65536 = i + 1 := by
    rw [hd.si]
    omega
  exact ⟨_, hclear.trans (hcols.trans hback), ⟨hd.sp, hd.mem, hd.out⟩, rfl, hsi⟩

/-- What `matrix_multiply` does, from its first instruction to the return. -/
theorem matrix_multiply_goes (hip : c.ip = addr y .matrixMultiply) (hlow : 0x6002 ≤ c.sp)
    (hhigh : c.sp < 65534) :
    ∃ c', Goes (code y) home c c' ∧ c'.ip = c.top ∧ c'.sp = c.sp + 2 ∧ c'.out = c.out ∧
      Agrees c.sp (spread y.matrixC (sums y c.mem) c.mem 64) c'.mem := by
  have hC : y.matrixC + 128 ≤ 0x6000 := y.fits
  have hclear : Goes (code y) home c _ :=
    Goes.block (b := [.xorRR .si .si]) hip ⟨_, rfl⟩ (home_le y .matrixMultiply) rfl rfl
  have hfirst : AtOuter y c.mem c.sp c.out 0
      { c with si := c.si ^^^ c.si, flags := none, ip := c.ip + 1 } :=
    ⟨⟨rfl, fun _ _ => rfl, rfl⟩, congrArg (· + 1) hip, Nat.xor_self _⟩
  obtain ⟨d, hrows, hd⟩ := Goes.upTo (n := N) (r := .si) rfl rfl (home_le y .mulOuter) (by decide)
    (fun _ _ hc => ⟨hc.ip, hc.si⟩) (fun i hi _ hc => outer_turn hlow (by omega) hi hc) hfirst
  have hret := hrows.trans (Goes.ret (p := addr y .mulDone) rfl rfl (home_le y .mulDone))
  have hsp : (d.sp + 2) % 65536 = c.sp + 2 := by
    rw [hd.sp]
    omega
  refine ⟨_, hclear.trans hret, ?_, hsp, hd.out, hd.mem⟩
  -- the return address is above everything that was written
  show d.mem.load 2 d.sp = c.mem.load 2 c.sp
  rw [hd.sp]
  refine Mem.load_congr fun x h1 h2 => ?_
  exact (hd.mem x (Or.inr h1)).trans (spread_out (t := 64) (by omega))

end Loops

end MiniKvm.Guest
