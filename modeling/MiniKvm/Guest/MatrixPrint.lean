import MiniKvm.Guest.MatrixMultiply
import MiniKvm.Vmm.Devices

/-!
# print_result

What `print_string`, `print_number` and `print_result` (guest/matrix.S:196-310)
print, each from its first instruction to the return.

`print_number` keeps its leading-zero flag in `DH`, and both the port number and
the remainder of the next `div` go to `DX`: the flag that is tested is the high
byte of a remainder. Behind the ones digit it prints a digit once more.
-/
namespace MiniKvm.Guest

open Asm16
open Vmm (ascii dec)

/-! ## Output -/

/-- The bytes of a run of `HC_PUTCHAR`, which prints the low byte of `bx`. -/
def printed (ws : List PortWrite) : Option (List UInt8) :=
  ws.mapM fun w =>
    if w.port = HYPERCALL_PORT ∧ w.value = HC_PUTCHAR then some (UInt8.ofNat w.bx) else none

/-- From `before` to `after` the bytes of `s` were printed. -/
def Prints (s : List UInt8) (before after : List PortWrite) : Prop :=
  ∃ ws, after = before ++ ws ∧ printed ws = some s

theorem Prints.refl (out : List PortWrite) : Prints [] out out :=
  ⟨[], (List.append_nil out).symm, rfl⟩

theorem Prints.trans {s t : List UInt8} {o o' o'' : List PortWrite} (h : Prints s o o')
    (h' : Prints t o' o'') : Prints (s ++ t) o o'' := by
  obtain ⟨ws, rfl, hs⟩ := h
  obtain ⟨ws', rfl, ht⟩ := h'
  refine ⟨ws ++ ws', List.append_assoc o ws ws', ?_⟩
  unfold printed at hs ht ⊢
  rw [List.mapM_append, hs, ht]
  rfl

/-- Only the low byte of `bx` counts. -/
theorem Prints.putchar (out : List PortWrite) (v b : Nat) :
    Prints [UInt8.ofNat b] out
      (out ++ [⟨HYPERCALL_PORT, HC_PUTCHAR, v / 256 * 256 + b⟩]) := by
  have hb : UInt8.ofNat (v / 256 * 256 + b) = UInt8.ofNat b := by
    apply UInt8.toNat_inj.1
    rw [UInt8.toNat_ofNat', UInt8.toNat_ofNat']
    omega
  exact ⟨_, rfl, by rw [← hb]; rfl⟩

theorem Prints.unique {s t : List UInt8} {o o' : List PortWrite} (h : Prints s o o')
    (h' : Prints t o o') : s = t := by
  obtain ⟨ws, rfl, hs⟩ := h
  obtain ⟨ws', heq, ht⟩ := h'
  rw [List.append_cancel_left heq, ht] at hs
  exact (Option.some.inj hs).symm

section Putchar

open Asm16.Reg Asm16.Half Asm16.Instr

/-- The hypercall for the byte in `bl`. -/
def putchar : List (Instr Nat) := [movBI HC_PUTCHAR al, movRI HYPERCALL_PORT dx, outB]

theorem execs_putchar (c : Cpu) :
    execs putchar c =
      some { c with
        ax := c.ax / 256 * 256 + HC_PUTCHAR
        dx := HYPERCALL_PORT
        out := c.out ++ [⟨HYPERCALL_PORT, HC_PUTCHAR, c.bx⟩]
        ip := c.ip + 3 } := by
  have hport : (c.ax / 256 * 256 + HC_PUTCHAR) % 256 = HC_PUTCHAR := by
    rw [Nat.mul_add_mod_self_right]
    rfl
  have hraw : execs putchar c =
      some { c with
        ax := c.ax / 256 * 256 + HC_PUTCHAR
        dx := HYPERCALL_PORT
        out := c.out ++ [⟨HYPERCALL_PORT, (c.ax / 256 * 256 + HC_PUTCHAR) % 256, c.bx⟩]
        ip := c.ip + 3 } := rfl
  rw [hraw, hport]

/-- The same for the byte in `al`. -/
theorem execs_putchar_al {c : Cpu} {q : Nat} (hal : c.ax % 256 = q) :
    execs ([movBB al bl] ++ putchar) c =
      some { c with
        ax := c.ax / 256 * 256 + HC_PUTCHAR
        bx := c.bx / 256 * 256 + q
        dx := HYPERCALL_PORT
        out := c.out ++ [⟨HYPERCALL_PORT, HC_PUTCHAR, c.bx / 256 * 256 + q⟩]
        ip := c.ip + 4 } := by
  have hraw : execs [movBB al bl] c =
      some { c with bx := c.bx / 256 * 256 + c.ax % 256, ip := c.ip + 1 } := rfl
  rw [execs_append, hraw, Option.bind_some, execs_putchar, hal]

end Putchar

/-- The subroutine that was called as `c` printed `s` and is back. -/
structure Returns (c : Cpu) (s : List UInt8) (c' : Cpu) : Prop where
  ip : c'.ip = c.top
  sp : c'.sp = c.sp + 2
  mem : Agrees c.sp c.mem c'.mem
  out : Prints s c.out c'.out

/-! ## print_string -/

/-- A loop at `p` that prints the string at `si`, with its `ret` at `q`. `print_header` has one
like that of `print_string`. -/
structure StringLoop (y : Layout) (p q : Nat) : Prop where
  load : [.lodsb] <+: (code y).drop p
  test : (code y)[p + 1]? = some (.testB .al)
  leave : (code y)[p + 2]? = some (.jcc .z q)
  print : [.movBB .al .bl] ++ putchar <+: (code y).drop (p + 3)
  back : (code y)[p + 7]? = some (.jmp p)
  ret : (code y)[q]? = some .ret
  loopAbove : home ≤ p
  retAbove : home ≤ q

section PrintString

variable {y : Layout} {c : Cpu} {a p q : Nat} {s : List UInt8}

/-- The next byte is in `al`, and a NUL is sorted out. -/
theorem StringLoop.lodsb_goes (hl : StringLoop y p q) (hip : c.ip = p) (hsi : c.si = a)
    (ha : a < 65535) :
    ∃ c', Goes (code y) home c c' ∧ c'.ax % 256 = (c.mem a).toNat ∧ c'.si = a + 1 ∧
      c'.sp = c.sp ∧ c'.mem = c.mem ∧ c'.out = c.out ∧
      c'.ip = if c.mem a = 0 then q else p + 3 := by
  have hlt := (c.mem c.si).toNat_lt
  have hal : (c.ax / 256 * 256 + (c.mem c.si).toNat) % 256 = (c.mem c.si).toNat := by omega
  have hzero : (c.mem c.si).toNat = 0 ↔ c.mem c.si = 0 := UInt8.toNat_inj (b := 0)
  have hload : Goes (code y) home c _ :=
    Goes.block (b := [.lodsb]) hip hl.load hl.loopAbove rfl rfl
  have htest := hload.trans (Goes.test_jz (r := .al) (p := p + 1)
    (congrArg (· + 1) hip) hl.test hl.leave (Nat.le_succ_of_le hl.loopAbove))
  refine ⟨_, htest, hsi ▸ hal, ?_, rfl, rfl, rfl, ?_⟩
  · show (c.si + 1) % 65536 = a + 1
    omega
  · show (if (c.ax / 256 * 256 + (c.mem c.si).toNat) % 256 = 0 then _ else _) = _
    rw [hal, ← hsi]
    exact if_congr hzero rfl rfl

/-- The byte in `al` is printed, and the next one is up. -/
theorem StringLoop.putchar_goes {b : UInt8} (hl : StringLoop y p q) (hip : c.ip = p + 3)
    (hal : c.ax % 256 = b.toNat) :
    ∃ c', Goes (code y) home c c' ∧ c'.ip = p ∧ c'.si = c.si ∧
      c'.sp = c.sp ∧ c'.mem = c.mem ∧ Prints [b] c.out c'.out := by
  have hblock : Goes (code y) home c _ :=
    Goes.block hip hl.print (Nat.le_add_right_of_le hl.loopAbove) rfl
      (execs_putchar_al hal)
  have hjump := hblock.trans (Goes.jmp (p := p + 7) (congrArg (· + 4) hip) hl.back
    (Nat.le_add_right_of_le hl.loopAbove))
  have hprints := Prints.putchar c.out c.bx b.toNat
  rw [UInt8.ofNat_toNat] at hprints
  exact ⟨_, hjump, rfl, rfl, rfl, rfl, hprints⟩

theorem StringLoop.goes (hl : StringLoop y p q) (hip : c.ip = p) (hsi : c.si = a)
    (hs : Mem.CStringAt c.mem a s) (ha : a + s.length < 65535) (hsp : c.sp < 65534) :
    ∃ c', Goes (code y) home c c' ∧ Returns c s c' := by
  induction s generalizing c a with
  | nil =>
    obtain ⟨d, hload, -, -, hspd, hmem, hout, hipd⟩ := hl.lodsb_goes hip hsi ha
    rw [if_pos ((Mem.cStringAt_nil _ _).1 hs)] at hipd
    have hret := hload.trans (Goes.ret hipd hl.ret hl.retAbove)
    refine ⟨_, hret, ?_, ?_, fun _ _ => congrFun hmem _, ?_⟩
    · show d.mem.load 2 d.sp = c.mem.load 2 c.sp
      rw [hmem, hspd]
    · show (d.sp + 2) % 65536 = c.sp + 2
      omega
    · show Prints [] c.out d.out
      rw [hout]
      exact Prints.refl c.out
  | cons b s ih =>
    rw [List.length_cons] at ha
    obtain ⟨hb, hb0, hs'⟩ := (Mem.cStringAt_cons _ _ _ _).1 hs
    obtain ⟨d, hload, hal, hsid, hspd, hmemd, houtd, hipd⟩ := hl.lodsb_goes hip hsi (by omega)
    rw [hb, if_neg hb0] at hipd
    obtain ⟨e, hprint, hipe, hsie, hspe, hmeme, houte⟩ :=
      hl.putchar_goes hipd (hal.trans (congrArg UInt8.toNat hb))
    have hsp' : e.sp = c.sp := hspe.trans hspd
    have hmem' : e.mem = c.mem := hmeme.trans hmemd
    obtain ⟨c', hrest, hr⟩ :=
      ih hipe (hsie.trans hsid) (hmem' ▸ hs') (by omega) (hsp' ▸ hsp)
    refine ⟨c', hload.trans (hprint.trans hrest), ?_, hsp' ▸ hr.sp, hmem' ▸ hsp' ▸ hr.mem, ?_⟩
    · rw [hr.ip, Cpu.top, Cpu.top, hmem', hsp']
    · exact Prints.trans (houtd ▸ houte) hr.out

theorem print_string_goes (hip : c.ip = addr y .printString) (hsi : c.si = a)
    (hs : Mem.CStringAt c.mem a s) (ha : a + s.length < 65535) (hsp : c.sp < 65534) :
    ∃ c', Goes (code y) home c c' ∧ Returns c s c' := by
  have hloop : StringLoop y (addr y .printString) (addr y .printStringDone) :=
    ⟨⟨_, rfl⟩, rfl, rfl, ⟨_, rfl⟩, rfl, rfl, home_le y _, home_le y _⟩
  exact hloop.goes hip hsi hs ha hsp

end PrintString

/-! ## print_number -/

/-- What the turn for the place `d` prints. -/
def digitAt (d v : Nat) : List UInt8 :=
  if v / d % 256 ≠ 0 ∨ v % d / 256 ≠ 0 then [UInt8.ofNat (0x30 + v / d)] else []

/-- The turns for `10^p` and the places below. -/
def digitsFrom : Nat → Nat → List UInt8
  | 0, v => digitAt 1 v
  | p + 1, v => digitAt (10 ^ (p + 1)) v ++ digitsFrom p (v % 10 ^ (p + 1))

/-- The five turns, and the digit behind them. -/
def numeral (n : Nat) : List UInt8 := digitsFrom 4 n ++ [0x30]

/-- In `print_number`, called as `c₀`: at a label, with `s` printed, the place in `cx` and
the number in `bx`. -/
structure AtPlace (y : Layout) (c₀ : Cpu) (s : List UInt8) (d v : Nat) (l : Label) (c : Cpu) :
    Prop where
  ip : c.ip = addr y l
  cx : c.cx = d
  bx : c.bx = v
  sp : c.sp = c₀.sp - 6
  mem : Agrees c₀.sp c₀.mem c.mem
  out : Prints s c₀.out c.out

section PrintNumber

variable {y : Layout} {c₀ c : Cpu} {s : List UInt8} {d v q p n : Nat}

open Asm16.Reg Asm16.Half Asm16.Instr

theorem exec_divR {r : Reg} (hsrc : c.get r = d) (hdx : c.dx = 0) (hd : 0 < d)
    (hax : c.ax < 65536) :
    exec (divR r) c = some { c with ax := c.ax / d, dx := c.ax % d, flags := none } := by
  have hfits : ¬ (d = 0 ∨ 65536 ≤ c.ax / d) := by
    have hle := Nat.div_le_self c.ax d
    omega
  rw [exec, hsrc, hdx, Nat.zero_mul, Nat.zero_add]
  exact if_neg hfits

/-- `bx` is divided by `cx`. -/
theorem execs_divide (hcx : c.cx = d) (hbx : c.bx = v) (hd : 0 < d) (hv : v < 65536) :
    execs [movRR bx ax, xorRR dx dx, divR cx] c =
      some { c with ax := v / d, dx := v % d, flags := none, ip := c.ip + 3 } := by
  have hdiv := exec_divR (r := cx)
    (c := { c with ax := c.bx, dx := c.dx ^^^ c.dx, flags := none, ip := c.ip + 3 })
    hcx (Nat.xor_self _) hd (hbx ▸ hv)
  calc execs [movRR bx ax, xorRR dx dx, divR cx] c
      = (exec (divR cx)
          { c with ax := c.bx, dx := c.dx ^^^ c.dx, flags := none, ip := c.ip + 3 }).bind some :=
        rfl
    _ = some { c with ax := v / d, dx := v % d, flags := none, ip := c.ip + 3 } := by
        rw [hdiv, ← hbx]
        rfl

/-- The digit is tested, and then the high byte of the remainder. -/
theorem place_tested (h : AtPlace y c₀ s d v .printNumberLoop c) (hd : 0 < d) (hd' : d < 32768)
    (hv : v < 65536) :
    ∃ c' l, Goes (code y) home c c' ∧ AtPlace y c₀ s d v l c' ∧ c'.ax = v / d ∧
      l = if v / d % 256 ≠ 0 ∨ v % d / 256 ≠ 0 then .printNumberDigit else .printNumberNext := by
  have hbound : (cmpFlags c.cx 1).holds .l = false := by
    rw [h.cx, (cmpFlags_holds hd' (by decide)).1]
    exact decide_eq_false (by omega)
  have hcmp : Goes (code y) home c _ :=
    Goes.cmp_not_taken (r := .cx) h.ip rfl rfl (home_le y .printNumberLoop) hbound
  have hdiv : Goes (code y) home
      { c with flags := some (cmpFlags c.cx 1), ip := addr y .printNumberLoop + 2 } _ :=
    Goes.block rfl ⟨_, rfl⟩ home_le_add rfl (execs_divide h.cx h.bx hd hv)
  have htest := hcmp.trans (hdiv.trans (Goes.test_jnz (r := .al)
    (p := addr y .printNumberLoop + 5) rfl rfl rfl home_le_add))
  by_cases hq : v / d % 256 = 0
  · have htest' := htest.trans (Goes.test_jnz (r := .dh) (p := addr y .printNumberLoop + 7)
      (if_pos hq) rfl rfl home_le_add)
    by_cases hr : v % d / 256 = 0
    · have hskip := htest'.trans (Goes.jmp (p := addr y .printNumberLoop + 9) (if_pos hr) rfl
        home_le_add)
      exact ⟨_, .printNumberNext, hskip, ⟨rfl, h.cx, h.bx, h.sp, h.mem, h.out⟩, rfl,
        (if_neg (by simp [hq, hr])).symm⟩
    · exact ⟨_, .printNumberDigit, htest', ⟨if_neg hr, h.cx, h.bx, h.sp, h.mem, h.out⟩, rfl,
        (if_pos (Or.inr hr)).symm⟩
  · exact ⟨_, .printNumberDigit, htest, ⟨if_neg hq, h.cx, h.bx, h.sp, h.mem, h.out⟩, rfl,
      (if_pos (Or.inl hq)).symm⟩

/-- `al` becomes the digit's character. -/
theorem execs_char (hax : c.ax = q) (hq : q < 10) :
    execs [movBI 1 dh, addBI 0x30 al] c =
      some { c with ax := 0x30 + q, dx := 256 + c.dx % 256, flags := none, ip := c.ip + 2 } := by
  have hchar : q / 256 * 256 + (q % 256 + 0x30) % 256 = 0x30 + q := by omega
  have hraw : execs [movBI 1 dh, addBI 0x30 al] c =
      some { c with
        ax := c.ax / 256 * 256 + (c.ax % 256 + 0x30) % 256
        dx := 256 + c.dx % 256
        flags := none
        ip := c.ip + 2 } := rfl
  rw [hraw, hax, hchar]

theorem execs_pop {dst : Reg} (htop : c.top = v) (hsp : c.sp + 2 < 65536) :
    execs [pop dst] c = some ({ c with sp := c.sp + 2, ip := c.ip + 1 }.set v dst) := by
  have hraw : execs [pop dst] c =
      some ({ c with sp := (c.sp + 2) % 65536, ip := c.ip + 1 }.set c.top dst) := rfl
  rw [hraw, htop, Nat.mod_eq_of_lt hsp]

/-- The digit in `al` is printed; the number is on the stack meanwhile. -/
theorem execs_digit (hax : c.ax = q) (hq : q < 10) (hbx : c.bx = v) (hv : v < 65536)
    (h2 : 2 ≤ c.sp) (hsp : c.sp < 65536) :
    execs ([movBI 1 dh, addBI 0x30 al] ++ ([push bx] ++
        (([movBB al bl] ++ putchar) ++ [pop bx]))) c =
      some { c with
        ax := (0x30 + q) / 256 * 256 + HC_PUTCHAR
        dx := HYPERCALL_PORT
        flags := none
        mem := c.mem.store 2 (c.sp - 2) v
        out := c.out ++ [⟨HYPERCALL_PORT, HC_PUTCHAR, v / 256 * 256 + (0x30 + q)⟩]
        ip := c.ip + 8 } := by
  have hal : (0x30 + q) % 256 = 0x30 + q := Nat.mod_eq_of_lt (by omega)
  have hback : c.sp - 2 + 2 = c.sp := by omega
  have htop : (c.mem.store 2 (c.sp - 2) v).load 2 (c.sp - 2) = v :=
    Mem.load_store_of_lt c.mem _ hv
  rw [execs_append, execs_char hax hq, Option.bind_some, execs_append,
    execs_push (v := v) (by exact hbx) (by exact h2) (by exact hsp), Option.bind_some,
    execs_append, execs_putchar_al (by exact hal), Option.bind_some,
    execs_pop (by exact htop) (by dsimp only; omega)]
  dsimp only [Cpu.set]
  rw [hback, ← hbx]

theorem digit_goes (h : AtPlace y c₀ s d v .printNumberDigit c) (hax : c.ax = q) (hq : q < 10)
    (hv : v < 65536) (hlow : 0x6008 ≤ c₀.sp) (hhigh : c₀.sp < 65534) :
    ∃ c', Goes (code y) home c c' ∧
      AtPlace y c₀ (s ++ [UInt8.ofNat (0x30 + q)]) d v .printNumberNext c' := by
  have hsp := h.sp
  have hblock : Goes (code y) home c _ :=
    Goes.block h.ip ⟨_, rfl⟩ (home_le y .printNumberDigit) rfl
      (execs_digit hax hq h.bx hv (by omega) (by omega))
  refine ⟨_, hblock, congrArg (· + 8) h.ip, h.cx, h.bx, h.sp, ?_, ?_⟩
  · intro x hx
    have hout : x < c.sp - 2 ∨ c.sp - 2 + 2 ≤ x := by omega
    exact (Mem.store_out _ _ hout).trans (h.mem x hx)
  · exact h.out.trans (Prints.putchar c.out v (0x30 + q))

/-- The rest of the number, and the next place. -/
theorem next_goes (h : AtPlace y c₀ s d v .printNumberNext c) (hd : 0 < d) (hd' : d < 65536)
    (hv : v < 65536) :
    ∃ c', Goes (code y) home c c' ∧ AtPlace y c₀ s (d / 10) (v % d) .printNumberLoop c' := by
  have hrest : Goes (code y) home c _ :=
    Goes.block h.ip ⟨_, rfl⟩ (home_le y .printNumberNext) rfl (execs_divide h.cx h.bx hd hv)
  have hten := hrest.trans (Goes.block (p := addr y .printNumberNext + 3)
    (b := [.movRR .dx .bx, .movRR .cx .ax, .movRI 10 .cx, .xorRR .dx .dx])
    (congrArg (· + 3) h.ip) ⟨_, rfl⟩ home_le_add rfl rfl)
  have hplace := hten.trans (Goes.block (p := addr y .printNumberNext + 7) (b := [.divR .cx])
    (congrArg (· + 7) h.ip) ⟨_, rfl⟩ home_le_add rfl
    (congrArg (Option.bind · some) (exec_divR (d := 10) rfl (Nat.xor_self _) (by decide)
      (by exact h.cx ▸ hd'))))
  have hback := hplace.trans ((Goes.block (p := addr y .printNumberNext + 8)
    (b := [.movRR .ax .cx]) (congrArg (· + 8) h.ip) ⟨_, rfl⟩ home_le_add rfl rfl).trans
      (Goes.jmp (p := addr y .printNumberNext + 9) (congrArg (· + 9) h.ip) rfl home_le_add))
  exact ⟨_, hback, rfl, congrArg (· / 10) h.cx, rfl, h.sp, h.mem, h.out⟩

/-- A turn of the loop. -/
theorem place_turn (h : AtPlace y c₀ s d v .printNumberLoop c) (hd : 0 < d) (hd' : d < 32768)
    (hvd : v < 10 * d) (hv : v < 65536) (hlow : 0x6008 ≤ c₀.sp) (hhigh : c₀.sp < 65534) :
    ∃ c', Goes (code y) home c c' ∧
      AtPlace y c₀ (s ++ digitAt d v) (d / 10) (v % d) .printNumberLoop c' := by
  obtain ⟨e, l, htest, he, hax, hl⟩ := place_tested h hd hd' hv
  have hq : v / d < 10 := Nat.div_lt_of_lt_mul (Nat.mul_comm 10 d ▸ hvd)
  by_cases hdigit : v / d % 256 ≠ 0 ∨ v % d / 256 ≠ 0
  · rw [if_pos hdigit] at hl
    obtain ⟨f, hprint, hf⟩ := digit_goes (hl ▸ he) hax hq hv hlow hhigh
    obtain ⟨g, hnext, hg⟩ := next_goes hf hd (by omega) hv
    rw [digitAt, if_pos hdigit]
    exact ⟨g, htest.trans (hprint.trans hnext), hg⟩
  · rw [if_neg hdigit] at hl
    obtain ⟨g, hnext, hg⟩ := next_goes (hl ▸ he) hd (by omega) hv
    rw [digitAt, if_neg hdigit, List.append_nil]
    exact ⟨g, htest.trans hnext, hg⟩

/-- The loop, from the place `10^p` on: nothing is left of the number. -/
theorem places_go (h : AtPlace y c₀ s (10 ^ p) v .printNumberLoop c) (hp : p ≤ 4)
    (hvp : v < 10 ^ (p + 1)) (hv : v < 65536) (hlow : 0x6008 ≤ c₀.sp) (hhigh : c₀.sp < 65534) :
    ∃ c', Goes (code y) home c c' ∧
      AtPlace y c₀ (s ++ digitsFrom p v) 0 0 .printNumberLoop c' := by
  have hd' : 10 ^ p < 32768 :=
    Nat.lt_of_le_of_lt (Nat.pow_le_pow_right (by decide) hp) (by decide)
  induction p generalizing c s v with
  | zero =>
    have hturn := place_turn h (by decide) (by decide) hvp hv hlow hhigh
    rwa [Nat.pow_zero, Nat.mod_one] at hturn
  | succ p ih =>
    have hpos : 0 < 10 ^ (p + 1) := Nat.pow_pos (by decide)
    obtain ⟨d, hturn, hd⟩ := place_turn h hpos hd' (Nat.pow_succ' ▸ hvp) hv hlow hhigh
    have hten : 10 ^ (p + 1) / 10 = 10 ^ p := by
      rw [Nat.pow_succ, Nat.mul_div_cancel _ (by decide)]
    have hrest : v % 10 ^ (p + 1) < 10 ^ (p + 1) := Nat.mod_lt v hpos
    obtain ⟨c', hgo, hc'⟩ := ih (hten ▸ hd) (by omega) hrest (by omega) (by omega)
    rw [List.append_assoc] at hc'
    exact ⟨c', hturn.trans hgo, hc'⟩

/-- The digit behind the loop; the registers of the caller come back. -/
theorem execs_lastDigit (hbx : c.bx = 0) (hsp : c.sp + 6 < 65536) :
    ∃ rax rbx rcx rdx,
      execs ([addBI 0x30 bl] ++ (putchar ++ ([pop dx] ++ ([pop cx] ++ [pop bx])))) c =
        some { c with
          ax := rax
          bx := rbx
          cx := rcx
          dx := rdx
          sp := c.sp + 2 + 2 + 2
          flags := none
          out := c.out ++ [⟨HYPERCALL_PORT, HC_PUTCHAR, 0x30⟩]
          ip := c.ip + 1 + 3 + 1 + 1 + 1 } := by
  have hchar : execs [addBI 0x30 bl] c =
      some { c with
        bx := c.bx / 256 * 256 + (c.bx % 256 + 0x30) % 256
        flags := none
        ip := c.ip + 1 } := rfl
  rw [hbx] at hchar
  rw [execs_append, hchar, Option.bind_some, execs_append, execs_putchar, Option.bind_some,
    execs_append, execs_pop rfl (by dsimp only; omega), Option.bind_some, execs_append,
    execs_pop rfl (by dsimp only [Cpu.set]; omega), Option.bind_some,
    execs_pop rfl (by dsimp only [Cpu.set]; omega)]
  exact ⟨_, _, _, _, rfl⟩

/-- The last digit, and the return. -/
theorem number_done (h : AtPlace y c₀ s 0 0 .printNumberLoop c) (hlow : 0x6008 ≤ c₀.sp)
    (hhigh : c₀.sp < 65534) :
    ∃ c', Goes (code y) home c c' ∧ Returns c₀ (s ++ [0x30]) c' := by
  have hsp := h.sp
  have hbound : (cmpFlags c.cx 1).holds .l = true := by
    rw [h.cx]
    rfl
  have hcmp : Goes (code y) home c _ :=
    Goes.cmp_taken (r := .cx) h.ip rfl rfl (home_le y _) hbound
  obtain ⟨rax, rbx, rcx, rdx, hexecs⟩ := execs_lastDigit
    (c := { c with flags := some (cmpFlags c.cx 1), ip := addr y .printNumberDone }) h.bx
    (by dsimp only; omega)
  have hprint : Goes (code y) home
      { c with flags := some (cmpFlags c.cx 1), ip := addr y .printNumberDone } _ :=
    Goes.block rfl ⟨_, rfl⟩ (home_le y .printNumberDone) rfl hexecs
  have hret := hcmp.trans (hprint.trans (Goes.ret (p := addr y .printNumberDone + 7) rfl rfl
    home_le_add))
  have hback : c.sp + 2 + 2 + 2 = c₀.sp := by omega
  refine ⟨_, hret, ?_, ?_, h.mem, h.out.trans (Prints.putchar c.out 0 0x30)⟩
  · show c.mem.load 2 (c.sp + 2 + 2 + 2) = c₀.mem.load 2 c₀.sp
    rw [hback]
    exact Mem.load_congr fun x h1 _ => h.mem x (Or.inr h1)
  · show (c.sp + 2 + 2 + 2 + 2) % 65536 = c₀.sp + 2
    rw [hback]
    exact Nat.mod_eq_of_lt (by omega)

/-- The three registers are saved, and the first place is up. -/
theorem number_start (hip : c.ip = addr y .printNumber) (hax : c.ax = n) (hlow : 0x6008 ≤ c.sp)
    (hhigh : c.sp < 65534) :
    ∃ c', Goes (code y) home c c' ∧ AtPlace y c [] (10 ^ 4) n .printNumberLoop c' := by
  have hblock : Goes (code y) home c _ :=
    Goes.block (b := [push bx] ++ ([push cx] ++ ([push dx] ++ [movRR ax bx, movRI 10000 cx,
      xorBB dh dh]))) hip ⟨_, rfl⟩ (home_le y .printNumber) rfl (by
      rw [execs_append, execs_push rfl (by omega) (by omega), Option.bind_some, execs_append,
        execs_push rfl (by dsimp only; omega) (by dsimp only; omega), Option.bind_some,
        execs_append, execs_push rfl (by dsimp only; omega) (by dsimp only; omega),
        Option.bind_some]
      rfl)
  refine ⟨_, hblock, congrArg (· + 6) hip, rfl, hax, ?_, ?_, Prints.refl c.out⟩
  · show c.sp - 2 - 2 - 2 = c.sp - 6
    omega
  · intro x hx
    have h1 : x < c.sp - 2 ∨ c.sp - 2 + 2 ≤ x := by omega
    have h2 : x < c.sp - 2 - 2 ∨ c.sp - 2 - 2 + 2 ≤ x := by omega
    have h3 : x < c.sp - 2 - 2 - 2 ∨ c.sp - 2 - 2 - 2 + 2 ≤ x := by omega
    exact (Mem.store_out _ _ h3).trans ((Mem.store_out _ _ h2).trans (Mem.store_out _ _ h1))

theorem print_number_goes (hip : c.ip = addr y .printNumber) (hax : c.ax = n) (hn : n < 65536)
    (hlow : 0x6008 ≤ c.sp) (hhigh : c.sp < 65534) :
    ∃ c', Goes (code y) home c c' ∧ Returns c (numeral n) c' := by
  obtain ⟨d, hstart, hd⟩ := number_start hip hax hlow hhigh
  obtain ⟨e, hplaces, he⟩ := places_go hd (Nat.le_refl 4) (by omega) hn hlow hhigh
  obtain ⟨c', hdone, hr⟩ := number_done he hlow hhigh
  exact ⟨c', hstart.trans (hplaces.trans hdone), hr⟩

end PrintNumber

end MiniKvm.Guest
