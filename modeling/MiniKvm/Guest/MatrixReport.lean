import MiniKvm.Guest.MatrixPrint

/-!
# The product, and what is reported of it

`_start` from the call of `matrix_multiply` to the return of `print_result`
(guest/matrix.S:29-33).

`matrix_multiply` stores its words one byte apart: a word overwrites the high
byte of the one before it. `print_result`, like the space that is reserved, has
them two bytes apart.
-/
namespace MiniKvm.Guest

open Asm16
open Vmm (ascii dec)

/-! ## print_result -/

/-- In `print_result`, called as `c₀`: at the instruction `p`, with `s` printed. -/
structure InResult (c₀ : Cpu) (s : List UInt8) (p : Nat) (c : Cpu) : Prop where
  ip : c.ip = p
  sp : c.sp = c₀.sp
  mem : Agrees c₀.sp c₀.mem c.mem
  out : Prints s c₀.out c.out

/-- The strings of `.data`, but for the header. -/
structure Strings (y : Layout) (m : Mem) : Prop where
  c00 : Mem.CStringAt m y.msgC00 (ascii "C[0][0] = ")
  c77 : Mem.CStringAt m y.msgC77 (ascii "C[7][7] = ")
  done : Mem.CStringAt m y.msgDone (ascii "\nMatrix multiplication complete!\n")

/-- What `print_result` prints for the memory it finds. -/
def report (y : Layout) (m : Mem) : List UInt8 :=
  ascii "C[0][0] = " ++ numeral (m.load 2 y.matrixC) ++ ascii "\n" ++ ascii "C[7][7] = " ++
    numeral (m.load 2 (y.matrixC + 126)) ++ ascii "\nMatrix multiplication complete!\n"

/-- The strings end below `.bss`. -/
theorem Layout.strings_lt (y : Layout) :
    y.msgC00 + (ascii "C[0][0] = ").length < y.bss ∧
      y.msgC77 + (ascii "C[7][7] = ").length < y.bss ∧
      y.msgDone + (ascii "\nMatrix multiplication complete!\n").length < y.bss := by
  have hbss := y.apart
  have hc00 : y.msgC00 = y.data + 37 := rfl
  have hc77 : y.msgC77 = y.data + 37 + 11 := rfl
  have hmsg : y.msgDone = y.data + 37 + 11 + 11 := rfl
  have hl1 : (ascii "C[0][0] = ").length = 10 := rfl
  have hl2 : (ascii "C[7][7] = ").length = 10 := rfl
  have hl3 : (ascii "\nMatrix multiplication complete!\n").length = 33 := rfl
  omega

theorem Strings.congr {y : Layout} {m m' : Mem} (hs : Strings y m)
    (h : ∀ x, x < y.bss → m' x = m x) : Strings y m' := by
  obtain ⟨h1, h2, h3⟩ := y.strings_lt
  exact ⟨hs.c00.congr fun x _ hx => h x (by omega), hs.c77.congr fun x _ hx => h x (by omega),
    hs.done.congr fun x _ hx => h x (by omega)⟩

section PrintResult

variable {y : Layout} {c₀ c : Cpu} {s t : List UInt8} {l p q a n : Nat}

/-- A call in `print_result`. -/
theorem call_goes (h : InResult c₀ s p c) (hcode : (code y)[p]? = some (.call l))
    (hp : home ≤ p) (hp' : p < 65535) (hlow : 0x6002 ≤ c₀.sp) (hhigh : c₀.sp < 65536)
    (hsub : ∀ d, d.ip = l → d.sp = c₀.sp - 2 → Agrees c₀.sp c₀.mem d.mem → d.si = c.si →
      d.ax = c.ax → ∃ c', Goes (code y) home d c' ∧ Returns d t c') :
    ∃ c', Goes (code y) home c c' ∧ InResult c₀ (s ++ t) (p + 1) c' := by
  have hsp := h.sp
  have hcall := Goes.call h.ip hcode hp
  rw [Cpu.pushed_of_le (by omega) (by omega), hsp] at hcall
  have hkeep : ∀ x, x < c₀.sp - 2 ∨ c₀.sp - 2 + 2 ≤ x →
      c.mem.store 2 (c₀.sp - 2) (p + 1) x = c.mem x := fun x hx => Mem.store_out _ _ hx
  obtain ⟨c', hgo, hr⟩ := hsub
    { c with sp := c₀.sp - 2, mem := c.mem.store 2 (c₀.sp - 2) (p + 1), ip := l } rfl rfl
    (fun x hx => (hkeep x (by omega)).trans (h.mem x hx)) rfl rfl
  have htop : (c.mem.store 2 (c₀.sp - 2) (p + 1)).load 2 (c₀.sp - 2) = p + 1 :=
    Mem.load_store_of_lt c.mem _ (by omega)
  refine ⟨c', hcall.trans hgo, hr.ip.trans htop, hr.sp.trans (by dsimp only; omega), ?_,
    h.out.trans hr.out⟩
  intro x hx
  have hx' : x < 0x6000 ∨ c₀.sp - 2 ≤ x := by omega
  exact (hr.mem x hx').trans ((hkeep x (by omega)).trans (h.mem x hx))

/-- A string is printed. -/
theorem InResult.string (h : InResult c₀ s p c) (hstring : Mem.CStringAt c₀.mem a t)
    (ha : a + t.length < 0x6000)
    (hload : [.movRI a .si] <+: (code y).drop p)
    (hcall : (code y)[p + 1]? = some (.call (addr y .printString))) (hp : home ≤ p)
    (hp' : p < 65534) (hlow : 0x6002 ≤ c₀.sp) (hhigh : c₀.sp < 65536) :
    ∃ c', Goes (code y) home c c' ∧ InResult c₀ (s ++ t) (p + 2) c' := by
  have hblock : Goes (code y) home c { c with si := a, ip := c.ip + 1 } :=
    Goes.block h.ip hload hp rfl rfl
  obtain ⟨c', hgo, hc'⟩ := call_goes (t := t)
    (c := { c with si := a, ip := c.ip + 1 })
    ⟨congrArg (· + 1) h.ip, h.sp, h.mem, h.out⟩ hcall (Nat.le_succ_of_le hp) (by omega) hlow hhigh
    (fun d hip hsp hmem hsi _ => print_string_goes (a := a) hip hsi
      (hstring.congr fun x _ hx => hmem x (Or.inl (by omega))) (by omega) (by omega))
  exact ⟨c', hblock.trans hgo, hc'⟩

/-- A block puts a number into `ax`, and it is printed. -/
theorem InResult.number {b : List (Instr Nat)} {d : Cpu} (h : InResult c₀ s p c)
    (hcode : b <+: (code y).drop p) (hstraight : b.all Instr.straight = true)
    (hexecs : execs b c = some d) (hip : d.ip = q) (hsp : d.sp = c.sp) (hmem : d.mem = c.mem)
    (hout : d.out = c.out) (hax : d.ax = n) (hn : n < 65536)
    (hcall : (code y)[q]? = some (.call (addr y .printNumber))) (hp : home ≤ p) (hpq : p ≤ q)
    (hq : q < 65535) (hlow : 0x600A ≤ c₀.sp) (hhigh : c₀.sp < 65536) :
    ∃ c', Goes (code y) home c c' ∧ InResult c₀ (s ++ numeral n) (q + 1) c' := by
  have hd : InResult c₀ s q d := ⟨hip, hsp.trans h.sp, hmem ▸ h.mem, hout ▸ h.out⟩
  obtain ⟨c', hgo, hc'⟩ := call_goes hd hcall (Nat.le_trans hp hpq) hq (by omega) hhigh
    fun _ hip hsp _ _ hax' => print_number_goes hip (hax'.trans hax) hn (by omega) (by omega)
  exact ⟨c', (Goes.block h.ip hcode hp hstraight hexecs).trans hgo, hc'⟩

/-- `bx` gets the address of the last element's word, and `ax` the word. -/
theorem execs_lastWord (y : Layout) (c : Cpu) :
    execs [.movRI (N - 1) .ax, .movRI N .bx, .mulR .bx, .addRI (N - 1) .ax, .shlR .ax,
        .movRI y.matrixC .bx, .addRR .ax .bx, .loadW .bx .ax] c =
      some { c with
        ax := c.mem.load 2 (y.matrixC + 126)
        bx := y.matrixC + 126
        dx := 0
        flags := none
        ip := c.ip + 8 } := by
  have hC : y.matrixC + 128 ≤ 0x6000 := y.fits
  have hoff : ((N - 1) * N % 65536 + (N - 1)) % 65536 * 2 % 65536 = 126 := rfl
  have hdx : (N - 1) * N / 65536 = 0 := rfl
  have hbx : (y.matrixC + 126) % 65536 = y.matrixC + 126 := Nat.mod_eq_of_lt (by omega)
  have hraw : execs [.movRI (N - 1) .ax, .movRI N .bx, .mulR .bx, .addRI (N - 1) .ax, .shlR .ax,
        .movRI y.matrixC .bx, .addRR .ax .bx, .loadW .bx .ax] c =
      some { c with
        ax := c.mem.load 2
          ((y.matrixC + ((N - 1) * N % 65536 + (N - 1)) % 65536 * 2 % 65536) % 65536)
        bx := (y.matrixC + ((N - 1) * N % 65536 + (N - 1)) % 65536 * 2 % 65536) % 65536
        dx := (N - 1) * N / 65536
        flags := none
        ip := c.ip + 8 } := rfl
  rw [hraw, hoff, hdx, hbx]

/-- The newline between the two numbers. -/
theorem InResult.newline (h : InResult c₀ s p c)
    (hcode : [.movBI 0x0A .bl] ++ putchar <+: (code y).drop p) (hp : home ≤ p) :
    ∃ c', Goes (code y) home c c' ∧ InResult c₀ (s ++ ascii "\n") (p + 4) c' := by
  have hbl : execs [.movBI 0x0A .bl] c =
      some { c with bx := c.bx / 256 * 256 + 0x0A, ip := c.ip + 1 } := rfl
  have hexecs := execs_append [.movBI 0x0A .bl] putchar c
  rw [hbl, Option.bind_some, execs_putchar] at hexecs
  exact ⟨_, Goes.block h.ip hcode hp rfl hexecs, congrArg (· + 4) h.ip, h.sp, h.mem,
    h.out.trans (Prints.putchar c.out c.bx 0x0A)⟩

/-- Words outside the stack are as they were. -/
theorem InResult.load (h : InResult c₀ s p c) (ha : a + 2 ≤ 0x6000) :
    c.mem.load 2 a = c₀.mem.load 2 a :=
  Mem.load_congr fun x _ hx => h.mem x (Or.inl (by omega))

theorem print_result_goes (hip : c.ip = addr y .printResult) (hs : Strings y c.mem)
    (hlow : 0x600A ≤ c.sp) (hhigh : c.sp < 65534) :
    ∃ c', Goes (code y) home c c' ∧ Returns c (report y c.mem) c' := by
  obtain ⟨h1, h2, h3⟩ := y.strings_lt
  have hC : y.matrixC + 128 ≤ 0x6000 := y.fits
  have hbss : y.matrixC = y.bss + 64 + 64 := rfl
  have hhome : ∀ k, home ≤ addr y .printResult + k := fun _ => home_le_add
  have haddr : addr y .printResult = 102 := rfl
  have hlt : ∀ x, c.mem.load 2 x < 65536 := Mem.load_lt c.mem 2
  have hstart : InResult c [] (addr y .printResult) c :=
    ⟨hip, rfl, fun _ _ => rfl, Prints.refl c.out⟩
  obtain ⟨d, hgo1, hd⟩ := hstart.string (y := y) hs.c00 (by omega) ⟨_, rfl⟩ rfl
    (hhome 0) (by omega) (by omega) (by omega)
  obtain ⟨e, hgo2, he⟩ := hd.number (b := [.loadA y.matrixC .ax]) ⟨_, rfl⟩ rfl rfl
    (congrArg (· + 1) hd.ip) rfl rfl rfl (hd.load (by omega)) (hlt _) rfl (hhome 2) (by omega)
    (by omega) hlow (by omega)
  obtain ⟨f, hgo3, hf⟩ := he.newline ⟨_, rfl⟩ (hhome 4)
  obtain ⟨g, hgo4, hg⟩ := hf.string (y := y) hs.c77 (by omega) ⟨_, rfl⟩ rfl (hhome 8)
    (by omega) (by omega) (by omega)
  obtain ⟨i, hgo5, hi⟩ := hg.number ⟨_, rfl⟩ rfl (execs_lastWord y g)
    (congrArg (· + 8) hg.ip) rfl rfl rfl (hg.load (by omega)) (hlt _) rfl (hhome 10) (by omega)
    (by omega) hlow (by omega)
  obtain ⟨j, hgo6, hj⟩ := hi.string (y := y) hs.done (by omega) ⟨_, rfl⟩ rfl (hhome 19)
    (by omega) (by omega) (by omega)
  have hret : Goes (code y) home j _ := Goes.ret hj.ip rfl (hhome 21)
  have hgo := hgo1.trans (hgo2.trans (hgo3.trans (hgo4.trans (hgo5.trans (hgo6.trans hret)))))
  refine ⟨_, hgo, ?_, ?_, hj.mem, hj.out⟩
  · show j.mem.load 2 j.sp = c.mem.load 2 c.sp
    rw [hj.sp]
    exact Mem.load_congr fun x h1 _ => hj.mem x (Or.inr h1)
  · show (j.sp + 2) % 65536 = c.sp + 2
    rw [hj.sp]
    exact Nat.mod_eq_of_lt (by omega)

end PrintResult

/-! ## The calls of `_start` -/

/-- A call in `_start`, and the run to its return. -/
def call (y : Layout) (n : Nat) (s : Cpu) : Option Cpu :=
  (step (code y) s).bind (runTo (code y) home n)

/-- The call at `s` returns, as `d`. -/
def Calls (y : Layout) (s d : Cpu) : Prop :=
  d.ip = s.ip + 1 ∧ ∃ k, ∀ n, k ≤ n → call y n s = some d

/-- `_start` is about to call `matrix_multiply`. Nothing was written to `matrix_c` yet, and
`.bss` starts as zeros. -/
structure Ready (y : Layout) (s : Cpu) : Prop where
  ip : s.ip = 3
  sp : s.sp = 0x7000
  strings : Strings y s.mem
  zero : ∀ x, y.matrixC ≤ x → x < y.matrixC + N * N * 2 → s.mem x = 0

/-- The text for the product of the two matrices in `m`. -/
def due (y : Layout) (m : Mem) : List UInt8 :=
  ascii "C[0][0] = " ++ dec (product y m 0 0 % 65536) ++ ascii "\n" ++ ascii "C[7][7] = " ++
    dec (product y m 7 7 % 65536) ++ ascii "\nMatrix multiplication complete!\n"

/-- The words of `matrix_c` are those of the product, and the text is printed. -/
def MultipliesAndPrints (y : Layout) (s : Cpu) : Prop :=
  ∃ d r, Calls y s d ∧ Calls y d r ∧
    (∀ i < N, ∀ j < N,
      d.mem.load 2 (y.matrixC + 2 * (8 * i + j)) = product y s.mem i j % 65536) ∧
    Prints (due y s.mem) d.out r.out

section Calls

variable {y : Layout} {s d d' c : Cpu} {l : Nat}

theorem Calls.unique (h : Calls y s d) (h' : Calls y s d') : d = d' := by
  obtain ⟨-, k, hk⟩ := h
  obtain ⟨-, k', hk'⟩ := h'
  have heq := hk (k + k') (Nat.le_add_right k k')
  rw [hk' (k + k') (Nat.le_add_left k' k)] at heq
  exact (Option.some.inj heq).symm

theorem Calls.of_goes {k : Nat} (hip : s.ip = k) (hcode : (code y)[k]? = some (.call l))
    (hhome : k + 1 < home) (hsp : s.sp = 0x7000)
    (hgo : Goes (code y) home
      { s with sp := 0x6FFE, mem := s.mem.store 2 0x6FFE (k + 1), ip := l } d)
    (hret : d.ip = (s.mem.store 2 0x6FFE (k + 1)).load 2 0x6FFE) : Calls y s d := by
  subst hip
  have hback : d.ip = s.ip + 1 :=
    hret.trans (Mem.load_store_of_lt s.mem _ (Nat.lt_trans hhome (by decide)))
  have hpushed := Cpu.pushed_of_le (c := s) (by omega) (by omega) (s.ip + 1)
  rw [hsp] at hpushed
  have hstep : step (code y) s =
      some { s with sp := 0x6FFE, mem := s.mem.store 2 0x6FFE (s.ip + 1), ip := l } := by
    rw [step, hcode, Option.bind_some]
    show some { s.pushed (s.ip + 1) with ip := l } = _
    rw [hpushed]
  obtain ⟨k, hk⟩ := hgo.runTo_eq (hback ▸ hhome)
  refine ⟨hback, k, fun n hn => ?_⟩
  rw [call, hstep, Option.bind_some, hk n hn]

/-- The return address is on the stack only. -/
theorem pushed_low (m : Mem) (v : Nat) : ∀ x < 0x6000, m.store 2 0x6FFE v x = m x :=
  fun _ hx => Mem.store_out _ _ (by omega)

theorem sums_congr {m m' : Mem} {t : Nat} (h : ∀ x, x < 0x6000 → m' x = m x) (ht : t < 64) :
    sums y m' t = sums y m t := by
  have hB : y.matrixB + 192 ≤ 0x6000 := y.fits
  have hA : y.matrixA + 64 = y.matrixB := rfl
  have hsums : ∀ n ≤ 8,
      partialSum y m' (t / 8) (t % 8) n = partialSum y m (t / 8) (t % 8) n := by
    intro n
    induction n with
    | zero => exact fun _ => rfl
    | succ n ih =>
      intro hn
      rw [partialSum_succ, partialSum_succ, ih (by omega), h _ (by omega), h _ (by omega)]
  exact congrArg (· % 65536) (hsums N (Nat.le_refl 8))

/-- The words are stored one byte apart. -/
theorem Ready.multiplies (h : Ready y s) :
    ∃ d, Calls y s d ∧ d.sp = 0x7000 ∧ d.out = s.out ∧
      ∀ x < 0x6000, d.mem x = spread y.matrixC (sums y s.mem) s.mem 64 x := by
  obtain ⟨d, hgo, hret, hsp, hout, hmem⟩ := matrix_multiply_goes (y := y)
    (c := { s with sp := 0x6FFE, mem := s.mem.store 2 0x6FFE 4, ip := addr y .matrixMultiply })
    rfl (by dsimp only; omega) (by dsimp only; omega)
  refine ⟨d, Calls.of_goes h.ip rfl (by decide) h.sp hgo hret, hsp, hout, fun x hx => ?_⟩
  have hkeep := pushed_low s.mem 4
  rw [hmem x (Or.inl hx)]
  exact spread_congr (fun t ht => sums_congr hkeep ht) (hkeep x hx)

theorem report_congr {m m' : Mem} (h : ∀ x, x < 0x6000 → m' x = m x) :
    report y m' = report y m := by
  have hC : y.matrixC + 128 ≤ 0x6000 := y.fits
  have hload : ∀ a, a + 2 ≤ 0x6000 → m'.load 2 a = m.load 2 a := fun a ha =>
    Mem.load_congr fun x _ hx => h x (by omega)
  rw [report, report, hload _ (by omega), hload _ (by omega)]

/-- `print_result` reports what it finds. -/
theorem calls_print (hip : d.ip = 4) (hsp : d.sp = 0x7000) (hs : Strings y d.mem) :
    ∃ r, Calls y d r ∧ Prints (report y d.mem) d.out r.out := by
  have hbss : y.bss + 256 ≤ 0x6000 := y.fits
  have hkeep := pushed_low d.mem 5
  obtain ⟨r, hgo, hr⟩ := print_result_goes (y := y)
    (c := { d with sp := 0x6FFE, mem := d.mem.store 2 0x6FFE 5, ip := addr y .printResult })
    rfl (hs.congr fun x hx => hkeep x (by omega)) (by dsimp only; omega) (by dsimp only; omega)
  exact ⟨r, Calls.of_goes hip rfl (by decide) hsp hgo hr.ip, report_congr (y := y) hkeep ▸ hr.out⟩

end Calls

/-! ## One byte apart, two bytes apart -/

/-- Bytes `b`, the low ones of `p` and the high one of the last: taken two by two they are `p`
again only when nothing but the first is left. -/
theorem pairs_eq_iff {p b : Nat → Nat} (hlow : ∀ t < 64, b t = p t % 256)
    (hhigh : b 64 = p 63 / 256)
    (hzero : ∀ t, 64 < t → t < 128 → b t = 0) :
    (∀ t < 64, b (2 * t) + 256 * b (2 * t + 1) = p t) ↔
      p 0 < 256 ∧ ∀ t, 0 < t → t < 64 → p t = 0 := by
  have hrest : ∀ t, (∀ u, t < u → u < 64 → p u = 0) → t < 63 →
      ∀ u, t < u → u < 128 → b u = 0 := by
    intro t h ht u hu hu'
    have h63 := h 63 ht (by decide)
    rcases Nat.lt_trichotomy u 64 with hlt | rfl | hgt
    · rw [hlow u hlt, h u hu hlt]
    · rw [hhigh, h63]
    · exact hzero u hgt hu'
  constructor
  · intro hpairs
    have hstep : ∀ t, 0 < t → t < 64 → (∀ u, t < u → u < 64 → p u = 0) → p t = 0 := by
      intro t ht0 ht hlater
      rw [← hpairs t ht]
      rcases Nat.lt_or_ge t 63 with hlt | hge
      · rw [hrest t hlater hlt (2 * t) (by omega) (by omega),
          hrest t hlater hlt (2 * t + 1) (by omega) (by omega)]
      · rw [hzero (2 * t) (by omega) (by omega), hzero (2 * t + 1) (by omega) (by omega)]
    -- from the last element on
    have hdown : ∀ n t, 64 - n ≤ t → 0 < t → t < 64 → p t = 0 := by
      intro n
      induction n with
      | zero => exact fun t h1 _ h2 => absurd h2 (by omega)
      | succ n ih =>
        intro t h1 h2 h3
        exact hstep t h2 h3 fun u hu hu' => ih u (by omega) (by omega) hu'
    have hpos : ∀ t, 0 < t → t < 64 → p t = 0 := fun t => hdown 64 t (by omega)
    have h0 := hpairs 0 (by decide)
    rw [hlow 0 (by decide), hlow 1 (by decide), hpos 1 (by decide) (by decide)] at h0
    exact ⟨by omega, hpos⟩
  · rintro ⟨h0, h⟩ t ht
    rcases Nat.eq_zero_or_pos t with rfl | hpos
    · rw [hlow 0 (by decide), hlow 1 (by decide), h 1 (by decide) (by decide)]
      omega
    · rw [hrest 0 h (by decide) (2 * t) (by omega) (by omega),
        hrest 0 h (by decide) (2 * t + 1) (by omega) (by omega), h t hpos ht]

/-- The words of `matrix_c` that `matrix_multiply` leaves. -/
theorem spread_words_iff {y : Layout} {m m' : Mem} {w : Nat → Nat} (hw : ∀ t < 64, w t < 65536)
    (hzero : ∀ x, y.matrixC ≤ x → x < y.matrixC + N * N * 2 → m x = 0)
    (hm : ∀ x < 0x6000, m' x = spread y.matrixC w m 64 x) :
    (∀ t < 64, m'.load 2 (y.matrixC + 2 * t) = w t) ↔
      w 0 < 256 ∧ ∀ t, 0 < t → t < 64 → w t = 0 := by
  have hC : y.matrixC + 128 ≤ 0x6000 := y.fits
  have hN : N * N * 2 = 128 := rfl
  refine pairs_eq_iff (p := w) (b := fun t => (m' (y.matrixC + t)).toNat) ?_ ?_ ?_
  · intro t ht
    rw [hm _ (by omega), spread_low ht, UInt8.toNat_ofNat']
  · have hw63 := hw 63 (by decide)
    rw [hm _ (by omega), spread_high, UInt8.toNat_ofNat']
    omega
  · intro t ht ht'
    rw [hm _ (by omega), spread_out (by omega), hzero _ (by omega) (by omega)]
    rfl

/-! ## The numerals -/

/-- The ones digit is zero, and the tens digit is not. -/
def EndsInOneZero (n : Nat) : Prop := n % 10 = 0 ∧ n / 10 % 10 ≠ 0

instance (n : Nat) : Decidable (EndsInOneZero n) := inferInstanceAs (Decidable (_ ∧ _))

/-- `print_number` leaves zeros out and adds one: the numeral is right when it has one zero,
at the end. -/
theorem numeral_eq_dec_iff {n : Nat} (hn : n < 256) :
    numeral n = dec n ↔ n = 0 ∨ EndsInOneZero n := by
  have hall : ∀ n < 256, (numeral n = dec n ↔ n = 0 ∨ EndsInOneZero n) := by decide +kernel
  exact hall n hn

/-! ## When the product is reported -/

section Reported

variable {y : Layout} {s d : Cpu}

theorem sums_lt (y : Layout) (m : Mem) (t : Nat) : sums y m t < 65536 :=
  Nat.mod_lt _ (by decide)

theorem sums_eq (y : Layout) (m : Mem) {i j : Nat} (hj : j < 8) :
    sums y m (8 * i + j) = product y m i j % 65536 := by
  have hrow : (8 * i + j) / 8 = i := by omega
  have hcol : (8 * i + j) % 8 = j := by omega
  rw [sums, hrow, hcol]

/-- Elements by row and column, and by number. -/
theorem elements_iff {P : Nat → Nat → Prop} {Q : Nat → Prop}
    (h : ∀ i j, j < 8 → (P i j ↔ Q (8 * i + j))) :
    (∀ i < N, ∀ j < N, P i j) ↔ ∀ t < 64, Q t := by
  constructor
  · intro hP t ht
    have hPt := (h (t / 8) (t % 8) (Nat.mod_lt t (by decide))).1
      (hP (t / 8) (Nat.div_lt_of_lt_mul ht) (t % 8) (Nat.mod_lt t (by decide)))
    rwa [Nat.div_add_mod] at hPt
  · intro hQ i hi j hj
    have hi8 : i < 8 := hi
    exact (h i j hj).2 (hQ (8 * i + j) (by have hj8 : j < 8 := hj; omega))

/-- Whether the words are right that `matrix_multiply` leaves. -/
theorem Ready.words_iff (h : Ready y s)
    (hd : ∀ x < 0x6000, d.mem x = spread y.matrixC (sums y s.mem) s.mem 64 x) :
    (∀ i < N, ∀ j < N,
      d.mem.load 2 (y.matrixC + 2 * (8 * i + j)) = product y s.mem i j % 65536) ↔
      product y s.mem 0 0 % 65536 < 256 ∧
        ∀ i < N, ∀ j < N, (i, j) ≠ (0, 0) → product y s.mem i j % 65536 = 0 := by
  have hwords := spread_words_iff (fun t _ => sums_lt y s.mem t) h.zero hd
  have hfirst : sums y s.mem 0 = product y s.mem 0 0 % 65536 := rfl
  have hall : (∀ i < N, ∀ j < N,
      d.mem.load 2 (y.matrixC + 2 * (8 * i + j)) = product y s.mem i j % 65536) ↔
      ∀ t < 64, d.mem.load 2 (y.matrixC + 2 * t) = sums y s.mem t :=
    elements_iff fun i j hj => by rw [sums_eq y s.mem hj]
  have hrest : (∀ i < N, ∀ j < N, (i, j) ≠ (0, 0) → product y s.mem i j % 65536 = 0) ↔
      ∀ t < 64, 0 < t → sums y s.mem t = 0 :=
    elements_iff fun i j hj => by
      have hpos : (i, j) ≠ (0, 0) ↔ 0 < 8 * i + j := by
        rw [Ne, Prod.mk.injEq]
        omega
      rw [sums_eq y s.mem hj, hpos]
  rw [hall, hwords, hrest, hfirst]
  exact and_congr_right fun _ => ⟨fun hz t ht ht0 => hz t ht0 ht, fun hz t ht0 ht => hz t ht ht0⟩

/-- Whether the text is right, when the words are. -/
theorem report_eq_due_iff {m m' : Mem}
    (hwords : ∀ i < N, ∀ j < N,
      m'.load 2 (y.matrixC + 2 * (8 * i + j)) = product y m i j % 65536)
    (hlast : product y m 7 7 % 65536 = 0) (hlt : product y m 0 0 % 65536 < 256) :
    report y m' = due y m ↔
      product y m 0 0 % 65536 = 0 ∨ EndsInOneZero (product y m 0 0 % 65536) := by
  have h0 : m'.load 2 y.matrixC = product y m 0 0 % 65536 := hwords 0 (by decide) 0 (by decide)
  have h77 : m'.load 2 (y.matrixC + 126) = 0 :=
    (hwords 7 (by decide) 7 (by decide)).trans hlast
  have hnumeral : numeral 0 = dec 0 := by decide
  rw [report, due, h0, h77, hlast, hnumeral, ← numeral_eq_dec_iff hlt]
  simp only [List.append_assoc, List.append_cancel_left_eq, List.append_cancel_right_eq]

/-- The product is computed and printed for the contents of which only the first element is
left, and for no others. -/
theorem matrix_product_reported_iff (y : Layout) (s : Cpu) (h : Ready y s) :
    MultipliesAndPrints y s ↔
      (∀ i < N, ∀ j < N, (i, j) ≠ (0, 0) → product y s.mem i j % 65536 = 0) ∧
        product y s.mem 0 0 % 65536 < 256 ∧
        (product y s.mem 0 0 % 65536 = 0 ∨ EndsInOneZero (product y s.mem 0 0 % 65536)) := by
  have hbss : y.bss + 256 ≤ 0x6000 := y.fits
  have hC : y.matrixC = y.bss + 64 + 64 := rfl
  obtain ⟨d, hcall, hsp, hout, hmem⟩ := h.multiplies
  have hstrings : Strings y d.mem := h.strings.congr fun x hx => by
    rw [hmem x (by omega), spread_out (by omega)]
  obtain ⟨r, hcall', hprints⟩ := calls_print (hcall.1.trans (congrArg (· + 1) h.ip)) hsp hstrings
  have hwords := h.words_iff hmem
  have hlast : (∀ i < N, ∀ j < N, (i, j) ≠ (0, 0) → product y s.mem i j % 65536 = 0) →
      product y s.mem 7 7 % 65536 = 0 := fun hz => hz 7 (by decide) 7 (by decide) (by decide)
  constructor
  · rintro ⟨d', r', hd', hr', hw, hp⟩
    obtain rfl := hcall.unique hd'
    obtain rfl := hcall'.unique hr'
    obtain ⟨hlt, hz⟩ := hwords.1 hw
    exact ⟨hz, hlt, (report_eq_due_iff hw (hlast hz) hlt).1 (hprints.unique hp)⟩
  · rintro ⟨hz, hlt, hn⟩
    have hw := hwords.2 ⟨hlt, hz⟩
    exact ⟨d, r, hcall, hcall', hw, (report_eq_due_iff hw (hlast hz) hlt).2 hn ▸ hprints⟩

end Reported

/-! ## Sample contents -/

section Sample

def sampleLayout : Layout := ⟨0x200, 0x300, by decide, by decide⟩

def sampleStrings : Mem :=
  Mem.write (Mem.write (Mem.write (fun _ => 0) 0x225 (ascii "C[0][0] = ")) 0x230
    (ascii "C[7][7] = ")) 0x23B (ascii "\nMatrix multiplication complete!\n")

/-- At the call, with `a` and `b` the first elements of the two matrices. -/
def sampleState (a b : List UInt8) : Cpu where
  ax := 0
  bx := 0
  cx := 0
  dx := 0
  si := 0
  di := 0
  bp := 0
  sp := 0x7000
  flags := none
  ip := 3
  mem := (sampleStrings.write 0x300 a).write 0x340 b
  out := []

theorem sampleState_ready {a b : List UInt8} (ha : a.length ≤ 64) (hb : b.length ≤ 64) :
    Ready sampleLayout (sampleState a b) where
  ip := rfl
  sp := rfl
  strings := by
    have hstrings : Strings sampleLayout sampleStrings :=
      ⟨⟨by decide, by decide, by decide⟩, ⟨by decide, by decide, by decide⟩,
        ⟨by decide, by decide, by decide⟩⟩
    refine hstrings.congr fun x hx => ?_
    have hx' : x < 0x300 := hx
    exact (Mem.write_out _ (by omega)).trans (Mem.write_out _ (by omega))
  zero := by
    intro x hx _
    have hx' : 0x380 ≤ x := hx
    have hstrings : sampleStrings x = 0 :=
      (Mem.write_out _ (Or.inr (Nat.le_trans (by decide) hx'))).trans
        ((Mem.write_out _ (Or.inr (Nat.le_trans (by decide) hx'))).trans
          (Mem.write_out _ (Or.inr (Nat.le_trans (by decide) hx'))))
    exact (Mem.write_out _ (by omega)).trans ((Mem.write_out _ (by omega)).trans hstrings)

/-- `A[0][0] = 8` and `B[0][0] = 10`. -/
theorem matrix_product_reported_iff_sample :
    MultipliesAndPrints sampleLayout (sampleState [8] [10]) :=
  (matrix_product_reported_iff _ _ (sampleState_ready (by decide) (by decide))).2
    (by decide +kernel)

/-- `A[i][j] = (i + j) % 10 + 1`. -/
def patternA : List UInt8 := (List.range 64).map fun t => UInt8.ofNat ((t / 8 + t % 8) % 10 + 1)

/-- `B[i][j] = (i - j + N) % 10 + 1`. -/
def patternB : List UInt8 :=
  (List.range 64).map fun t => UInt8.ofNat ((t / 8 + N - t % 8) % 10 + 1)

/-- The contents that the comments of `init_matrices` give. -/
theorem matrix_product_not_reported :
    Ready sampleLayout (sampleState patternA patternB) ∧
      ¬ MultipliesAndPrints sampleLayout (sampleState patternA patternB) := by
  have hready : Ready sampleLayout (sampleState patternA patternB) :=
    sampleState_ready (by decide) (by decide)
  refine ⟨hready, ?_⟩
  rintro ⟨d', r, hd', -, hw, -⟩
  obtain ⟨d, hcall, -, -, hmem⟩ := hready.multiplies
  obtain rfl := hcall.unique hd'
  have hzero := ((hready.words_iff hmem).1 hw).2 0 (by decide) 1 (by decide) (by decide)
  exact absurd hzero (by decide +kernel)

end Sample

end MiniKvm.Guest
