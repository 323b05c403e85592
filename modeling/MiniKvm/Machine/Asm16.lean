import MiniKvm.Core.Bytes

/-!
# 16-bit assembly

Programs for the sixteen-bit registers of an x86 in real mode, with all four
segments at one base. A program is a listing of labels and instructions
(`assemble` numbers the instructions and puts the numbers for the labels), and
a code address is the number of an instruction. Registers are numbers below
2^16.

The flags are known after `cmp` and `test` only: other instructions make them
unknown, and a conditional jump on unknown flags has no next state, like a
fault and `hlt`.

`runTo` goes on until control is below `home`, where the caller is. `Goes` is
its step by step counterpart, without the count.
-/
namespace MiniKvm.Asm16

inductive Reg where
  | ax | bx | cx | dx | si | di | bp | sp
  deriving DecidableEq, Repr

/-- The registers of one byte. -/
inductive Half where
  | al | ah | bl | dl | dh
  deriving DecidableEq, Repr

inductive Cond where
  | z | nz | l | ge
  deriving DecidableEq, Repr

/-- Operands stand in the order of the AT&T syntax, the destination last; `ι` are the labels. -/
inductive Instr (ι : Type) where
  | movRI (v : Nat) (dst : Reg)
  | movRR (src dst : Reg)
  | movBI (v : Nat) (dst : Half)
  | movBB (src dst : Half)
  /-- `mov addr, %dst`. -/
  | loadA (addr : Nat) (dst : Reg)
  /-- `mov (%base), %dst`. -/
  | loadW (base dst : Reg)
  | loadB (base : Reg) (dst : Half)
  /-- `mov %src, (%base)`. -/
  | storeW (src base : Reg)
  | storeB (src : Half) (base : Reg)
  /-- With the direction flag clear. -/
  | lodsb
  | addRR (src dst : Reg)
  | addRI (v : Nat) (dst : Reg)
  | addBI (v : Nat) (dst : Half)
  | subRR (src dst : Reg)
  | incR (dst : Reg)
  | xorRR (src dst : Reg)
  | xorBB (src dst : Half)
  /-- `shl $1, %dst`. -/
  | shlR (dst : Reg)
  | mulR (src : Reg)
  | divR (src : Reg)
  | cmpRI (v : Nat) (r : Reg)
  /-- `test %r, %r`. -/
  | testB (r : Half)
  | push (src : Reg)
  | pop (dst : Reg)
  | jmp (l : ι)
  | jcc (cond : Cond) (l : ι)
  | call (l : ι)
  | ret
  /-- `out %al, (%dx)`. -/
  | outB
  | hlt
  deriving DecidableEq, Repr

/-! ## Listings -/

inductive Line (ι : Type) where
  | label (l : ι)
  | op (i : Instr ι)

section Assemble

variable {ι : Type} [DecidableEq ι]

/-- The number of the instruction behind a label. -/
def address (l : ι) : List (Line ι) → Nat
  | [] => 0
  | .label l' :: ls => if l = l' then 0 else address l ls
  | .op _ :: ls => address l ls + 1

def Instr.map {κ : Type} (f : ι → κ) : Instr ι → Instr κ
  | movRI v dst => movRI v dst
  | movRR src dst => movRR src dst
  | movBI v dst => movBI v dst
  | movBB src dst => movBB src dst
  | loadA addr dst => loadA addr dst
  | loadW base dst => loadW base dst
  | loadB base dst => loadB base dst
  | storeW src base => storeW src base
  | storeB src base => storeB src base
  | lodsb => lodsb
  | addRR src dst => addRR src dst
  | addRI v dst => addRI v dst
  | addBI v dst => addBI v dst
  | subRR src dst => subRR src dst
  | incR dst => incR dst
  | xorRR src dst => xorRR src dst
  | xorBB src dst => xorBB src dst
  | shlR dst => shlR dst
  | mulR src => mulR src
  | divR src => divR src
  | cmpRI v r => cmpRI v r
  | testB r => testB r
  | push src => push src
  | pop dst => pop dst
  | jmp l => jmp (f l)
  | jcc cond l => jcc cond (f l)
  | call l => call (f l)
  | ret => ret
  | outB => outB
  | hlt => hlt

def assemble (ls : List (Line ι)) : List (Instr Nat) :=
  ls.filterMap fun
    | .label _ => none
    | .op i => some (i.map fun l => address l ls)

end Assemble

/-! ## The machine -/

structure Flags where
  zf : Bool
  sf : Bool
  of : Bool
  deriving DecidableEq, Repr

def Flags.holds (f : Flags) : Cond → Bool
  | .z => f.zf
  | .nz => !f.zf
  | .l => f.sf != f.of
  | .ge => f.sf == f.of

/-- A byte written to a port, and the register that a hypercall takes its argument from. -/
structure PortWrite where
  port : Nat
  value : Nat
  bx : Nat
  deriving DecidableEq, Repr

structure Cpu where
  ax : Nat
  bx : Nat
  cx : Nat
  dx : Nat
  si : Nat
  di : Nat
  bp : Nat
  sp : Nat
  flags : Option Flags
  ip : Nat
  mem : Mem
  out : List PortWrite

namespace Cpu

def get (c : Cpu) : Reg → Nat
  | .ax => c.ax
  | .bx => c.bx
  | .cx => c.cx
  | .dx => c.dx
  | .si => c.si
  | .di => c.di
  | .bp => c.bp
  | .sp => c.sp

def set (c : Cpu) (v : Nat) : Reg → Cpu
  | .ax => { c with ax := v }
  | .bx => { c with bx := v }
  | .cx => { c with cx := v }
  | .dx => { c with dx := v }
  | .si => { c with si := v }
  | .di => { c with di := v }
  | .bp => { c with bp := v }
  | .sp => { c with sp := v }

def getB (c : Cpu) : Half → Nat
  | .al => c.ax % 256
  | .ah => c.ax / 256
  | .bl => c.bx % 256
  | .dl => c.dx % 256
  | .dh => c.dx / 256

def setB (c : Cpu) (v : Nat) : Half → Cpu
  | .al => { c with ax := c.ax / 256 * 256 + v }
  | .ah => { c with ax := v * 256 + c.ax % 256 }
  | .bl => { c with bx := c.bx / 256 * 256 + v }
  | .dl => { c with dx := c.dx / 256 * 256 + v }
  | .dh => { c with dx := v * 256 + c.dx % 256 }

@[simp] theorem set_ip (c : Cpu) (v : Nat) (r : Reg) : (c.set v r).ip = c.ip := by
  cases r <;> rfl

@[simp] theorem setB_ip (c : Cpu) (v : Nat) (r : Half) : (c.setB v r).ip = c.ip := by
  cases r <;> rfl

@[simp] theorem set_out (c : Cpu) (v : Nat) (r : Reg) : (c.set v r).out = c.out := by
  cases r <;> rfl

@[simp] theorem setB_out (c : Cpu) (v : Nat) (r : Half) : (c.setB v r).out = c.out := by
  cases r <;> rfl

/-- The result of an instruction whose flags no one asks for. -/
def put (c : Cpu) (v : Nat) (dst : Reg) : Cpu := { c.set v dst with flags := none }

def putB (c : Cpu) (v : Nat) (dst : Half) : Cpu := { c.setB v dst with flags := none }

@[simp] theorem put_ip (c : Cpu) (v : Nat) (r : Reg) : (c.put v r).ip = c.ip := set_ip c v r

@[simp] theorem putB_ip (c : Cpu) (v : Nat) (r : Half) : (c.putB v r).ip = c.ip := setB_ip c v r

@[simp] theorem put_out (c : Cpu) (v : Nat) (r : Reg) : (c.put v r).out = c.out := set_out c v r

@[simp] theorem putB_out (c : Cpu) (v : Nat) (r : Half) : (c.putB v r).out = c.out :=
  setB_out c v r

def pushed (c : Cpu) (v : Nat) : Cpu :=
  let sp := (c.sp + 65534) % 65536
  { c with sp, mem := c.mem.store 2 sp v }

theorem pushed_eq (c : Cpu) (v : Nat) :
    c.pushed v =
      { c with
        sp := (c.sp + 65534) % 65536
        mem := c.mem.store 2 ((c.sp + 65534) % 65536) v } := by
  unfold pushed
  rfl

theorem pushed_of_le {c : Cpu} (h2 : 2 ≤ c.sp) (hsp : c.sp < 65536) (v : Nat) :
    c.pushed v = { c with sp := c.sp - 2, mem := c.mem.store 2 (c.sp - 2) v } := by
  have hmod : (c.sp + 65534) % 65536 = c.sp - 2 := by omega
  rw [pushed_eq, hmod]

@[simp] theorem pushed_ip (c : Cpu) (v : Nat) : (c.pushed v).ip = c.ip := by
  rw [pushed_eq]

@[simp] theorem pushed_out (c : Cpu) (v : Nat) : (c.pushed v).out = c.out := by
  rw [pushed_eq]

def top (c : Cpu) : Nat := c.mem.load 2 c.sp

end Cpu

/-- Of `a - b`. -/
def cmpFlags (a b : Nat) : Flags :=
  let d := (a + 65536 - b) % 65536
  let sign (v : Nat) : Bool := 32768 ≤ v
  ⟨d == 0, sign d, sign a != sign b && sign d != sign a⟩

/-- The next state; `ip` is behind the instruction already. -/
def exec (i : Instr Nat) (c : Cpu) : Option Cpu :=
  match i with
  | .movRI v dst => some (c.set v dst)
  | .movRR src dst => some (c.set (c.get src) dst)
  | .movBI v dst => some (c.setB v dst)
  | .movBB src dst => some (c.setB (c.getB src) dst)
  | .loadA addr dst => some (c.set (c.mem.load 2 addr) dst)
  | .loadW base dst => some (c.set (c.mem.load 2 (c.get base)) dst)
  | .loadB base dst => some (c.setB (c.mem (c.get base)).toNat dst)
  | .storeW src base => some { c with mem := c.mem.store 2 (c.get base) (c.get src) }
  | .storeB src base => some { c with mem := c.mem.store 1 (c.get base) (c.getB src) }
  | .lodsb => some ((c.setB (c.mem c.si).toNat .al).set ((c.si + 1) % 65536) .si)
  | .addRR src dst => some (c.put ((c.get dst + c.get src) % 65536) dst)
  | .addRI v dst => some (c.put ((c.get dst + v) % 65536) dst)
  | .addBI v dst => some (c.putB ((c.getB dst + v) % 256) dst)
  | .subRR src dst => some (c.put ((c.get dst + 65536 - c.get src) % 65536) dst)
  | .incR dst => some (c.put ((c.get dst + 1) % 65536) dst)
  | .xorRR src dst => some (c.put (c.get dst ^^^ c.get src) dst)
  | .xorBB src dst => some (c.putB (c.getB dst ^^^ c.getB src) dst)
  | .shlR dst => some (c.put (c.get dst * 2 % 65536) dst)
  | .mulR src =>
    let p := c.ax * c.get src
    some { c with ax := p % 65536, dx := p / 65536, flags := none }
  | .divR src =>
    let n := c.dx * 65536 + c.ax
    let d := c.get src
    if d = 0 ∨ 65536 ≤ n / d then none
    else some { c with ax := n / d, dx := n % d, flags := none }
  | .cmpRI v r => some { c with flags := some (cmpFlags (c.get r) v) }
  | .testB r => some { c with flags := some ⟨c.getB r == 0, 128 ≤ c.getB r, false⟩ }
  | .push src => some (c.pushed (c.get src))
  | .pop dst => some ({ c with sp := (c.sp + 2) % 65536 }.set c.top dst)
  | .jmp l => some { c with ip := l }
  | .jcc cond l => c.flags.map fun f => if f.holds cond then { c with ip := l } else c
  | .call l => some { c.pushed c.ip with ip := l }
  | .ret => some { c with ip := c.top, sp := (c.sp + 2) % 65536 }
  | .outB => some { c with out := c.out ++ [⟨c.dx, c.ax % 256, c.bx⟩] }
  | .hlt => none

def step (code : List (Instr Nat)) (c : Cpu) : Option Cpu :=
  code[c.ip]?.bind fun i => exec i { c with ip := c.ip + 1 }

/-- Until control is below `home`; `n` bounds the steps. -/
def runTo (code : List (Instr Nat)) (home : Nat) : Nat → Cpu → Option Cpu
  | 0, _ => none
  | n + 1, c => if c.ip < home then some c else (step code c).bind (runTo code home n)

/-! ## Runs -/

/-- From `c` the run comes to `c'`, and is not below `home` on the way. -/
def Goes (code : List (Instr Nat)) (home : Nat) (c c' : Cpu) : Prop :=
  ∃ k, ∀ n, runTo code home (n + k) c = runTo code home n c'

/-- The instruction gives control to the next one. -/
def Instr.straight : Instr Nat → Bool
  | .jmp _ => false
  | .jcc _ _ => false
  | .call _ => false
  | .ret => false
  | _ => true

/-- A block of instructions. -/
def execs : List (Instr Nat) → Cpu → Option Cpu
  | [], c => some c
  | i :: is, c => (exec i { c with ip := c.ip + 1 }).bind (execs is)

section Rules

variable {code : List (Instr Nat)} {home : Nat} {c c' c'' : Cpu}

theorem Goes.refl (code : List (Instr Nat)) (home : Nat) (c : Cpu) : Goes code home c c :=
  ⟨0, fun _ => rfl⟩

theorem Goes.trans (h : Goes code home c c') (h' : Goes code home c' c'') :
    Goes code home c c'' := by
  obtain ⟨k, hk⟩ := h
  obtain ⟨k', hk'⟩ := h'
  refine ⟨k' + k, fun n => ?_⟩
  rw [← Nat.add_assoc, hk, hk']

theorem Goes.step (hip : home ≤ c.ip) (h : Asm16.step code c = some c') : Goes code home c c' := by
  refine ⟨1, fun n => ?_⟩
  rw [runTo, if_neg (Nat.not_lt.2 hip), h]
  rfl

/-- The run is over when control comes home. -/
theorem Goes.runTo_eq (h : Goes code home c c') (hip : c'.ip < home) :
    ∃ k, ∀ n, k ≤ n → runTo code home n c = some c' := by
  obtain ⟨k, hk⟩ := h
  refine ⟨k + 1, fun n hn => ?_⟩
  obtain ⟨m, rfl⟩ : ∃ m, n = m + 1 + k := ⟨n - k - 1, by omega⟩
  rw [hk, runTo, if_pos hip]

theorem exec_ip {i : Instr Nat} (hi : i.straight = true) (h : exec i c = some c') :
    c'.ip = c.ip := by
  cases i with
  | jmp | jcc | call | ret => cases hi
  | hlt => cases h
  | divR src =>
    simp only [exec] at h
    split at h
    · cases h
    · rw [← Option.some.inj h]
  | _ =>
    simp only [exec, Option.some.injEq] at h
    subst h
    simp

/-- Only `out` writes to a port. -/
theorem exec_out {i : Instr Nat} (hi : i ≠ .outB) (h : exec i c = some c') : c'.out = c.out := by
  cases i with
  | outB => exact absurd rfl hi
  | hlt => cases h
  | jcc k l =>
    obtain ⟨f, -, rfl⟩ := Option.map_eq_some_iff.1 h
    split <;> rfl
  | divR src =>
    simp only [exec] at h
    split at h
    · cases h
    · rw [← Option.some.inj h]
  | _ =>
    simp only [exec, Option.some.injEq] at h
    subst h
    simp

/-- A block runs through. -/
theorem Goes.block {b : List (Instr Nat)} {p : Nat} (hp : c.ip = p) (hcode : b <+: code.drop p)
    (hhome : home ≤ p) (hstraight : b.all Instr.straight = true) (h : execs b c = some c') :
    Goes code home c c' := by
  induction b generalizing c p with
  | nil =>
    obtain rfl := Option.some.inj h
    exact Goes.refl code home c
  | cons i is ih =>
    obtain ⟨c1, h1, hrest⟩ := Option.bind_eq_some_iff.1 h
    rw [List.all_cons, Bool.and_eq_true] at hstraight
    have hip1 : c1.ip = c.ip + 1 := exec_ip hstraight.1 h1
    obtain ⟨rest, hcode⟩ := hcode
    have hfetch : code[p]? = some i := by
      have hdrop : (code.drop p)[0]? = code[p]? := List.getElem?_drop
      rw [← hcode] at hdrop
      exact hdrop.symm
    have hnext : is <+: code.drop (p + 1) := by
      refine ⟨rest, ?_⟩
      rw [← List.tail_drop, ← hcode]
      rfl
    have hstep : Asm16.step code c = some c1 := by
      rw [Asm16.step, hp, hfetch, ← hp]
      exact h1
    exact (Goes.step (hp ▸ hhome) hstep).trans
      (ih (hip1.trans (congrArg (· + 1) hp)) hnext (Nat.le_succ_of_le hhome) hstraight.2 hrest)

theorem Goes.jmp {l p : Nat} (hp : c.ip = p) (hcode : code[p]? = some (.jmp l))
    (hhome : home ≤ p) : Goes code home c { c with ip := l } := by
  refine Goes.step (hp ▸ hhome) ?_
  rw [Asm16.step, hp, hcode]
  rfl

theorem Goes.jcc {k : Cond} {l p : Nat} {f : Flags} (hp : c.ip = p)
    (hcode : code[p]? = some (.jcc k l)) (hhome : home ≤ p) (hf : c.flags = some f) :
    Goes code home c { c with ip := if f.holds k then l else p + 1 } := by
  refine Goes.step (hp ▸ hhome) ?_
  rw [Asm16.step, hp, hcode, Option.bind_some, exec]
  dsimp only
  rw [hf, Option.map_some]
  by_cases h : f.holds k
  · rw [if_pos h, if_pos h]
  · rw [if_neg h, if_neg h]

theorem Goes.call {l p : Nat} (hp : c.ip = p) (hcode : code[p]? = some (.call l))
    (hhome : home ≤ p) : Goes code home c { c.pushed (p + 1) with ip := l } := by
  refine Goes.step (hp ▸ hhome) ?_
  rw [Asm16.step, hp, hcode]
  rfl

theorem Goes.ret {p : Nat} (hp : c.ip = p) (hcode : code[p]? = some .ret) (hhome : home ≤ p) :
    Goes code home c { c with ip := c.top, sp := (c.sp + 2) % 65536 } := by
  refine Goes.step (hp ▸ hhome) ?_
  rw [Asm16.step, hp, hcode]
  rfl

/-- A loop that counts: from turn to turn the invariant holds of the next number. -/
theorem Goes.count {inv : Nat → Cpu → Prop} {n : Nat}
    (hturn : ∀ k < n, ∀ c, inv k c → ∃ c', Goes code home c c' ∧ inv (k + 1) c')
    (h : inv 0 c) : ∃ c', Goes code home c c' ∧ inv n c' := by
  induction n with
  | zero => exact ⟨c, Goes.refl code home c, h⟩
  | succ n ih =>
    obtain ⟨c1, h1, hinv1⟩ := ih fun k hk => hturn k (Nat.lt_succ_of_lt hk)
    obtain ⟨c2, h2, hinv2⟩ := hturn n (Nat.lt_succ_self n) c1 hinv1
    exact ⟨c2, h1.trans h2, hinv2⟩

end Rules

/-- Small numbers are compared as they are. -/
theorem cmpFlags_holds {a b : Nat} (ha : a < 32768) (hb : b < 32768) :
    (cmpFlags a b).holds .l = decide (a < b) ∧ (cmpFlags a b).holds .ge = decide (b ≤ a) := by
  have hsa : decide (32768 ≤ a) = false := decide_eq_false (by omega)
  have hsb : decide (32768 ≤ b) = false := decide_eq_false (by omega)
  rcases Nat.lt_or_ge a b with h | h
  · have hd : (a + 65536 - b) % 65536 = a + 65536 - b := Nat.mod_eq_of_lt (by omega)
    have hsd : decide (32768 ≤ a + 65536 - b) = true := decide_eq_true (by omega)
    simp [cmpFlags, Flags.holds, hsa, hsb, hd, hsd, h]
  · have hd : (a + 65536 - b) % 65536 = a - b := by omega
    have hsd : decide (32768 ≤ a - b) = false := decide_eq_false (by omega)
    simp [cmpFlags, Flags.holds, hsa, hsb, hd, hsd, h]

theorem cmpFlags_ge_of_lt {a b : Nat} (h : a < b) (hb : b < 32768) :
    (cmpFlags a b).holds .ge = false := by
  rw [(cmpFlags_holds (Nat.lt_trans h hb) hb).2]
  exact decide_eq_false (Nat.not_le.2 h)

theorem cmpFlags_ge_of_le {a b : Nat} (h : b ≤ a) (ha : a < 32768) :
    (cmpFlags a b).holds .ge = true := by
  rw [(cmpFlags_holds ha (Nat.lt_of_le_of_lt h ha)).2]
  exact decide_eq_true h

section Compare

variable {code : List (Instr Nat)} {home : Nat} {c : Cpu} {v l p : Nat} {r : Reg}
  {cond : Cond}

/-- A comparison, and the jump behind it. -/
theorem Goes.cmp_jcc (hp : c.ip = p) (hcmp : code[p]? = some (.cmpRI v r))
    (hjcc : code[p + 1]? = some (.jcc cond l)) (hhome : home ≤ p) :
    Goes code home c
      { c with
        flags := some (cmpFlags (c.get r) v)
        ip := if (cmpFlags (c.get r) v).holds cond then l else p + 2 } := by
  have hstep : Asm16.step code c =
      some { c with flags := some (cmpFlags (c.get r) v), ip := p + 1 } := by
    rw [Asm16.step, hp, hcmp]
    cases r <;> rfl
  exact (Goes.step (hp ▸ hhome) hstep).trans (Goes.jcc rfl hjcc (Nat.le_succ_of_le hhome) rfl)

theorem Goes.cmp_taken (hp : c.ip = p) (hcmp : code[p]? = some (.cmpRI v r))
    (hjcc : code[p + 1]? = some (.jcc cond l)) (hhome : home ≤ p)
    (h : (cmpFlags (c.get r) v).holds cond = true) :
    Goes code home c { c with flags := some (cmpFlags (c.get r) v), ip := l } := by
  have hjump := Goes.cmp_jcc hp hcmp hjcc hhome
  rwa [if_pos h] at hjump

theorem Goes.cmp_not_taken (hp : c.ip = p) (hcmp : code[p]? = some (.cmpRI v r))
    (hjcc : code[p + 1]? = some (.jcc cond l)) (hhome : home ≤ p)
    (h : (cmpFlags (c.get r) v).holds cond = false) :
    Goes code home c { c with flags := some (cmpFlags (c.get r) v), ip := p + 2 } := by
  have hjump := Goes.cmp_jcc hp hcmp hjcc hhome
  rwa [if_neg (by rw [h]; decide)] at hjump

/-- `for (r = 0; r < n; r++)`: the test at `p`, the body behind it, and `l` behind the loop. -/
theorem Goes.upTo {inv : Nat → Cpu → Prop} {n : Nat} (hcmp : code[p]? = some (.cmpRI n r))
    (hjcc : code[p + 1]? = some (.jcc .ge l)) (hhome : home ≤ p) (hn : n < 32768)
    (hat : ∀ k c, inv k c → c.ip = p ∧ c.get r = k)
    (hbody : ∀ k < n, ∀ c, inv k c → ∃ c',
      Goes code home { c with flags := some (cmpFlags k n), ip := p + 2 } c' ∧ inv (k + 1) c')
    (h : inv 0 c) :
    ∃ d, Goes code home c { d with flags := some (cmpFlags n n), ip := l } ∧ inv n d := by
  have hturn : ∀ k < n, ∀ c, inv k c → ∃ c', Goes code home c c' ∧ inv (k + 1) c' := by
    intro k hk c hc
    obtain ⟨hip, hget⟩ := hat k c hc
    obtain ⟨c', hgo, hc'⟩ := hbody k hk c hc
    have htest := Goes.cmp_not_taken hip hcmp hjcc hhome (hget ▸ cmpFlags_ge_of_lt hk hn)
    rw [hget] at htest
    exact ⟨c', htest.trans hgo, hc'⟩
  obtain ⟨d, hgo, hd⟩ := Goes.count hturn h
  obtain ⟨hip, hget⟩ := hat n d hd
  have hge := cmpFlags_ge_of_le (Nat.le_refl n) hn
  have htest := Goes.cmp_taken hip hcmp hjcc hhome (hget.symm ▸ hge)
  rw [hget] at htest
  exact ⟨d, hgo.trans htest, hd⟩

end Compare

section Test

variable {code : List (Instr Nat)} {home : Nat} {c : Cpu} {l p : Nat} {r : Half}

theorem Goes.test (hp : c.ip = p) (htest : code[p]? = some (.testB r)) (hhome : home ≤ p) :
    Goes code home c
      { c with flags := some ⟨c.getB r == 0, 128 ≤ c.getB r, false⟩, ip := p + 1 } := by
  refine Goes.step (hp ▸ hhome) ?_
  rw [Asm16.step, hp, htest]
  cases r <;> rfl

/-- A test of a byte, and `jz` behind it. -/
theorem Goes.test_jz (hp : c.ip = p) (htest : code[p]? = some (.testB r))
    (hjcc : code[p + 1]? = some (.jcc .z l)) (hhome : home ≤ p) :
    Goes code home c
      { c with
        flags := some ⟨c.getB r == 0, 128 ≤ c.getB r, false⟩
        ip := if c.getB r = 0 then l else p + 2 } := by
  have hjump := (Goes.test hp htest hhome).trans
    (Goes.jcc rfl hjcc (Nat.le_succ_of_le hhome) rfl)
  simp only [Flags.holds, beq_iff_eq] at hjump
  exact hjump

/-- A test of a byte, and `jnz` behind it. -/
theorem Goes.test_jnz (hp : c.ip = p) (htest : code[p]? = some (.testB r))
    (hjcc : code[p + 1]? = some (.jcc .nz l)) (hhome : home ≤ p) :
    Goes code home c
      { c with
        flags := some ⟨c.getB r == 0, 128 ≤ c.getB r, false⟩
        ip := if c.getB r = 0 then p + 2 else l } := by
  have hjump := (Goes.test hp htest hhome).trans
    (Goes.jcc rfl hjcc (Nat.le_succ_of_le hhome) rfl)
  simp only [Flags.holds, Bool.not_eq_true', beq_eq_false_iff_ne, ite_not] at hjump
  exact hjump

end Test

end MiniKvm.Asm16
