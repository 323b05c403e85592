import Mathlib.Algebra.Order.Ring.Nat
import Mathlib.Logic.Function.Basic

/-!
# Flat byte memory

A memory is a function from addresses to bytes. `write` is `memcpy`, `fill`
is `memset`, `load w` / `store w` read and write a little-endian word of `w`
bytes, `storeArr` is the loop `p[i] = f(i)` over an array of such words.

Every operation has two lemmas: what it puts into its own range, and that it
leaves every byte outside that range alone.
-/
namespace MiniKvm

abbrev Mem := Nat → UInt8

/-- The `n` low bytes of `v`, least significant first. -/
def leBytes : Nat → Nat → List UInt8
  | 0, _ => []
  | n + 1, v => UInt8.ofNat v :: leBytes n (v / 256)

def leVal : List UInt8 → Nat
  | [] => 0
  | b :: bs => b.toNat + 256 * leVal bs

@[simp] theorem leBytes_length (n v : Nat) : (leBytes n v).length = n := by
  induction n generalizing v with
  | zero => rfl
  | succ n ih => simp [leBytes, ih]

theorem leVal_leBytes (n v : Nat) : leVal (leBytes n v) = v % 256 ^ n := by
  induction n generalizing v with
  | zero => simp [leBytes, leVal, Nat.mod_one]
  | succ n ih =>
    have hm : v % (256 * 256 ^ n) = v % 256 + 256 * (v / 256 % 256 ^ n) := Nat.mod_mul
    simp only [leBytes, leVal, ih, UInt8.toNat_ofNat', Nat.pow_succ', hm]

theorem leVal_lt (bs : List UInt8) : leVal bs < 256 ^ bs.length := by
  induction bs with
  | nil => simp [leVal]
  | cons b bs ih =>
    have hb := b.toNat_lt
    simp only [leVal, List.length_cons, Nat.pow_succ']
    omega

theorem leBytes_leVal (bs : List UInt8) : leBytes bs.length (leVal bs) = bs := by
  induction bs with
  | nil => rfl
  | cons b bs ih =>
    have hb := b.toNat_lt
    have hd : (b.toNat + 256 * leVal bs) / 256 = leVal bs := by omega
    have hm : UInt8.ofNat (b.toNat + 256 * leVal bs) = b := by
      apply UInt8.toNat_inj.1
      rw [UInt8.toNat_ofNat']
      omega
    simp only [List.length_cons, leBytes, leVal, hd, ih, hm]

theorem leBytes_getElem {n v i : Nat} (h : i < (leBytes n v).length) :
    (leBytes n v)[i] = UInt8.ofNat (v / 256 ^ i) := by
  induction n generalizing v i with
  | zero => exact absurd h (Nat.not_lt_zero i)
  | succ n ih =>
    cases i with
    | zero => simp [leBytes]
    | succ i =>
      have hstep := ih (v := v / 256) (i := i) (by simp only [leBytes_length] at h ⊢; omega)
      rw [Nat.div_div_eq_div_mul, ← Nat.pow_succ'] at hstep
      exact hstep

theorem leVal_append (bs cs : List UInt8) :
    leVal (bs ++ cs) = leVal bs + 256 ^ bs.length * leVal cs := by
  induction bs with
  | nil => simp [leVal]
  | cons b bs ih =>
    rw [List.cons_append, leVal, ih, leVal, List.length_cons, Nat.pow_succ', Nat.mul_add,
      Nat.mul_assoc, Nat.add_assoc]

theorem leVal_replicate_zero (n : Nat) : leVal (List.replicate n 0) = 0 := by
  induction n with
  | zero => rfl
  | succ n ih => simp [List.replicate_succ, leVal, ih]

/-- Masking off the `k` low bits of an `k + n`-bit word rounds it down. -/
theorem and_high_mask {x k n : Nat} (hx : x < 2 ^ (k + n)) :
    x &&& (2 ^ k * (2 ^ n - 1)) = x / 2 ^ k * 2 ^ k := by
  apply Nat.eq_of_testBit_eq
  intro i
  rw [Nat.testBit_and, Nat.testBit_two_pow_mul, Nat.testBit_two_pow_sub_one,
    Nat.mul_comm (x / 2 ^ k), Nat.testBit_two_pow_mul, Nat.testBit_div_two_pow]
  by_cases hi : k ≤ i
  · have hik : k + (i - k) = i := by omega
    by_cases hn : i < k + n
    · simp [hi, show i - k < n by omega]
    · have hpow : 2 ^ (k + n) ≤ 2 ^ i := Nat.pow_le_pow_right (by decide) (by omega)
      have hbit : x.testBit i = false := Nat.testBit_lt_two_pow (Nat.lt_of_lt_of_le hx hpow)
      simp [hi, hbit]
  · simp [hi]

/-- Low bits are or-ed onto a shifted word. -/
theorem or_low_bits {k b : Nat} (a : Nat) (hb : b < 2 ^ k) : a * 2 ^ k ||| b = a * 2 ^ k + b := by
  rw [Nat.mul_comm a, Nat.two_pow_add_eq_or_of_lt hb]

namespace Mem

/-- `memcpy(m + a, bs, |bs|)`. -/
def write (m : Mem) (a : Nat) (bs : List UInt8) : Mem := fun x =>
  if a ≤ x ∧ x < a + bs.length then bs.getD (x - a) 0 else m x

/-- `memset(m + a, v, n)`. -/
def fill (m : Mem) (a n : Nat) (v : UInt8) : Mem := fun x =>
  if a ≤ x ∧ x < a + n then v else m x

def read (m : Mem) (a n : Nat) : List UInt8 := (List.range n).map fun i => m (a + i)

def load (m : Mem) (w a : Nat) : Nat := leVal (m.read a w)

def store (m : Mem) (w a v : Nat) : Mem := m.write a (leBytes w v)

/-- `for (i = 0; i < n; i++) p[i] = f(i)`, `p` an array of `w`-byte words at `base`. -/
def storeArr (m : Mem) (w base : Nat) (f : Nat → Nat) : Nat → Mem
  | 0 => m
  | n + 1 => (storeArr m w base f n).store w (base + w * n) (f n)

/-- `for (i = 0; i < n; i++) p[i] = f(i)`, `p` an array of `w`-byte records at `base`. -/
def writeArr (m : Mem) (w base : Nat) (f : Nat → List UInt8) : Nat → Mem
  | 0 => m
  | n + 1 => (writeArr m w base f n).write (base + w * n) (f n)

/-! ## Bytes -/

theorem write_in (m : Mem) {a x : Nat} {bs : List UInt8} (h1 : a ≤ x) (h2 : x < a + bs.length) :
    m.write a bs x = bs.getD (x - a) 0 := if_pos ⟨h1, h2⟩

theorem write_out (m : Mem) {a x : Nat} {bs : List UInt8} (h : x < a ∨ a + bs.length ≤ x) :
    m.write a bs x = m x := if_neg (by omega)

theorem write_add (m : Mem) {a i : Nat} {bs : List UInt8} (h : i < bs.length) :
    m.write a bs (a + i) = bs[i] := by
  rw [write_in m (by omega) (by omega), Nat.add_sub_cancel_left]
  simp [List.getD_eq_getElem?_getD, h]

/-- `m[a] = c`. -/
theorem write_singleton (m : Mem) (a : Nat) (c : UInt8) :
    m.write a [c] = Function.update m a c := by
  funext x
  by_cases hx : x = a
  · subst hx
    rw [Function.update_self, write_in m (Nat.le_refl x) (by simp), Nat.sub_self]
    rfl
  · rw [Function.update_of_ne hx, write_out m (by rw [List.length_singleton]; omega)]

theorem fill_in (m : Mem) {a n x : Nat} (v : UInt8) (h1 : a ≤ x) (h2 : x < a + n) :
    m.fill a n v x = v := if_pos ⟨h1, h2⟩

theorem fill_out (m : Mem) {a n x : Nat} (v : UInt8) (h : x < a ∨ a + n ≤ x) :
    m.fill a n v x = m x := if_neg (by omega)

theorem write_replicate (m : Mem) (a n : Nat) (v : UInt8) :
    m.write a (List.replicate n v) = m.fill a n v := by
  funext x
  by_cases hx : a ≤ x ∧ x < a + n
  · rw [write_in _ hx.1 (by rw [List.length_replicate]; exact hx.2), fill_in _ _ hx.1 hx.2,
      List.getD_eq_getElem?_getD, List.getElem?_replicate, if_pos (by omega), Option.getD_some]
  · rw [write_out _ (by rw [List.length_replicate]; omega), fill_out _ _ (by omega)]

/-- A byte of the result depends on that byte only. -/
theorem store_congr {m m' : Mem} {x : Nat} (w a v : Nat) (h : m x = m' x) :
    m.store w a v x = m'.store w a v x := by
  unfold store write
  rw [h]

theorem store_out (m : Mem) {w a x : Nat} (v : Nat) (h : x < a ∨ a + w ≤ x) :
    m.store w a v x = m x := write_out m (by simpa using h)

theorem writeArr_out (m : Mem) {w base : Nat} {f : Nat → List UInt8} (hf : ∀ i, (f i).length = w)
    (n : Nat) {x : Nat} (h : x < base ∨ base + w * n ≤ x) : m.writeArr w base f n x = m x := by
  induction n with
  | zero => rfl
  | succ n ih =>
    have hn : w * (n + 1) = w * n + w := Nat.mul_succ w n
    have hl := hf n
    rw [writeArr, write_out _ (by omega), ih (by omega)]

theorem storeArr_out (m : Mem) (w base : Nat) (f : Nat → Nat) (n : Nat) {x : Nat}
    (h : x < base ∨ base + w * n ≤ x) : m.storeArr w base f n x = m x := by
  induction n with
  | zero => rfl
  | succ n ih =>
    have hn : w * (n + 1) = w * n + w := Nat.mul_succ w n
    rw [storeArr, store_out _ _ (by omega), ih (by omega)]

theorem write_append (m : Mem) (a : Nat) (bs cs : List UInt8) :
    (m.write a bs).write (a + bs.length) cs = m.write a (bs ++ cs) := by
  funext x
  rcases Nat.lt_or_ge x (a + bs.length) with h | h
  · rw [write_out _ (Or.inl h)]
    by_cases ha : a ≤ x
    · rw [write_in _ ha h, write_in _ ha (by rw [List.length_append]; omega)]
      simp [List.getD_eq_getElem?_getD, List.getElem?_append_left (show x - a < bs.length by omega)]
    · rw [write_out _ (by omega), write_out _ (by omega)]
  · by_cases hc : x < a + bs.length + cs.length
    · rw [write_in _ h hc, write_in _ (by omega) (by rw [List.length_append]; omega)]
      simp only [List.getD_eq_getElem?_getD]
      rw [List.getElem?_append_right (by omega)]
      congr 2
      omega
    · rw [write_out _ (by omega), write_out _ (by omega),
        write_out _ (by rw [List.length_append]; omega)]

@[simp] theorem read_length (m : Mem) (a n : Nat) : (m.read a n).length = n := by simp [read]

theorem read_congr {m m' : Mem} {a n : Nat} (h : ∀ x, a ≤ x → x < a + n → m' x = m x) :
    m'.read a n = m.read a n := by
  apply List.map_congr_left
  intro i hi
  exact h (a + i) (by omega) (by have := List.mem_range.1 hi; omega)

theorem read_succ (m : Mem) (a n : Nat) : m.read a (n + 1) = m.read a n ++ [m (a + n)] := by
  rw [read, List.range_succ, List.map_append]
  rfl

theorem read_add (m : Mem) (a n k : Nat) : m.read a (n + k) = m.read a n ++ m.read (a + n) k := by
  simp only [read, List.range_add, List.map_append, List.map_map]
  congr 1
  exact List.map_congr_left fun i _ => congrArg m (Nat.add_assoc a n i).symm

theorem read_write (m : Mem) (a : Nat) (bs : List UInt8) :
    (m.write a bs).read a bs.length = bs := by
  apply List.ext_getElem
  · simp
  · intro i h1 h2
    simp only [read, List.getElem_map, List.getElem_range]
    exact write_add m h2

/-- Writes to different places commute. -/
theorem write_comm (m : Mem) {a b : Nat} {bs cs : List UInt8}
    (h : a + bs.length ≤ b ∨ b + cs.length ≤ a) :
    (m.write a bs).write b cs = (m.write b cs).write a bs := by
  funext x
  by_cases hb : b ≤ x ∧ x < b + cs.length
  · rw [write_in _ hb.1 hb.2, write_out _ (by omega), write_in _ hb.1 hb.2]
  · rw [write_out _ (by omega)]
    by_cases ha : a ≤ x ∧ x < a + bs.length
    · rw [write_in _ ha.1 ha.2, write_in _ ha.1 ha.2]
    · rw [write_out _ (by omega), write_out _ (by omega), write_out _ (by omega)]

/-- Writes one after the other. -/
def writeAll (m : Mem) (ws : List (Nat × List UInt8)) : Mem :=
  ws.foldl (fun m w => m.write w.1 w.2) m

def Apart (u v : Nat × List UInt8) : Prop := u.1 + u.2.length ≤ v.1 ∨ v.1 + v.2.length ≤ u.1

theorem writeAll_out (m : Mem) {ws : List (Nat × List UInt8)} {x : Nat}
    (h : ∀ w ∈ ws, x < w.1 ∨ w.1 + w.2.length ≤ x) : m.writeAll ws x = m x := by
  induction ws generalizing m with
  | nil => rfl
  | cons w ws ih =>
    show (m.write w.1 w.2).writeAll ws x = m x
    rw [ih _ fun u hu => h u (List.mem_cons_of_mem w hu), write_out m (h w List.mem_cons_self)]

/-- Of writes to different places, each is read back. -/
theorem read_writeAll (m : Mem) {ws : List (Nat × List UInt8)} (hp : ws.Pairwise Apart)
    {w : Nat × List UInt8} (hw : w ∈ ws) : (m.writeAll ws).read w.1 w.2.length = w.2 := by
  induction ws generalizing m with
  | nil => exact absurd hw (by simp)
  | cons u ws ih =>
    obtain ⟨hu, hp⟩ := List.pairwise_cons.1 hp
    show ((m.write u.1 u.2).writeAll ws).read w.1 w.2.length = w.2
    rcases List.mem_cons.1 hw with rfl | hmem
    · have hkeep : ((m.write w.1 w.2).writeAll ws).read w.1 w.2.length =
          (m.write w.1 w.2).read w.1 w.2.length :=
        read_congr fun x h1 h2 => writeAll_out _ fun v hv => by
          have hap := hu v hv
          unfold Apart at hap
          omega
      rw [hkeep, read_write]
    · exact ih _ hp hmem

/-- A copied block, byte by byte. -/
theorem write_read (m n : Mem) {a b k x : Nat} (h1 : a ≤ x) (h2 : x < a + k) :
    m.write (b + a) (n.read a k) (b + x) = n x := by
  have hx : b + x - (b + a) = x - a := by omega
  have hx' : a + (x - a) = x := by omega
  rw [write_in _ (by omega) (by rw [read_length]; omega), hx]
  simp [read, List.getD_eq_getElem?_getD, show x - a < k by omega, hx']

theorem read_eq_iff {m : Mem} {a : Nat} {bs : List UInt8} :
    m.read a bs.length = bs ↔ ∀ j (hj : j < bs.length), m (a + j) = bs[j] := by
  constructor
  · intro h j hj
    have := congrArg (fun l => l[j]?) h
    simpa [read, hj] using this
  · intro h
    apply List.ext_getElem
    · simp
    · intro j h1 h2
      simp only [read, List.getElem_map, List.getElem_range]
      exact h j h2

/-- Two blocks, at `a` and at `b`, hold the same bytes where they overlap. -/
def Agree (a : Nat) (bs : List UInt8) (b : Nat) (cs : List UInt8) : Prop :=
  ∀ x, a ≤ x → x < a + bs.length → b ≤ x → x < b + cs.length → bs.getD (x - a) 0 = cs.getD (x - b) 0

theorem agree_of_disjoint {a b : Nat} {bs cs : List UInt8}
    (h : a + bs.length ≤ b ∨ b + cs.length ≤ a) : Agree a bs b cs := by
  intro x h1 h2 h3 h4
  omega

/-- A block that is in memory survives a write exactly when it agrees with it. -/
theorem read_write_iff {m : Mem} {a b : Nat} {bs cs : List UInt8} (h : m.read a bs.length = bs) :
    (m.write b cs).read a bs.length = bs ↔ Agree a bs b cs := by
  rw [read_eq_iff] at h ⊢
  constructor
  · intro hw x h1 h2 h3 h4
    have := hw (x - a) (by omega)
    rw [Nat.add_sub_cancel' h1, write_in m h3 h4] at this
    rw [this, List.getD_eq_getElem?_getD, List.getElem?_eq_getElem (by omega), Option.getD_some]
  · intro hag j hj
    by_cases hin : b ≤ a + j ∧ a + j < b + cs.length
    · have := hag (a + j) (by omega) (by omega) hin.1 hin.2
      rw [Nat.add_sub_cancel_left, List.getD_eq_getElem?_getD, List.getElem?_eq_getElem hj,
        Option.getD_some] at this
      rw [write_in m hin.1 hin.2, ← this]
    · rw [write_out m (by omega)]
      exact h j hj

/-! ## Strings that end with a zero -/

/-- The string found at `a`: the bytes up to the first zero. -/
structure CStringAt (m : Mem) (a : Nat) (bs : List UInt8) : Prop where
  read : m.read a bs.length = bs
  noNul : 0 ∉ bs
  stop : m (a + bs.length) = 0

theorem cStringAt_nil (m : Mem) (a : Nat) : CStringAt m a [] ↔ m a = 0 :=
  ⟨fun h => h.stop, fun h => ⟨rfl, List.not_mem_nil, h⟩⟩

theorem cStringAt_cons (m : Mem) (a : Nat) (c : UInt8) (s : List UInt8) :
    CStringAt m a (c :: s) ↔ m a = c ∧ c ≠ 0 ∧ CStringAt m (a + 1) s := by
  have hread : m.read a (s.length + 1) = m a :: m.read (a + 1) s.length := by
    rw [Nat.add_comm, read_add]
    rfl
  have hstop : a + (c :: s).length = a + 1 + s.length := by
    rw [List.length_cons]
    omega
  constructor
  · rintro ⟨h1, h2, h3⟩
    rw [List.length_cons, hread, List.cons.injEq] at h1
    obtain ⟨hc, hs⟩ := not_or.1 (mt List.mem_cons.2 h2)
    exact ⟨h1.1, Ne.symm hc, h1.2, hs, hstop ▸ h3⟩
  · rintro ⟨hc, hne, h⟩
    refine ⟨?_, fun h0 => ?_, hstop ▸ h.stop⟩
    · rw [List.length_cons, hread, hc, h.read]
    · rcases List.mem_cons.1 h0 with h0 | h0
      · exact hne h0.symm
      · exact h.noNul h0

/-- The byte at the address of a string. -/
theorem CStringAt.head {m : Mem} {a : Nat} {bs : List UInt8} (h : CStringAt m a bs) :
    m a = bs.headD 0 := by
  cases bs with
  | nil => exact (cStringAt_nil m a).1 h
  | cons c bs => exact ((cStringAt_cons m a c bs).1 h).1

theorem CStringAt.drop {m : Mem} {a : Nat} {bs cs : List UInt8} (h : CStringAt m a (bs ++ cs)) :
    CStringAt m (a + bs.length) cs := by
  induction bs generalizing a with
  | nil => exact h
  | cons b bs ih =>
    have hrest := ih ((cStringAt_cons m a b _).1 h).2.2
    rwa [Nat.add_right_comm] at hrest

theorem cStringAt_write (m : Mem) (a : Nat) {bs : List UInt8} (h : 0 ∉ bs) :
    CStringAt (m.write a (bs ++ [0])) a bs := by
  refine ⟨?_, h, ?_⟩
  · rw [← write_append, read_congr fun x h1 h2 => write_out _ (Or.inl h2), read_write]
  · rw [write_add m (show bs.length < (bs ++ [0]).length by simp)]
    simp

theorem CStringAt.congr {m m' : Mem} {a : Nat} {bs : List UInt8} (h : CStringAt m a bs)
    (hm : ∀ x, a ≤ x → x ≤ a + bs.length → m' x = m x) : CStringAt m' a bs :=
  ⟨(read_congr fun x h1 h2 => hm x h1 (Nat.le_of_lt h2)).trans h.read, h.noNul,
    (hm _ (Nat.le_add_right _ _) (Nat.le_refl _)).trans h.stop⟩

/-! ## Words -/

theorem load_lt (m : Mem) (w a : Nat) : m.load w a < 256 ^ w := by
  have := leVal_lt (m.read a w)
  rwa [read_length] at this

/-- A word with another byte on top. -/
theorem load_succ (m : Mem) (w a : Nat) :
    m.load (w + 1) a = m.load w a + 256 ^ w * (m (a + w)).toNat := by
  rw [load, read_succ, leVal_append, read_length]
  rfl

theorem load_congr {m m' : Mem} {w a : Nat} (h : ∀ x, a ≤ x → x < a + w → m' x = m x) :
    m'.load w a = m.load w a := by
  unfold load
  rw [read_congr h]

/-- The same bytes at two places are the same word. -/
theorem load_shift {m n : Mem} {w a b : Nat} (h : ∀ i, i < w → m (a + i) = n (b + i)) :
    m.load w a = n.load w b := by
  unfold load read
  congr 1
  exact List.map_congr_left fun i hi => h i (List.mem_range.1 hi)

/-- A byte of a word, from the word. -/
theorem byte_of_load (m : Mem) {w a x : Nat} (h1 : a ≤ x) (h2 : x < a + w) :
    m x = (leBytes w (m.load w a)).getD (x - a) 0 := by
  have h := leBytes_leVal (m.read a w)
  rw [read_length] at h
  rw [load, h]
  have hx : a + (x - a) = x := by omega
  simp [read, List.getD_eq_getElem?_getD, show x - a < w by omega, hx]

theorem load_store (m : Mem) (w a v : Nat) : (m.store w a v).load w a = v % 256 ^ w := by
  have h := read_write m a (leBytes w v)
  rw [leBytes_length] at h
  rw [load, store, h, leVal_leBytes]

theorem load_store_of_lt (m : Mem) {w v : Nat} (a : Nat) (hv : v < 256 ^ w) :
    (m.store w a v).load w a = v := by
  rw [load_store, Nat.mod_eq_of_lt hv]

theorem load_store_out (m : Mem) {w a w' b : Nat} (v : Nat) (h : b + w' ≤ a ∨ a + w ≤ b) :
    (m.store w a v).load w' b = m.load w' b :=
  load_congr fun _ _ _ => store_out m v (by omega)

/-- Byte `i` of a word that was stored. -/
theorem store_byte (m : Mem) {w a i : Nat} (v : Nat) (hi : i < w) :
    m.store w a v (a + i) = UInt8.ofNat (v / 256 ^ i) := by
  have hlen : i < (leBytes w v).length := by rwa [leBytes_length]
  rw [store, write_add m hlen, leBytes_getElem]

theorem store_one (m : Mem) (a v : Nat) : m.store 1 a v a = UInt8.ofNat v := by
  have h := store_byte (w := 1) (a := a) m v Nat.one_pos
  rwa [Nat.add_zero, Nat.pow_zero, Nat.div_one] at h

theorem load_two (m : Mem) (a : Nat) : m.load 2 a = (m a).toNat + 256 * (m (a + 1)).toNat := rfl

theorem load_fill_zero (m : Mem) {a n w b : Nat} (h1 : a ≤ b) (h2 : b + w ≤ a + n) :
    (m.fill a n 0).load w b = 0 := by
  have hr : (m.fill a n 0).read b w = List.replicate w 0 := by
    apply List.ext_getElem
    · simp
    · intro i hi _
      rw [read_length] at hi
      simp only [read, List.getElem_map, List.getElem_range, List.getElem_replicate]
      exact fill_in m 0 (by omega) (by omega)
  rw [load, hr, leVal_replicate_zero]

theorem load_storeArr (m : Mem) (w base : Nat) (f : Nat → Nat) {n i : Nat} (hi : i < n) :
    (m.storeArr w base f n).load w (base + w * i) = f i % 256 ^ w := by
  induction n with
  | zero => omega
  | succ n ih =>
    rw [storeArr]
    rcases Nat.lt_succ_iff_lt_or_eq.1 hi with hlt | rfl
    · have : w * (i + 1) ≤ w * n := Nat.mul_le_mul_left w hlt
      rw [load_store_out _ _ (by rw [Nat.mul_succ] at this; omega), ih hlt]
    · exact load_store _ w _ _

theorem load_storeArr_out (m : Mem) (w base : Nat) (f : Nat → Nat) (n : Nat) {w' b : Nat}
    (h : b + w' ≤ base ∨ base + w * n ≤ b) :
    (m.storeArr w base f n).load w' b = m.load w' b :=
  load_congr fun _ _ _ => storeArr_out m w base f n (by omega)

end Mem

end MiniKvm
