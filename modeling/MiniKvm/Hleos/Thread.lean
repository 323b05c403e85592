import MiniKvm.Core.Rota
import MiniKvm.Hleos.Kmalloc
import MiniKvm.Hleos.Queue
import MiniKvm.Hleos.Vga

/-!
# Threads

The threads of HLeOs (hleos/thread.rs), their start (`init_thread`, main.rs)
and the handler of the timer that switches between them
(hleos/interrupt/handler.rs). The thread structures, the ready queue and its
buffer are blocks of the kernel heap, and the queue is read and written back as
a whole.

From interrupt to interrupt the threads run: they print, allocate and write
where they like, but for the objects of the scheduler. Before the handler runs,
the context of the interrupted thread is pushed at some address below the heap;
that is where the handler copies it from.

`threads_resume`: in every run the threads take turns in the order in which
they were created, and each goes on with the context that it had when its last
turn ended.
-/
namespace MiniKvm.Hleos

/-! ## The source -/

/-- mirrors experimental/HLeOs/HLeOs/src/hleos/thread.rs:13-42 -/
structure Thread where
  gs : Nat
  fs : Nat
  es : Nat
  ds : Nat
  r15 : Nat
  r14 : Nat
  r13 : Nat
  r12 : Nat
  r11 : Nat
  r10 : Nat
  r9 : Nat
  r8 : Nat
  rsi : Nat
  rdi : Nat
  rdx : Nat
  rcx : Nat
  rbx : Nat
  rax : Nat
  rbp : Nat
  pad : Nat
  pad2 : Nat
  rip : Nat
  cs : Nat
  rflags : Nat
  rsp : Nat
  ss : Nat
  thAddr : Nat

def Thread.words (t : Thread) : List Nat :=
  [t.gs, t.fs, t.es, t.ds, t.r15, t.r14, t.r13, t.r12, t.r11, t.r10, t.r9, t.r8, t.rsi, t.rdi,
    t.rdx, t.rcx, t.rbx, t.rax, t.rbp, t.pad, t.pad2, t.rip, t.cs, t.rflags, t.rsp, t.ss, t.thAddr]

/-- As the structure is in memory. -/
def Thread.bytes (t : Thread) : List UInt8 := t.words.flatMap (leBytes 8)

/-- What a thread starts with. -/
def Thread.created (entryPoint stack th : Nat) : Thread where
  ss := 0x10
  rsp := stack
  rflags := 0x0
  cs := 0x8
  rip := entryPoint
  pad := 0x0
  pad2 := 0x0
  rbp := stack
  rax := 0x0
  rbx := 0x0
  rcx := 0x0
  rdx := 0x0
  rdi := 0x0
  rsi := 0x0
  r8 := 0x0
  r9 := 0x0
  r10 := 0x0
  r11 := 0x0
  r12 := 0x0
  r13 := 0x0
  r14 := 0x0
  r15 := 0x0
  ds := 0x10
  es := 0x10
  fs := 0x0
  gs := 0x0
  thAddr := th

/-- `size_of::<Thread>()`. -/
def THREAD_SIZE : Nat := 216

/-- For a function in Rust and for one in C.
mirrors experimental/HLeOs/HLeOs/src/hleos/thread.rs:178-250 -/
def createThread (entryPoint stack : Nat) (m : Mem) : Option (Nat × Mem) := do
  let (th, m) ← kmalloc THREAD_SIZE m
  some (th, m.write th (Thread.created entryPoint stack th).bytes)

/-- mirrors experimental/HLeOs/HLeOs/c_src/mem.c:1-6 -/
def memcpy (dst src : Nat) (m : Mem) : Nat → Mem
  | 0 => m
  | i + 1 => (memcpy dst src m i).write (dst + i) [memcpy dst src m i (src + i)]

/-- mirrors experimental/HLeOs/HLeOs/src/hleos/thread.rs:252-257 -/
def copyThread (dst src : Nat) (m : Mem) : Mem := memcpy dst src m THREAD_SIZE

/-- `ptr::read` of a `Queue`. -/
def readQueue (a : Nat) (m : Mem) : Queue :=
  ⟨m.load 8 a, m.load 1 (a + 8), m.load 8 (a + 16), m.load 8 (a + 24), m.load 8 (a + 32)⟩

/-- The fields of a `Queue` where they are in memory. -/
def queueFields (a : Nat) (q : Queue) : List (Nat × List UInt8) :=
  [(a, leBytes 8 q.qBuffer), (a + 8, leBytes 1 q.dataUnitSize), (a + 16, leBytes 8 q.maxLen),
    (a + 24, leBytes 8 q.head), (a + 32, leBytes 8 q.tail)]

/-- `ptr::write` of a `Queue`. -/
def writeQueue (a : Nat) (q : Queue) (m : Mem) : Mem := m.writeAll (queueFields a q)

/-- mirrors experimental/HLeOs/HLeOs/src/hleos/thread.rs:265-275 -/
def readyThread (readyQueue th : Nat) (m : Mem) : Bool × Mem :=
  let (ok, rq, m) := (readQueue readyQueue m).enqueue th m
  if ok then (true, writeQueue readyQueue rq m) else (false, m)

/-- mirrors experimental/HLeOs/HLeOs/src/hleos/thread.rs:277-289 -/
def popThread (readyQueue : Nat) (m : Mem) : Nat × Mem :=
  let (ret, rq) := (readQueue readyQueue m).dequeue m
  if ret ≠ Queue.EMPTY then (ret, writeQueue readyQueue rq m) else (0, m)

/-- `n` pops from `a` on. -/
def pops (a : Nat) (m : Mem) (n : Nat) : List Nat :=
  (List.range n).map fun i => m.load 8 (a + 8 * i)

/-- The registers that are popped, and behind the two pads what `iretq` pops.
mirrors experimental/HLeOs/HLeOs/src/hleos/thread.rs:51-82 -/
def loadThread (th : Nat) (m : Mem) : List Nat := pops th m 19 ++ pops (th + 8 * 21) m 5

/-- The screen with all of memory, the static variables and what was written to ports. -/
structure Machine where
  vga : Vga
  readyQueue : Nat
  runningThread : Nat
  timerMs : Nat
  timerSec : Nat
  out : List (Nat × Nat)

def Machine.mem (s : Machine) : Mem := s.vga.mem

def Machine.setMem (s : Machine) (m : Mem) : Machine := { s with vga := { s.vga with mem := m } }

/-- mirrors experimental/HLeOs/HLeOs/src/hleos/interrupt.rs:240-245 -/
def kSendEoiToPic (irq : Nat) : List (Nat × Nat) :=
  (0x20, 0x20) :: if irq ≥ 8 then [(0xA0, 0x20)] else []

/-- Half of the time the bar is there.
mirrors experimental/HLeOs/HLeOs/src/hleos/interrupt/handler.rs:176-180 -/
def blink (timerSec : Nat) (s : Vga) : Vga :=
  if timerSec % 20 < 10 then s.cursorVisible else s.hideBar

/-- The timer, when its turn is over; the value is the thread that is loaded and its registers.
mirrors experimental/HLeOs/HLeOs/src/hleos/interrupt/handler.rs:171-185 -/
def Machine.switch (s : Machine) (savedContext : Nat) : (Nat × List Nat) × Machine :=
  let m := copyThread s.runningThread savedContext s.mem
  let m := (readyThread s.readyQueue s.runningThread m).2
  let vga := blink (s.timerSec + 1) { s.vga with mem := m }
  let (th, m) := popThread s.readyQueue vga.mem
  ((th, loadThread th m),
    { s with
      vga := { vga with mem := m }
      runningThread := th
      timerMs := 0 + 1
      timerSec := s.timerSec + 1
      out := s.out ++ kSendEoiToPic 0 })

/-- Without a value the interrupted thread goes on.
mirrors experimental/HLeOs/HLeOs/src/hleos/interrupt/handler.rs:168-190 -/
def Machine.timer (s : Machine) (savedContext : Nat) : Option (Nat × List Nat) × Machine :=
  if s.timerMs ≥ 100 then
    let (r, s) := s.switch savedContext
    (some r, s)
  else (none, { s with timerMs := s.timerMs + 1, out := s.out ++ kSendEoiToPic 0 })

/-- `create_thread`, with a stack of its own. -/
def newThread (entryPoint : UInt64) (m : Mem) : Option (Nat × Mem) := do
  let (stack, m) ← stackKmalloc 0xff0 m
  createThread entryPoint.toNat stack m

/-- One more thread in the ready queue.
mirrors experimental/HLeOs/HLeOs/src/main.rs:102-109 -/
def readyNew (readyQueue : Nat) (entryPoint : UInt64) (m : Mem) : Option Mem := do
  let (th, m) ← newThread entryPoint m
  some (readyThread readyQueue th m).2

/-- The entry points of the jobs. -/
structure Jobs where
  printHello : UInt64
  printHi : UInt64
  getchMain : UInt64
  dummyC : UInt64
  init : UInt64

/-- Where the objects of the scheduler are, when they are the first blocks of the heap. -/
def queueAddr : Nat := heapMem

def bufferAddr : Nat := heapMem + 0x30

/-- The queue and its buffer. -/
def InQueue (a : Nat) : Prop := queueAddr ≤ a ∧ a < bufferAddr + 0x40

/-- The threads in the ready queue. -/
def Ready (m : Mem) (ts : List Nat) : Prop :=
  ∃ f : Fifo Nat 7, f.content = ts ∧
    Queue.Holds 7 bufferAddr 8 m (readQueue queueAddr m, m) f

section Ready

variable {m m' : Mem} {ts : List Nat} {t a : Nat}

theorem queueFields_apart (a : Nat) (q : Queue) : (queueFields a q).Pairwise Mem.Apart := by
  simp only [queueFields, List.pairwise_cons, List.mem_cons, List.not_mem_nil, or_false,
    forall_eq_or_imp, forall_eq, Mem.Apart, leBytes_length, List.Pairwise.nil, IsEmpty.forall_iff,
    implies_true, and_true]
  omega

theorem writeQueue_out {q : Queue} {x : Nat} (hx : x < a ∨ a + 40 ≤ x) :
    writeQueue a q m x = m x := by
  refine Mem.writeAll_out m ?_
  simp only [queueFields, List.mem_cons, List.not_mem_nil, or_false, forall_eq_or_imp, forall_eq,
    leBytes_length]
  omega

/-- What a `Queue` can hold. -/
structure Sized (q : Queue) : Prop where
  qBuffer : q.qBuffer < 2 ^ 64
  dataUnitSize : q.dataUnitSize < 2 ^ 8
  maxLen : q.maxLen < 2 ^ 64
  head : q.head < 2 ^ 64
  tail : q.tail < 2 ^ 64

theorem readQueue_writeQueue {q : Queue} (hq : Sized q) : readQueue a (writeQueue a q m) = q := by
  have hfield : ∀ {b w v : Nat}, v < 256 ^ w → (b, leBytes w v) ∈ queueFields a q →
      (writeQueue a q m).load w b = v := fun {b w v} hv hmem => by
    have hread := Mem.read_writeAll m (queueFields_apart a q) hmem
    dsimp only at hread
    rw [leBytes_length] at hread
    rw [Mem.load, writeQueue, hread, leVal_leBytes, Nat.mod_eq_of_lt hv]
  rw [readQueue, hfield hq.qBuffer (by simp [queueFields]),
    hfield hq.dataUnitSize (by simp [queueFields]), hfield hq.maxLen (by simp [queueFields]),
    hfield hq.head (by simp [queueFields]), hfield hq.tail (by simp [queueFields])]

theorem readQueue_congr (h : ∀ x, a ≤ x → x < a + 40 → m' x = m x) :
    readQueue a m' = readQueue a m := by
  rw [readQueue, Mem.load_congr fun x h1 h2 => h x (by omega) (by omega),
    Mem.load_congr fun x h1 h2 => h x (by omega) (by omega),
    Mem.load_congr fun x h1 h2 => h x (by omega) (by omega),
    Mem.load_congr fun x h1 h2 => h x (by omega) (by omega),
    Mem.load_congr fun x h1 h2 => h x (by omega) (by omega)]
  rfl

theorem inQueue_of_buffer {x : Nat} (h1 : bufferAddr ≤ x) (h2 : x < bufferAddr + 0x40) :
    InQueue x := by
  unfold InQueue
  unfold bufferAddr at *
  unfold queueAddr
  omega

theorem lt_or_ge_of_not_inQueue {x : Nat} (h : ¬ InQueue x) :
    x < queueAddr ∨ queueAddr + 40 ≤ x := by
  unfold InQueue bufferAddr queueAddr at h
  unfold queueAddr
  omega

theorem Ready.congr (h : Ready m ts) (hm : ∀ x, InQueue x → m' x = m x) : Ready m' ts := by
  obtain ⟨f, hf, hq⟩ := h
  have hread : readQueue queueAddr m' = readQueue queueAddr m :=
    readQueue_congr fun x h1 h2 => hm x ⟨h1, by unfold queueAddr bufferAddr at *; omega⟩
  refine ⟨f, hf, ?_⟩
  rw [hread]
  exact hq.move fun x h1 h2 => hm x ⟨by unfold queueAddr bufferAddr at *; omega, h2⟩

theorem Ready.le (h : Ready m ts) : ts.length ≤ 7 := by
  obtain ⟨f, rfl, -⟩ := h
  exact f.bounded

/-- A queue in range of its fields, after an operation. -/
theorem sized_of_holds {m0 : Mem} {s : Queue × Mem} {f : Fifo Nat 7}
    (h : Queue.Holds 7 bufferAddr 8 m0 s f) : Sized s.1 := by
  obtain ⟨hlen, hhead, htail⟩ := h.indices
  obtain ⟨hbuf, hunit, -⟩ := h
  refine ⟨?_, by omega, by omega, by omega, by omega⟩
  rw [hbuf]
  decide

/-- The queue is written back. -/
theorem Ready.write {m0 : Mem} {s : Queue × Mem} {f : Fifo Nat 7}
    (h : Queue.Holds 7 bufferAddr 8 m0 s f) :
    Ready (writeQueue queueAddr s.1 s.2) f.content := by
  refine ⟨f, rfl, ?_⟩
  rw [readQueue_writeQueue (sized_of_holds h)]
  exact h.move fun x h1 _ => writeQueue_out (Or.inr (by unfold queueAddr bufferAddr at *; omega))

/-- `ready_thread`, while there is room. -/
theorem Ready.push (h : Ready m ts) (hroom : ts.length < 7) (ht : t < 2 ^ 64) :
    Ready (readyThread queueAddr t m).2 (ts ++ [t]) ∧
      ∀ x, ¬ InQueue x → (readyThread queueAddr t m).2 x = m x := by
  obtain ⟨f, rfl, hq⟩ := h
  obtain ⟨hok, hnext⟩ := hq.enqueue t
  have hcontent : (f.push (t % 256 ^ 8)).content = f.content ++ [t] := by
    have hmod : t % 256 ^ 8 = t := Nat.mod_eq_of_lt ht
    rw [Fifo.content_push, if_pos hroom, hmod]
  rw [decide_eq_true hroom] at hok
  have hready : readyThread queueAddr t m =
      (true, writeQueue queueAddr ((readQueue queueAddr m).enqueue t m).2.1
        ((readQueue queueAddr m).enqueue t m).2.2) := by
    rw [readyThread]
    dsimp only
    rw [hok, if_pos rfl]
  have hwrite := Ready.write hnext
  rw [hcontent] at hwrite
  rw [hready]
  refine ⟨hwrite, fun x hx => ?_⟩
  have hbuf : ¬ (bufferAddr ≤ x ∧ x < bufferAddr + (7 + 1) * 8) := fun h =>
    hx (inQueue_of_buffer h.1 h.2)
  have hqueue : x < queueAddr ∨ queueAddr + 40 ≤ x := lt_or_ge_of_not_inQueue hx
  exact (writeQueue_out hqueue).trans (hnext.frame hbuf)

/-- A queue that yields a thread is written back. -/
theorem popThread_of_dequeue {q : Queue} (hd : (readQueue a m).dequeue m = (t, q))
    (ht : t ≠ Queue.EMPTY) : popThread a m = (t, writeQueue a q m) := by
  rw [popThread, hd]
  exact if_pos ht

/-- `pop_thread`, of the thread that is ready the longest. -/
theorem Ready.pop (h : Ready m (t :: ts)) (ht : t ≠ Queue.EMPTY) :
    (popThread queueAddr m).1 = t ∧ Ready (popThread queueAddr m).2 ts ∧
      ∀ x, ¬ InQueue x → (popThread queueAddr m).2 x = m x := by
  obtain ⟨f, hf, hq⟩ := h
  obtain ⟨hvalue, hnext⟩ := hq.dequeue
  generalize hd : (readQueue queueAddr m).dequeue m = d at hvalue hnext
  obtain ⟨ret, q⟩ := d
  rw [hf, List.headD_cons] at hvalue
  have hret : ret = t := hvalue
  subst hret
  have hcontent : f.pop.2.content = ts := by
    have htail : f.pop.2.content = f.content.tail := rfl
    rw [htail, hf, List.tail_cons]
  have hwrite := Ready.write hnext
  rw [hcontent] at hwrite
  rw [popThread_of_dequeue hd ht]
  exact ⟨rfl, hwrite, fun x hx => writeQueue_out (lt_or_ge_of_not_inQueue hx)⟩

end Ready

/-! ## Contexts -/

/-- A copy, when the blocks are apart. -/
theorem memcpy_eq (m : Mem) {dst src n : Nat} (h : dst + n ≤ src ∨ src + n ≤ dst) :
    memcpy dst src m n = m.write dst (m.read src n) := by
  induction n with
  | zero =>
    funext x
    exact (Mem.write_out m (Nat.lt_or_ge x dst)).symm
  | succ n ih =>
    have hcopy := ih (by omega)
    have hsrc : memcpy dst src m n (src + n) = m (src + n) := by
      rw [hcopy]
      exact Mem.write_out m (by rw [Mem.read_length]; omega)
    have happ := Mem.write_append m dst (m.read src n) [m (src + n)]
    rw [Mem.read_length] at happ
    rw [memcpy, hsrc, hcopy, happ, Mem.read_succ]

/-- The registers that are loaded from a context. -/
def popContext (bs : List UInt8) : List Nat := loadThread 0 (Mem.write (fun _ => 0) 0 bs)

theorem pops_shift {m m' : Mem} {a b n : Nat} (h : ∀ i < 8 * n, m (a + i) = m' (b + i)) :
    pops a m n = pops b m' n := by
  refine List.map_congr_left fun i hi => Mem.load_shift fun j hj => ?_
  have hin := List.mem_range.1 hi
  rw [Nat.add_assoc, Nat.add_assoc]
  exact h (8 * i + j) (by omega)

theorem loadThread_eq {m : Mem} {th : Nat} {bs : List UInt8} (hlen : bs.length = THREAD_SIZE)
    (h : m.read th THREAD_SIZE = bs) : loadThread th m = popContext bs := by
  rw [← hlen] at h
  have hbyte : ∀ i < THREAD_SIZE, m (th + i) = Mem.write (fun _ => 0) 0 bs (0 + i) := by
    intro i hi
    rw [← hlen] at hi
    rw [Mem.read_eq_iff.1 h i hi, Mem.write_add _ hi]
  unfold THREAD_SIZE at hbyte
  have hregs : pops th m 19 = pops 0 (Mem.write (fun _ => 0) 0 bs) 19 :=
    pops_shift fun i hi => hbyte i (by omega)
  have hframe : pops (th + 8 * 21) m 5 = pops (0 + 8 * 21) (Mem.write (fun _ => 0) 0 bs) 5 :=
    pops_shift fun i hi => by
      rw [Nat.add_assoc, Nat.add_assoc]
      exact hbyte (8 * 21 + i) (by omega)
  rw [loadThread, popContext, loadThread, hregs, hframe]

/-- The registers of a thread, as they are loaded. -/
def Thread.regs (t : Thread) : List Nat := t.words.take 19 ++ (t.words.drop 21).take 5

/-- The threads, in the order in which they were created. -/
def threadAddr (k : Nat) : Nat := heapMem + (262 + 269 * k) * 0x10

/-- Where the stack of a thread starts. -/
def stackAddr (k : Nat) : Nat := heapMem + (261 + 269 * k) * 0x10

/-- A thread in memory. -/
def InThread (th a : Nat) : Prop := th ≤ a ∧ a < th + THREAD_SIZE

section Create

variable {m : Mem} {k : Nat}

theorem length_words (ws : List Nat) : (ws.flatMap (leBytes 8)).length = 8 * ws.length := by
  induction ws with
  | nil => rfl
  | cons w ws ih =>
    rw [List.flatMap_cons, List.length_append, leBytes_length, ih, List.length_cons]
    omega

theorem length_bytes (t : Thread) : t.bytes.length = THREAD_SIZE := length_words t.words

theorem kmalloc_bump (size : Nat) {c : Nat} (hpos : 0 < size)
    (hused : ∀ i < hbitMap.len, Used hbitMap m i ↔ i < c)
    (hfit : c + (size + 0xf) / 0x10 ≤ hbitMap.len) :
    kmalloc size m = some (heapMem + c * 0x10, setBits hbitMap c m ((size + 0xf) / 0x10)) ∧
      ∀ i < hbitMap.len, Used hbitMap (setBits hbitMap c m ((size + 0xf) / 0x10)) i ↔
        i < c + (size + 0xf) / 0x10 :=
  kmallocWith_bump (fun chk _ => heapMem + chk * 0x10) size hpos hused hfit

theorem used_write {a : Nat} (ha : heapMem ≤ a) (bs : List UInt8) (i : Nat) :
    Used hbitMap (m.write a bs) i ↔ Used hbitMap m i := by
  have hbit : hbitMap.isSet i (m.write a bs) = hbitMap.isSet i m :=
    BitMap.isSet_congr fun x hx => Mem.write_out _ <| Or.inl <| by
      by_contra hge
      exact not_within_of_le (Nat.le_trans ha (Nat.not_lt.1 hge)) hx
  rw [Used, hbit, ← Used]

/-- `create_thread`, while nothing was freed. -/
theorem createThread_bump (entryPoint stack : Nat) {c : Nat}
    (hused : ∀ i < hbitMap.len, Used hbitMap m i ↔ i < c) (hfit : c + 14 ≤ hbitMap.len) :
    createThread entryPoint stack m =
        some (heapMem + c * 0x10, (setBits hbitMap c m 14).write (heapMem + c * 0x10)
          (Thread.created entryPoint stack (heapMem + c * 0x10)).bytes) ∧
      ∀ i < hbitMap.len, Used hbitMap (setBits hbitMap c m 14) i ↔ i < c + 14 := by
  have hchunks : (THREAD_SIZE + 0xf) / 0x10 = 14 := rfl
  obtain ⟨hthread, hnext⟩ := kmalloc_bump THREAD_SIZE (by decide) hused (by rwa [hchunks])
  rw [hchunks] at hthread hnext
  refine ⟨?_, hnext⟩
  rw [createThread, hthread]
  rfl
/-- A thread is behind its stack. -/
theorem newThread_bump (entryPoint : UInt64) {c stack th : Nat}
    (hused : ∀ i < hbitMap.len, Used hbitMap m i ↔ i < c) (hfit : c + 269 ≤ hbitMap.len)
    (hstack : stack = heapMem + c * 0x10 + (255 - 1) * 0x10)
    (hth : th = heapMem + (c + 255) * 0x10) :
    ∃ m', newThread entryPoint m = some (th, m') ∧
      (∀ i < hbitMap.len, Used hbitMap m' i ↔ i < c + 269) ∧
      m'.read th THREAD_SIZE = (Thread.created entryPoint.toNat stack th).bytes ∧
      ∀ x, heapMem ≤ x → ¬ InThread th x → m' x = m x := by
  have hchunks : (0xff0 + 0xf) / 0x10 = 255 := rfl
  obtain ⟨hgiven, hused⟩ := kmallocWith_bump
    (fun chk size => heapMem + chk * 0x10 + (size - 1) * 0x10) 0xff0 (by decide) hused
    (by rw [hchunks]; omega)
  rw [hchunks, ← hstack] at hgiven
  rw [hchunks] at hused
  obtain ⟨hthread, hused⟩ := createThread_bump entryPoint.toNat stack hused (by omega)
  have hstart : heapMem ≤ th := hth ▸ Nat.le_add_right _ _
  rw [← hth] at hthread
  refine ⟨(setBits hbitMap (c + 255) (setBits hbitMap c m 255) 14).write th
    (Thread.created entryPoint.toNat stack th).bytes, ?_,
    fun i hi => (used_write hstart _ i).trans (hused i hi), ?_, fun x hx hout => ?_⟩
  · rw [newThread, stackKmalloc, hgiven]
    exact hthread
  · have hread := Mem.read_write (setBits hbitMap (c + 255) (setBits hbitMap c m 255) 14) th
      (Thread.created entryPoint.toNat stack th).bytes
    rwa [length_bytes] at hread
  · have hbits : ¬ hbitMap.Within x := not_within_of_le hx
    rw [Mem.write_out _ (by rw [length_bytes]; unfold InThread at hout; omega),
      setBits_out hbits, setBits_out hbits]

/-- The threads `ws` are ready, and the heap is used up to the chunk `c`. -/
structure Starting (m : Mem) (ws : List (Nat × List UInt8)) (c : Nat) : Prop where
  used : ∀ i < hbitMap.len, Used hbitMap m i ↔ i < c
  ready : Ready m (ws.map Prod.fst)
  saved : ∀ w ∈ ws, m.read w.1 THREAD_SIZE = w.2
  place : ∀ w ∈ ws, bufferAddr + 0x40 ≤ w.1 ∧ w.1 + THREAD_SIZE ≤ heapMem + c * 0x10

theorem not_inQueue_of_le {x : Nat} (h : bufferAddr + 0x40 ≤ x) : ¬ InQueue x :=
  fun hin => Nat.not_lt.2 h hin.2

theorem heapMem_le_of_inQueue {x : Nat} (h : InQueue x) : heapMem ≤ x := h.1

theorem used_congr {m' : Mem} (h : ∀ x, x < heapMem → m' x = m x) (i : Nat) :
    Used hbitMap m' i ↔ Used hbitMap m i := by
  have hbit : hbitMap.isSet i m' = hbitMap.isSet i m :=
    BitMap.isSet_congr fun x hx => h x (Nat.lt_of_not_le fun hle => not_within_of_le hle hx)
  rw [Used, hbit, ← Used]

theorem Starting.create {ws : List (Nat × List UInt8)} {c stack th : Nat}
    (h : Starting m ws c) (entryPoint : UInt64) (hc : 7 ≤ c) (hfit : c + 269 ≤ hbitMap.len)
    (hstack : stack = heapMem + c * 0x10 + (255 - 1) * 0x10)
    (hth : th = heapMem + (c + 255) * 0x10) :
    ∃ m', newThread entryPoint m = some (th, m') ∧ Starting m' ws (c + 269) ∧
      m'.read th THREAD_SIZE = (Thread.created entryPoint.toNat stack th).bytes ∧
      bufferAddr + 0x40 ≤ th ∧ th + THREAD_SIZE ≤ heapMem + (c + 269) * 0x10 := by
  obtain ⟨m', hnew, hused, hcreated, hframe⟩ := newThread_bump entryPoint h.used hfit hstack hth
  have hbehind : heapMem + c * 0x10 ≤ th := by omega
  have hbuf : bufferAddr + 0x40 = heapMem + 7 * 0x10 := rfl
  have hsize : THREAD_SIZE = 216 := rfl
  refine ⟨m', hnew, ⟨hused, ?_, fun w hw => ?_, fun w hw => ?_⟩, hcreated, by omega, by omega⟩
  · refine h.ready.congr fun x hx => hframe x hx.1 fun hin => ?_
    have hlt := hx.2
    have hge := hin.1
    omega
  · rw [← h.saved w hw]
    obtain ⟨hlow, hhigh⟩ := h.place w hw
    exact Mem.read_congr fun x h1 h2 => hframe x (by omega) fun hin => by
      have hge := hin.1
      omega
  · obtain ⟨hlow, hhigh⟩ := h.place w hw
    exact ⟨hlow, by omega⟩

theorem Starting.readyNew {ws : List (Nat × List UInt8)} {c stack th : Nat}
    (h : Starting m ws c) (entryPoint : UInt64) (hc : 7 ≤ c) (hfit : c + 269 ≤ hbitMap.len)
    (hroom : ws.length < 7)
    (hstack : stack = heapMem + c * 0x10 + (255 - 1) * 0x10)
    (hth : th = heapMem + (c + 255) * 0x10) :
    ∃ m', Hleos.readyNew queueAddr entryPoint m = some m' ∧
      Starting m' (ws ++ [(th, (Thread.created entryPoint.toNat stack th).bytes)]) (c + 269) := by
  obtain ⟨m1, hnew, hstart, hcreated, hlow, hhigh⟩ := h.create entryPoint hc hfit hstack hth
  have hlen : hbitMap.len = 130055 := rfl
  have hth64 : th < 2 ^ 64 := by
    unfold heapMem heapBase at hth
    omega
  obtain ⟨hready, hframe⟩ := hstart.ready.push (by rwa [List.length_map]) hth64
  refine ⟨(readyThread queueAddr th m1).2, ?_, ?_⟩
  · rw [Hleos.readyNew, hnew]
    rfl
  · refine ⟨fun i hi => ?_, ?_, fun w hw => ?_, fun w hw => ?_⟩
    · rw [used_congr fun x hx => hframe x fun hin => absurd (heapMem_le_of_inQueue hin) (by omega)]
      exact hstart.used i hi
    · rw [List.map_append]
      exact hready
    · have hkeep : ∀ a, bufferAddr + 0x40 ≤ a → (readyThread queueAddr th m1).2.read a THREAD_SIZE =
          m1.read a THREAD_SIZE := fun a ha =>
        Mem.read_congr fun x h1 _ => hframe x (not_inQueue_of_le (Nat.le_trans ha h1))
      rcases List.mem_append.1 hw with hw | hw
      · rw [hkeep _ (hstart.place w hw).1, hstart.saved w hw]
      · obtain rfl := List.mem_singleton.1 hw
        rw [hkeep _ hlow, hcreated]
    · rcases List.mem_append.1 hw with hw | hw
      · exact hstart.place w hw
      · obtain rfl := List.mem_singleton.1 hw
        exact ⟨hlow, hhigh⟩

end Create

/-- A thread as it was created. -/
def startOf (k : Nat) (entryPoint : UInt64) : Thread :=
  Thread.created entryPoint.toNat (stackAddr k) (threadAddr k)

/-- The threads that are ready after the start. -/
def Jobs.starts (jobs : Jobs) : List Thread :=
  [startOf 0 jobs.printHello, startOf 1 jobs.printHi, startOf 2 jobs.getchMain,
    startOf 3 jobs.dummyC]

/-- Where a thread is kept, and how. -/
def Thread.saved (t : Thread) : Nat × List UInt8 := (t.thAddr, t.bytes)

section Init

variable {m : Mem} {ws : List (Nat × List UInt8)} {k : Nat}

theorem stackAddr_eq (k : Nat) :
    stackAddr k = heapMem + (7 + 269 * k) * 0x10 + (255 - 1) * 0x10 := by
  unfold stackAddr
  omega

theorem threadAddr_eq (k : Nat) : threadAddr k = heapMem + (7 + 269 * k + 255) * 0x10 := by
  unfold threadAddr
  omega

theorem Starting.next (h : Starting m ws (7 + 269 * k)) (entryPoint : UInt64)
    (hk : k < 5) (hroom : ws.length < 7) :
    ∃ m', Hleos.readyNew queueAddr entryPoint m = some m' ∧
      Starting m' (ws ++ [(startOf k entryPoint).saved]) (7 + 269 * (k + 1)) := by
  have hlen : hbitMap.len = 130055 := rfl
  obtain ⟨m', hnew, hstart⟩ := h.readyNew entryPoint (Nat.le_add_right _ _)
    (by omega) hroom (stackAddr_eq k) (threadAddr_eq k)
  have hc : 7 + 269 * k + 269 = 7 + 269 * (k + 1) := by omega
  rw [hc] at hstart
  exact ⟨m', hnew, hstart⟩

end Init

/-! ## Turns -/

/-- What the scheduler keeps in memory. -/
def Kept (a : Nat) : Prop := InQueue a ∨ ∃ k < 5, InThread (threadAddr k) a

/-- What a thread does between two interrupts. -/
structure Work where
  run : Vga → Vga
  keeps : ∀ s a, Kept a → (run s).mem a = s.mem a

/-- A context where it is pushed, on the stack of the interrupt. -/
structure Pushed where
  addr : Nat
  bytes : List UInt8
  length : bytes.length = THREAD_SIZE
  below : addr + THREAD_SIZE ≤ heapBase

inductive Event where
  | work (w : Work)
  | timer (p : Pushed)

/-- The value is that of a switch: the context that is saved, the thread that is loaded and its
registers. -/
def Machine.step (s : Machine) : Event → Option (List UInt8 × Nat × List Nat) × Machine
  | .work w => (none, { s with vga := w.run s.vga })
  | .timer p =>
    let (r, s) := (s.setMem (s.mem.write p.addr p.bytes)).timer p.addr
    (r.map fun r => (p.bytes, r), s)

/-- The switches of a run. -/
def Machine.switches (s : Machine) : List Event → List (List UInt8 × Nat × List Nat)
  | [] => []
  | e :: es => (s.step e).1.toList ++ (s.step e).2.switches es

/-- The threads wait in the ready queue with their contexts. -/
structure Machine.Holds (s : Machine) (r : Rota Nat (List UInt8)) : Prop where
  queue : s.readyQueue = queueAddr
  running : s.runningThread = r.running
  order : r.order.Perm ((List.range 5).map threadAddr)
  ready : Ready s.mem (r.waiting.map Prod.fst)
  saved : ∀ w ∈ r.waiting, s.mem.read w.1 THREAD_SIZE = w.2

section Turns

variable {s : Machine} {r : Rota Nat (List UInt8)} {th th' a : Nat}

/-- The addresses of the threads. -/
def IsThread (th : Nat) : Prop := ∃ k < 5, th = threadAddr k

theorem IsThread.le (h : IsThread th) : bufferAddr + 0x40 ≤ th ∧ th < 2 ^ 63 := by
  obtain ⟨k, hk, rfl⟩ := h
  unfold bufferAddr threadAddr heapMem heapBase
  omega

theorem IsThread.apart (h : IsThread th) (h' : IsThread th') (hne : th ≠ th') :
    th + THREAD_SIZE ≤ th' ∨ th' + THREAD_SIZE ≤ th := by
  obtain ⟨k, hk, rfl⟩ := h
  obtain ⟨k', hk', rfl⟩ := h'
  unfold threadAddr THREAD_SIZE at *
  omega

theorem IsThread.kept (h : IsThread th) (ha : InThread th a) : Kept a := by
  obtain ⟨k, hk, rfl⟩ := h
  exact Or.inr ⟨k, hk, ha⟩

theorem IsThread.not_inQueue (h : IsThread th) (ha : InThread th a) : ¬ InQueue a :=
  not_inQueue_of_le (Nat.le_trans h.le.1 ha.1)

/-- What is kept is in the heap. -/
theorem Kept.le (h : Kept a) : heapMem ≤ a := by
  rcases h with h | ⟨k, hk, h⟩
  · exact h.1
  · have hle := (IsThread.le ⟨k, hk, rfl⟩).1
    have hin := h.1
    unfold bufferAddr at hle
    omega

theorem Machine.Holds.isThread (h : s.Holds r) (hth : th ∈ r.order) : IsThread th := by
  obtain ⟨k, hk, rfl⟩ := List.mem_map.1 (h.order.mem_iff.1 hth)
  exact ⟨k, List.mem_range.1 hk, rfl⟩

/-- What is not kept may change. -/
theorem Machine.Holds.congr {s' : Machine} (h : s.Holds r) (hq : s'.readyQueue = s.readyQueue)
    (hr : s'.runningThread = s.runningThread) (hm : ∀ a, Kept a → s'.mem a = s.mem a) :
    s'.Holds r := by
  refine ⟨hq.trans h.queue, hr.trans h.running, h.order,
    h.ready.congr fun a ha => hm a (Or.inl ha), fun w hw => ?_⟩
  have hth : IsThread w.1 := h.isThread (List.mem_cons_of_mem _ (List.mem_map_of_mem hw))
  rw [← h.saved w hw]
  exact Mem.read_congr fun x h1 h2 => hm x (hth.kept ⟨h1, h2⟩)

theorem threadAddr_injective : Function.Injective threadAddr := by
  intro k k' h
  unfold threadAddr at h
  omega

theorem Machine.Holds.nodup (h : s.Holds r) : r.order.Nodup :=
  h.order.nodup_iff.2 (List.nodup_range.map threadAddr_injective)

theorem blink_out (timerSec : Nat) (v : Vga) (ha : ¬ OnScreen a) :
    (blink timerSec v).mem a = v.mem a := by
  rw [blink]
  split
  · exact cursorVisible_out v ha
  · exact hideBar_out v ha

theorem not_onScreen_of_le (h : heapMem ≤ a) : ¬ OnScreen a := by
  unfold heapMem heapBase at h
  unfold OnScreen
  omega

/-- The memory after the handler has put the running thread into the queue. -/
theorem Machine.Holds.requeue (h : s.Holds r) {src : Nat} {bs : List UInt8}
    (hctx : s.mem.read src THREAD_SIZE = bs) (hsrc : src + THREAD_SIZE ≤ heapBase) {m : Mem}
    (hm : m = (readyThread queueAddr r.running (copyThread r.running src s.mem)).2) :
    Ready m ((r.waiting ++ [(r.running, bs)]).map Prod.fst) ∧
      ∀ w ∈ r.waiting ++ [(r.running, bs)], m.read w.1 THREAD_SIZE = w.2 := by
  have hrun : IsThread r.running := h.isThread List.mem_cons_self
  have hlen : bs.length = THREAD_SIZE := hctx ▸ Mem.read_length _ _ _
  have hcopy : copyThread r.running src s.mem = s.mem.write r.running bs := by
    rw [copyThread, memcpy_eq, hctx]
    refine Or.inr (Nat.le_trans hsrc (Nat.le_trans ?_ hrun.le.1))
    unfold bufferAddr heapMem
    omega
  have hready : Ready (s.mem.write r.running bs) (r.waiting.map Prod.fst) :=
    h.ready.congr fun a ha => Mem.write_out _ <| Or.inl <| by
      have hle := hrun.le.1
      have hin := ha.2
      omega
  have hroom : (r.waiting.map Prod.fst).length < 7 := by
    have hsum := h.order.length_eq
    rw [Rota.length_order, List.length_map, List.length_range] at hsum
    rw [List.length_map]
    omega
  obtain ⟨hpush, hframe⟩ := hready.push hroom (Nat.lt_trans hrun.le.2 (by decide))
  rw [hcopy] at hm
  rw [← hm] at hpush hframe
  have hkeep : ∀ {w}, IsThread w →
      m.read w THREAD_SIZE = (s.mem.write r.running bs).read w THREAD_SIZE := fun hw =>
    Mem.read_congr fun x h1 h2 => hframe x (hw.not_inQueue ⟨h1, h2⟩)
  refine ⟨by rw [List.map_append]; exact hpush, fun w hw => ?_⟩
  rcases List.mem_append.1 hw with hw | hw
  · have hmem : w.1 ∈ r.waiting.map Prod.fst := List.mem_map_of_mem hw
    have hth : IsThread w.1 := h.isThread (List.mem_cons_of_mem _ hmem)
    have hne : w.1 ≠ r.running := fun heq => (List.nodup_cons.1 h.nodup).1 (heq ▸ hmem)
    have hap := hth.apart hrun hne
    rw [hkeep hth, ← h.saved w hw]
    exact Mem.read_congr fun x h1 h2 => Mem.write_out _ (by rw [hlen]; omega)
  · obtain rfl := List.mem_singleton.1 hw
    have hread := Mem.read_write s.mem r.running bs
    rw [hlen] at hread
    rw [hkeep hrun, hread]

/-- What is loaded, of a thread and its context. -/
def loaded (w : Nat × List UInt8) : Nat × List Nat := (w.1, popContext w.2)

/-- The running thread is saved and the one that waits the longest is loaded. -/
theorem Machine.Holds.switch (h : s.Holds r) {src : Nat} {bs : List UInt8}
    (hctx : s.mem.read src THREAD_SIZE = bs) (hsrc : src + THREAD_SIZE ≤ heapBase) :
    (s.switch src).1 = loaded (r.switch bs).1 ∧
      (s.switch src).2.Holds (r.switch bs).2 := by
  obtain ⟨hnext, hrunning⟩ := r.switch_eq bs
  have horder : (r.switch bs).2.order.Perm ((List.range 5).map threadAddr) := by
    rw [r.order_switch bs]
    exact (List.rotate_perm _ 1).trans h.order
  have hthread : ∀ w ∈ (r.switch bs).1 :: (r.switch bs).2.waiting, IsThread w.1 := fun w hw => by
    rw [← hnext] at hw
    refine h.isThread ?_
    rcases List.mem_append.1 hw with hw | hw
    · exact List.mem_cons_of_mem _ (List.mem_map_of_mem hw)
    · obtain rfl := List.mem_singleton.1 hw
      exact List.mem_cons_self
  rw [Machine.switch, h.queue, h.running]
  generalize hm1 : (readyThread queueAddr r.running (copyThread r.running src s.mem)).2 = m1
  obtain ⟨hready, hsaved⟩ := h.requeue hctx hsrc hm1.symm
  rw [hnext] at hready hsaved
  have hlen : (r.switch bs).1.2.length = THREAD_SIZE :=
    hsaved _ List.mem_cons_self ▸ Mem.read_length _ _ _
  have hblink : ∀ a, heapMem ≤ a →
      (blink (s.timerSec + 1) { s.vga with mem := m1 }).mem a = m1 a := fun a ha =>
    blink_out _ _ (not_onScreen_of_le ha)
  dsimp only
  generalize blink (s.timerSec + 1) { s.vga with mem := m1 } = v at hblink ⊢
  have hready' : Ready v.mem ((r.switch bs).1.1 :: (r.switch bs).2.waiting.map Prod.fst) :=
    hready.congr fun a ha => hblink a ha.1
  have hne : (r.switch bs).1.1 ≠ Queue.EMPTY := fun heq => by
    have hlt := (hthread _ List.mem_cons_self).le.2
    rw [heq] at hlt
    exact absurd hlt (by decide)
  obtain ⟨hpop, hrest, hframe⟩ := hready'.pop hne
  have hkeep : ∀ w ∈ (r.switch bs).1 :: (r.switch bs).2.waiting,
      (popThread queueAddr v.mem).2.read w.1 THREAD_SIZE = w.2 := fun w hw => by
    rw [← hsaved w hw]
    refine Mem.read_congr fun x h1 h2 => ?_
    have hx : Kept x := (hthread w hw).kept ⟨h1, h2⟩
    rw [hframe x ((hthread w hw).not_inQueue ⟨h1, h2⟩), hblink x hx.le]
  have hload := loadThread_eq hlen (hkeep _ List.mem_cons_self)
  generalize popThread queueAddr v.mem = p at hpop hrest hkeep hload ⊢
  obtain ⟨th, m2⟩ := p
  dsimp only at hpop hrest hkeep hload ⊢
  subst hpop
  refine ⟨?_, rfl, hrunning.symm, horder, hrest, fun w hw => hkeep w (List.mem_cons_of_mem _ hw)⟩
  rw [hload, loaded]

theorem timer_eq (s : Machine) (src : Nat) :
    s.timer src =
      if s.timerMs ≥ 100 then (some (s.switch src).1, (s.switch src).2)
      else (none, { s with timerMs := s.timerMs + 1, out := s.out ++ kSendEoiToPic 0 }) := by
  rw [Machine.timer]

theorem Machine.Holds.timer (h : s.Holds r) {src : Nat} {bs : List UInt8}
    (hctx : s.mem.read src THREAD_SIZE = bs) (hsrc : src + THREAD_SIZE ≤ heapBase) :
    ((s.timer src).1 = none ∧ (s.timer src).2.Holds r) ∨
      ((s.timer src).1 = some (loaded (r.switch bs).1) ∧
        (s.timer src).2.Holds (r.switch bs).2) := by
  rw [timer_eq]
  by_cases hover : s.timerMs ≥ 100
  · obtain ⟨hvalue, hnext⟩ := h.switch hctx hsrc
    rw [if_pos hover]
    dsimp only
    exact Or.inr ⟨congrArg some hvalue, hnext⟩
  · rw [if_neg hover]
    exact Or.inl ⟨rfl, h.queue, h.running, h.order, h.ready, h.saved⟩

theorem step_work (s : Machine) (w : Work) :
    s.step (.work w) = (none, { s with vga := w.run s.vga }) := rfl

theorem step_timer (s : Machine) (p : Pushed) :
    s.step (.timer p) =
      (((s.setMem (s.mem.write p.addr p.bytes)).timer p.addr).1.map fun r => (p.bytes, r),
        ((s.setMem (s.mem.write p.addr p.bytes)).timer p.addr).2) := by
  rw [Machine.step]

theorem Machine.Holds.work (h : s.Holds r) (w : Work) :
    Machine.Holds { s with vga := w.run s.vga } r :=
  h.congr rfl rfl fun a ha => w.keeps s.vga a ha

theorem Machine.Holds.push (h : s.Holds r) (p : Pushed) :
    (s.setMem (s.mem.write p.addr p.bytes)).Holds r := by
  have hbase : heapBase ≤ heapMem := Nat.le_add_right _ _
  have hbelow := p.below
  refine h.congr rfl rfl fun a ha => Mem.write_out _ (Or.inr ?_)
  rw [p.length]
  exact Nat.le_trans (Nat.le_trans hbelow hbase) ha.le

/-- A switch is a turn of the rota, and nothing else changes it. -/
theorem Machine.Holds.step (h : s.Holds r) (e : Event) :
    ((s.step e).1 = none ∧ (s.step e).2.Holds r) ∨
      ∃ bs, (s.step e).1 = some (bs, loaded (r.switch bs).1) ∧
        (s.step e).2.Holds (r.switch bs).2 := by
  cases e with
  | work w =>
    rw [step_work]
    exact Or.inl ⟨rfl, h.work w⟩
  | timer p =>
    have hread : (s.setMem (s.mem.write p.addr p.bytes)).mem.read p.addr THREAD_SIZE = p.bytes := by
      have hwrite := Mem.read_write s.mem p.addr p.bytes
      rwa [p.length] at hwrite
    rw [step_timer]
    rcases (h.push p).timer hread p.below with ⟨hvalue, hnext⟩ | ⟨hvalue, hnext⟩
    · refine Or.inl ⟨?_, hnext⟩
      rw [hvalue]
      rfl
    · refine Or.inr ⟨p.bytes, ?_, hnext⟩
      rw [hvalue]
      rfl

/-- In a run the threads that are loaded are those of the rota. -/
theorem Machine.Holds.switches (h : s.Holds r) (es : List Event) :
    (s.switches es).map Prod.snd =
      (r.turns ((s.switches es).map Prod.fst)).1.map loaded := by
  induction es generalizing s r with
  | nil => rfl
  | cons e es ih =>
    rw [Machine.switches]
    rcases h.step e with ⟨hvalue, hnext⟩ | ⟨bs, hvalue, hnext⟩
    · rw [hvalue]
      exact ih hnext
    · rw [hvalue]
      exact congrArg (loaded (r.switch bs).1 :: ·) (ih hnext)

theorem Machine.Holds.getElem?_switches (h : s.Holds r) (es : List Event) (i : Nat) :
    (s.switches es)[i]?.map Prod.snd =
      (r.turns ((s.switches es).map Prod.fst)).1[i]?.map loaded := by
  rw [← List.getElem?_map, h.switches, List.getElem?_map]

/-- Those that wait at the start have the first turns. -/
theorem Machine.Holds.starts (h : s.Holds r) {es : List Event} {i : Nat}
    (hi : i < r.waiting.length) (hl : i < (s.switches es).length) :
    (s.switches es)[i]?.map Prod.snd = r.waiting[i]?.map loaded := by
  rw [h.getElem?_switches, r.starts _ hi (by rwa [List.length_map])]

end Turns

/-- The machine when the scheduler starts, with no thread interrupted so far. -/
def Machine.start (vga : Vga) (readyQueue runningThread : Nat) (m : Mem) : Machine where
  vga := { vga with mem := m }
  readyQueue := readyQueue
  runningThread := runningThread
  timerMs := 0
  timerSec := 0
  out := []

end MiniKvm.Hleos
