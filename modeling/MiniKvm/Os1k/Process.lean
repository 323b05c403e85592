import MiniKvm.Os1k.Kernel

/-!
# Creating a process

`create_process` takes a slot, pushes the initial frame, and builds a page
directory from freshly allocated pages. `Building` is what holds while it is
built: which entries and which leaves are set, that its tables are different
pages of the memory handed out since, and that memory below is as it was.
Each loop keeps it.

With free memory starting at `n`, the pages come in a fixed order: the
directory `n`, the tables of the two kernel regions `n + 0x1000` and
`n + 0x2000`, the first user page `n + 0x3000`, its table `n + 0x4000`, and
the other user pages behind.
-/
namespace MiniKvm.Os1k

open Paging

/-! ## The source -/

/-- `&proc->stack[sizeof(proc->stack)]`. -/
def stackTop (l : Layout) (i : Fin PROCS_MAX) : Nat :=
  l.procs + PROC_SIZE * i + STACK_OFF + STACK_SIZE

/-- `*--sp = v`. -/
def pushWord (v : Nat) (p : Mem × Nat) : Mem × Nat := (store32 p.1 (p.2 - 4) v, p.2 - 4)

@[simp] theorem pushWord_snd (v : Nat) (p : Mem × Nat) : (pushWord v p).2 = p.2 - 4 := rfl

/-- Memory with the initial frame at the top of the stack, and `sp`.
mirrors kvm-vmm-x86/os-1k/kernel.c:322-328 -/
def pushInitialFrame (l : Layout) (i : Fin PROCS_MAX) (m : Mem) : Mem × Nat :=
  let p := pushWord 0 (m, stackTop l i)
  let p := pushWord 0 p
  let p := pushWord 0 p
  let p := pushWord 0 p
  pushWord l.userEntry p

/-- Pages of `PAGE_SIZE` that `n` bytes take. -/
def pagesOf (n : Nat) : Nat := (n + PAGE_SIZE - 1) / PAGE_SIZE

/-- 4 MiB from virtual `base` on, to physical 0.
mirrors kvm-vmm-x86/os-1k/kernel.c:340-343 and 346-348 -/
def mapKernelRegion (pageTable base : Nat) : EStateM Unit Os Unit :=
  loop (fun k => mapPage pageTable (base + k * PAGE_SIZE) (base + k * PAGE_SIZE - base) PAGE_RW)
    1024

/-- mirrors kvm-vmm-x86/os-1k/kernel.c:351-359 -/
def mapImagePage (pageTable : Nat) (image : List UInt8) (k : Nat) : EStateM Unit Os Unit := do
  let off := k * PAGE_SIZE
  let pageVaddr ← allocPages 1
  updMem fun m => m.write (phys pageVaddr) ((image.drop off).take PAGE_SIZE)
  mapPage pageTable (USER_BASE + off) (pageVaddr - KERNEL_BASE) (PAGE_U ||| PAGE_RW)

/-- mirrors kvm-vmm-x86/os-1k/kernel.c:367-371 -/
def mapStackPage (pageTable codeEnd k : Nat) : EStateM Unit Os Unit := do
  let pageVaddr ← allocPages 1
  mapPage pageTable (codeEnd + k * PAGE_SIZE) (pageVaddr - KERNEL_BASE) (PAGE_U ||| PAGE_RW)

/-- mirrors kvm-vmm-x86/os-1k/kernel.c:311-317 -/
def findUnused (procs : Fin PROCS_MAX → Process) : Option (Fin PROCS_MAX) :=
  (List.finRange PROCS_MAX).find? fun i => (procs i).state = .unused

/-- `image` is the constant array the process is loaded from; the result is the slot.
mirrors kvm-vmm-x86/os-1k/kernel.c:307-380 -/
def createProcess (l : Layout) (image : List UInt8) : EStateM Unit Os (Fin PROCS_MAX) := do
  let s ← get
  match findUnused s.procs with
  | none => throw ()
  | some i => do
    let sp := (pushInitialFrame l i s.mem).2
    updMem fun m => (pushInitialFrame l i m).1
    let pageTable ← allocPages 1
    mapKernelRegion pageTable KERNEL_BASE
    mapKernelRegion pageTable 0
    loop (mapImagePage pageTable image) (pagesOf image.length)
    let codeEnd := USER_BASE + pagesOf image.length * PAGE_SIZE
    loop (mapStackPage pageTable codeEnd) (pagesOf (USER_STACK_TOP - codeEnd))
    modify fun s => { s with
      procs := Function.update s.procs i
        { pid := i + 1, state := .runnable, sp, pageTable := pageTable - KERNEL_BASE } }
    pure i

/-- Calls of `create_process`, one after the other. -/
def createAll (l : Layout) : List (List UInt8) → EStateM Unit Os Unit
  | [] => pure ()
  | image :: images => do
    let _ ← createProcess l image
    createAll l images

/-! ## Pushing words -/

def pushWords (vs : List Nat) (p : Mem × Nat) : Mem × Nat := vs.foldl (fun p v => pushWord v p) p

theorem pushWords_snd (vs : List Nat) (p : Mem × Nat) :
    (pushWords vs p).2 = p.2 - 4 * vs.length := by
  induction vs generalizing p with
  | nil => rfl
  | cons v vs ih =>
    show (pushWords vs (pushWord v p)).2 = _
    rw [ih, pushWord_snd, List.length_cons]
    omega

/-- Words pushed are all that changes. -/
theorem pushWords_out (vs : List Nat) (p : Mem × Nat) {x : Nat}
    (hp : KERNEL_BASE + 4 * vs.length ≤ p.2)
    (hx : x + KERNEL_BASE < p.2 - 4 * vs.length ∨ p.2 ≤ x + KERNEL_BASE) :
    (pushWords vs p).1 x = p.1 x := by
  induction vs generalizing p with
  | nil => rfl
  | cons v vs ih =>
    rw [List.length_cons] at hp hx
    show (pushWords vs (pushWord v p)).1 x = _
    have hle : KERNEL_BASE ≤ p.2 - 4 := by omega
    rw [ih (pushWord v p) (by rw [pushWord_snd]; omega) (by rw [pushWord_snd]; omega)]
    refine Mem.store_out _ _ ?_
    rw [phys, if_pos hle]
    omega

theorem load32_congr {m m' : Mem} {v : Nat} (hv : KERNEL_BASE ≤ v)
    (h : ∀ x, v ≤ x + KERNEL_BASE → x + KERNEL_BASE < v + 4 → m' x = m x) :
    load32 m' v = load32 m v := by
  unfold load32
  rw [phys, if_pos hv]
  exact Mem.load_congr fun x h1 h2 => h x (by omega) (by omega)

/-- Word `i` of those pushed. -/
theorem load32_pushWords (vs : List Nat) (p : Mem × Nat) (hp : KERNEL_BASE + 4 * vs.length ≤ p.2)
    {i : Nat}
    (hi : i < vs.length) : load32 (pushWords vs p).1 (p.2 - 4 * (i + 1)) = vs[i] % 2 ^ 32 := by
  induction vs generalizing p i with
  | nil => exact absurd hi (Nat.not_lt_zero i)
  | cons v vs ih =>
    rw [List.length_cons] at hp hi
    show load32 (pushWords vs (pushWord v p)).1 _ = _
    cases i with
    | zero =>
      rw [load32_congr (m := (pushWord v p).1) (by omega)]
      · exact Mem.load_store _ _ _ _
      · intro x h1 h2
        exact pushWords_out _ _ (by rw [pushWord_snd]; omega) (by rw [pushWord_snd]; omega)
    | succ i =>
      have hstep := ih (pushWord v p) (by rw [pushWord_snd]; omega) (show i < vs.length by omega)
      rw [pushWord_snd, Nat.sub_sub, show 4 + 4 * (i + 1) = 4 * (i + 1 + 1) by omega] at hstep
      exact hstep

theorem pushInitialFrame_eq (l : Layout) (i : Fin PROCS_MAX) (m : Mem) :
    pushInitialFrame l i m = pushWords [0, 0, 0, 0, l.userEntry] (m, stackTop l i) := rfl

/-! ## A directory under construction -/

/-- The pages of `[n, hi)`, as `alloc_pages(1)` has returned them. -/
def pagesFrom (n hi : Nat) : List (Nat × Nat) :=
  (List.range ((hi - n) / 4096)).map fun k => (n + k * 4096 + KERNEL_BASE, 1)

theorem pagesFrom_append {a b c : Nat} (h1 : a ≤ b) (h2 : b ≤ c) (hb : (b - a) % 4096 = 0)
    (hc : (c - b) % 4096 = 0) :
    pagesFrom a b ++ pagesFrom b c = pagesFrom a c := by
  have hlen : (c - a) / 4096 = (b - a) / 4096 + (c - b) / 4096 := by omega
  unfold pagesFrom
  rw [hlen, List.range_add, List.map_append, List.map_map]
  congr 1
  refine List.map_congr_left fun k _ => ?_
  have hk : a + ((b - a) / 4096 + k) * 4096 = b + k * 4096 := by omega
  simp only [Function.comp_apply, hk]

theorem pagesFrom_succ {n hi : Nat} (h : n ≤ hi) (hmod : (hi - n) % 4096 = 0) :
    pagesFrom n hi ++ [(hi + KERNEL_BASE, 1)] = pagesFrom n (hi + 4096) := by
  rw [← pagesFrom_append h (Nat.le_add_right hi 4096) hmod (by omega)]
  congr 1
  have hone : (hi + 4096 - hi) / 4096 = 1 := by omega
  rw [pagesFrom, hone]
  simp

/-- The directory at `n` while it is built, `hi` being the next free page: its
entries are `E`, its leaves `P`, and below `n` memory is that of `s0`. -/
structure Building (n hi : Nat) (E P : Nat → Nat) (s0 s : Os) : Prop where
  next : s.nextPaddr = hi + KERNEL_BASE
  bound : hi ≤ RAM_END
  aligned : hi % 4096 = 0
  dir : Dir s.mem n hi n
  entry : ∀ i < 1024, entry32 s.mem n i = E i
  leaf : ∀ va < 2 ^ 32, leaf32 s.mem n va = P (va / 4096)
  low : ∀ x < n, s.mem x = s0.mem x
  allocated : s.allocated = s0.allocated ++ pagesFrom n hi
  procs : s.procs = s0.procs
  currentProc : s.currentProc = s0.currentProc
  idleProc : s.idleProc = s0.idleProc

section Build

variable {n hi : Nat} {E P : Nat → Nat} {s0 s : Os}

/-- What a call of `map_page` does to it. -/
theorem Building.mapPage_wp (b : Building n hi E P s0 s) {va pa flags : Nat} (hva : va < 2 ^ 32)
    (hva0 : va % 4096 = 0) (hpa : pa < 2 ^ 31) (hpa0 : pa % 4096 = 0) (hf : flags < 4096)
    {hi' : Nat} {E' P' : Nat → Nat}
    (hhi : hi' = if present (E (va / 2 ^ 22)) then hi else hi + 4096)
    (hE : ∀ i < 1024, E' i = if i = va / 2 ^ 22 ∧ ¬ present (E (va / 2 ^ 22)) then hi + 7 else E i)
    (hP : ∀ p, P' p = if p = va / 4096 then pa + (flags ||| 1) else P p) :
    wp (mapPage (n + KERNEL_BASE) va pa flags)
      (fun _ t => Building n hi' E' P' s0 t ∧ ∀ x < hi, ¬ Owns s.mem n x → t.mem x = s.mem x)
      (fun _ _ => RAM_END < hi') s := by
  have hb : hi + 7 < 2 ^ 32 := by
    have := b.bound
    simp only [RAM_END] at this
    omega
  have hidx : va / 2 ^ 22 < 1024 := by omega
  have hfl : flags ||| 1 < 4096 := Nat.or_lt_two_pow (n := 12) hf (by decide)
  have hend : tableEnd s.mem hi n (va / 2 ^ 22) = hi' := by rw [tableEnd, b.entry _ hidx, hhi]
  refine wp_mono (Os1k.mapPage_wp n va pa flags hi s b.next b.bound b.aligned hva hva0
    (by omega) hpa0 hf)
    (fun _ t h => ?_) fun _ _ h => hend ▸ h
  have hle := b.dir.le_hi
  have hal := b.aligned
  have hn := b.dir.aligned
  have hout : ∀ x < hi, ¬ Owns s.mem n x → t.mem x = s.mem x := fun x hx hown => by
    rw [h.mem]
    exact mapPte_out b.dir b.aligned hb hva hx hown
  refine ⟨⟨?_, ?_, ?_, ?_, fun i hi' => ?_, fun va' hva' => ?_, fun x hx => ?_, ?_,
    h.procs.trans b.procs,
    h.currentProc.trans b.currentProc, h.idleProc.trans b.idleProc⟩, hout⟩
  · rw [h.next, hend]
  · rw [← hend]
    exact h.bound
  · rw [hhi]
    split <;> omega
  · rw [h.mem, ← hend]
    exact b.dir.mapPte b.aligned hb hva
  · rw [h.mem, entry32_mapPte b.dir b.aligned hb hva hi', b.entry _ hidx, b.entry _ hi', hE i hi']
  · rw [h.mem, leaf32_mapPte b.dir b.aligned hb hva (by omega) hva', b.leaf va' hva', hP]
  · -- tables of this directory lie at `n` or above
    refine (hout x (by omega) ?_).trans (b.low x hx)
    rintro (hin | ⟨i, hi', hp, h1, -⟩)
    · omega
    · have := b.dir.table i hi' hp
      omega
  · rw [h.allocated, b.allocated, b.entry _ hidx, hhi, List.append_assoc]
    split
    · rw [List.append_nil]
    · rw [pagesFrom_succ (by omega) (by omega)]

/-- A region that has no table yet gets one, and its 1024 pages are mapped to
the first 4 MiB. -/
theorem Building.mapKernelRegion_wp (b : Building n hi E P s0 s) (idx : Nat) (hidx : idx < 1024)
    (hnew : ¬ present (E idx)) :
    wp (mapKernelRegion (n + KERNEL_BASE) (idx * 2 ^ 22))
      (fun _ t => Building n (hi + 4096) (fun i => if i = idx then hi + 7 else E i)
        (fun p => if p / 1024 = idx then p % 1024 * 4096 + 3 else P p) s0 t)
      (fun _ _ => RAM_END < hi + 4096) s := by
  let I : Nat → Os → Prop := fun k t =>
    Building n (if k = 0 then hi else hi + 4096) (fun i => if k ≠ 0 ∧ i = idx then hi + 7 else E i)
      (fun p => if p / 1024 = idx ∧ p % 1024 < k then p % 1024 * 4096 + 3 else P p) s0 t
  have hstart : I 0 s := by
    show Building n hi _ _ s0 s
    simpa using b
  have hpres := present_new b.aligned
  unfold mapKernelRegion
  refine wp_mono (wp_loop I (n := 1024) hstart fun k t hk ht => ?_) (fun _ t ht => ?_)
    fun _ _ h => h
  · have hva : (idx * 2 ^ 22 + k * PAGE_SIZE) / 2 ^ 22 = idx := by
      simp only [PAGE_SIZE]
      omega
    have hpa : idx * 2 ^ 22 + k * PAGE_SIZE - idx * 2 ^ 22 = k * 4096 := by
      rw [Nat.add_sub_cancel_left]
      rfl
    rw [hpa]
    refine wp_mono (ht.mapPage_wp (by simp only [PAGE_SIZE]; omega)
      (by simp only [PAGE_SIZE]; omega) (by omega)
      (by omega) (by decide) ?_ (fun i _ => ?_) fun p => ?_) (fun _ _ h => h.1) fun _ _ h => h
    · rw [hva]
      by_cases h0 : k = 0
      · simp [h0, hnew]
      · simp [h0, hpres]
    · rw [hva]
      by_cases h0 : k = 0
      · simp [h0, hnew]
      · simp [h0, hpres]
    · have hflag : PAGE_RW ||| 1 = 3 := rfl
      have hpage : (idx * 2 ^ 22 + k * PAGE_SIZE) / 4096 = idx * 1024 + k := by
        simp only [PAGE_SIZE]
        omega
      rw [hflag, hpage]
      by_cases hp : p = idx * 1024 + k
      · rw [if_pos hp, if_pos (by omega)]
        omega
      · rw [if_neg hp]
        by_cases hlt : p / 1024 = idx ∧ p % 1024 < k
        · rw [if_pos hlt, if_pos (by omega)]
        · rw [if_neg hlt, if_neg (by omega)]
  · have hfull : ∀ p, p % 1024 < 1024 := fun p => Nat.mod_lt _ (by decide)
    simpa [I, hfull] using ht

theorem Building.cast (b : Building n hi E P s0 s) {hi' : Nat} {E' P' : Nat → Nat} (hhi : hi = hi')
    (hE : ∀ i < 1024, E i = E' i) (hP : ∀ p, P p = P' p) : Building n hi' E' P' s0 s := by
  subst hhi
  exact ⟨b.next, b.bound, b.aligned, b.dir, fun i hi => (b.entry i hi).trans (hE i hi),
    fun va hva => (b.leaf va hva).trans (hP _), b.low, b.allocated, b.procs, b.currentProc,
      b.idleProc⟩

/-- A page taken and written leaves the directory as it is. -/
theorem Building.takePage (b : Building n hi E P s0 s) (hend : hi + 4096 ≤ RAM_END)
    (bs : List UInt8) :
    Building n (hi + 4096) E P s0
      { s.afterAlloc hi with mem := (s.afterAlloc hi).mem.write hi bs } ∧
      ∀ x < hi, (s.afterAlloc hi).mem.write hi bs x = s.mem x := by
  have hle := b.dir.le_hi
  have hal := b.aligned
  have hn := b.dir.aligned
  have hm : ∀ x < hi, (s.afterAlloc hi).mem.write hi bs x = s.mem x := fun x hx => by
    rw [Mem.write_out _ (Or.inl hx)]
    exact Mem.fill_out _ _ (Or.inl hx)
  refine ⟨⟨rfl, hend, by omega, b.dir.congr (fun x _ => hm x) (by omega),
    fun i hi' => (b.dir.entry_congr (fun x _ => hm x) hi').trans (b.entry i hi'),
    fun va hva => (b.dir.leaf_congr (fun x _ => hm x) hva).trans (b.leaf va hva), fun x hx =>
      (hm x (by omega)).trans (b.low x hx),
    ?_, b.procs, b.currentProc, b.idleProc⟩, hm⟩
  show s.allocated ++ [(hi + KERNEL_BASE, 1)] = _
  rw [b.allocated, List.append_assoc, pagesFrom_succ (by omega) (by omega)]

/-- A page taken and written holds the bytes, and zeros behind them. -/
theorem takePage_byte (s : Os) (hi : Nat) (bs : List UInt8) {o : Nat} (ho : o < 4096) :
    (s.afterAlloc hi).mem.write hi bs (hi + o) = bs.getD o 0 := by
  by_cases hin : o < bs.length
  · rw [Mem.write_add _ hin, List.getD_eq_getElem?_getD, List.getElem?_eq_getElem hin,
      Option.getD_some]
  · rw [Mem.write_out _ (by omega), List.getD_eq_getElem?_getD, List.getElem?_eq_none (by omega)]
    exact Mem.fill_in _ _ (by omega) (by simp only [PAGE_SIZE]; omega)

end Build

/-! ## The user pages -/

/-- Where free memory begins after `j` user pages; user page `j` goes there. -/
def userPage (n j : Nat) : Nat := if j = 0 then n + 0x3000 else n + 0x4000 + j * 4096

/-- The directory with `j` user pages. -/
def processEntry (n j i : Nat) : Nat :=
  if i = 0 then n + 0x2000 + 7
  else if i = 512 then n + 0x1000 + 7
  else if i = 4 ∧ j ≠ 0 then n + 0x4000 + 7
  else 0

/-- The leaf of page number `p` with `j` user pages: both kernel regions lead to
the first 4 MiB, the user region to the pages taken for it. -/
def processLeaf (n j p : Nat) : Nat :=
  if p / 1024 = 0 ∨ p / 1024 = 512 then p % 1024 * 4096 + 3
  else if 0x1000 ≤ p ∧ p < 0x1000 + j then userPage n (p - 0x1000) + 7
  else 0

/-- With `j` user pages, which hold the bytes `byte`. -/
structure UserBuilding (byte : Nat → UInt8) (n j : Nat) (s0 s : Os) : Prop
    extends Building n (userPage n j) (processEntry n j) (processLeaf n j) s0 s where
  content : ∀ i < j, ∀ o < 4096, s.mem (userPage n i + o) = byte (i * 4096 + o)

theorem userPage_succ_le (n j : Nat) : userPage n j + 4096 ≤ userPage n (j + 1) := by
  unfold userPage
  split <;> split <;> omega

theorem userPage_mono (n : Nat) {j k : Nat} (h : j ≤ k) : userPage n j ≤ userPage n k := by
  unfold userPage
  split <;> split <;> omega

theorem processEntry_four (n j : Nat) :
    processEntry n j 4 = if j = 0 then 0 else n + 0x4000 + 7 := by
  simp [processEntry]

/-- The table of the user region comes with the first user page. -/
theorem present_processEntry_four {n j : Nat} (hn : n % 4096 = 0) :
    present (processEntry n j 4) ↔ j ≠ 0 := by
  rw [processEntry_four]
  by_cases h0 : j = 0
  · rw [if_pos h0]
    exact ⟨fun h => absurd h (by decide), fun h => absurd h0 h⟩
  · rw [if_neg h0]
    exact ⟨fun _ => h0, fun _ => present_new (by omega)⟩

/-- Behind user page `j` comes the next one, or first the table. -/
theorem userPage_succ {n j : Nat} (hn : n % 4096 = 0) :
    userPage n (j + 1) =
      if present (processEntry n j 4) then userPage n j + 4096 else userPage n j + 4096 + 4096 := by
  simp only [present_processEntry_four hn, userPage]
  by_cases h0 : j = 0
  · subst h0
    simp
  · rw [if_pos h0, if_neg h0, if_neg (by omega)]
    omega

theorem processEntry_succ {n j : Nat} (hn : n % 4096 = 0) (i : Nat) :
    processEntry n (j + 1) i =
      if i = 4 ∧ ¬ present (processEntry n j 4) then userPage n j + 4096 + 7
      else processEntry n j i := by
  simp only [present_processEntry_four hn]
  by_cases h0 : j = 0
  · subst h0
    by_cases h4 : i = 4
    · subst h4
      rw [processEntry_four, if_neg (by omega), if_pos ⟨rfl, fun h => h rfl⟩, userPage, if_pos rfl]
    · simp [processEntry, h4]
  · simp [processEntry, h0]

theorem processLeaf_succ (n p : Nat) {j : Nat} (hj : j < 1024) :
    processLeaf n (j + 1) p = if p = 0x1000 + j then userPage n j + 7 else processLeaf n j p := by
  unfold processLeaf
  by_cases hp : p = 0x1000 + j
  · rw [if_pos hp, if_neg (by omega), if_pos (by omega), hp, Nat.add_sub_cancel_left]
  · rw [if_neg hp]
    by_cases hk : p / 1024 = 0 ∨ p / 1024 = 512
    · rw [if_pos hk, if_pos hk]
    · rw [if_neg hk, if_neg hk]
      by_cases hlt : 0x1000 ≤ p ∧ p < 0x1000 + j
      · rw [if_pos hlt, if_pos (by omega)]
      · rw [if_neg hlt, if_neg (by omega)]

/-- The tables of a directory under construction. -/
theorem processEntry_frame {n j i : Nat} (hn : n % 4096 = 0) (hp : present (processEntry n j i)) :
    frame32 (processEntry n j i) = n + 0x1000 ∨ frame32 (processEntry n j i) = n + 0x2000 ∨
      frame32 (processEntry n j i) = n + 0x4000 := by
  revert hp
  unfold processEntry
  split
  · exact fun _ => Or.inr (Or.inl (frame32_new (by omega)))
  · split
    · exact fun _ => Or.inl (frame32_new (by omega))
    · split
      · exact fun _ => Or.inr (Or.inr (frame32_new (by omega)))
      · exact fun hp => absurd hp (by decide)

/-- No user page is a table. -/
theorem userPage_not_owned {m : Mem} {n j i o : Nat} (hn : n % 4096 = 0)
    (hE : ∀ i < 1024, entry32 m n i = processEntry n j i) (ho : o < 4096) :
    ¬ Owns m n (userPage n i + o) := by
  have hpage :
      n + 0x3000 ≤ userPage n i ∧
      (userPage n i + 4096 ≤ n + 0x4000 ∨ n + 0x5000 ≤ userPage n i) := by
    unfold userPage
    split <;> omega
  rintro (hin | ⟨k, hk, hp, h1, h2⟩)
  · omega
  · rw [hE k hk] at hp h1 h2
    rcases processEntry_frame hn hp with he | he | he <;> omega

/-- User page `j`: taken, filled with `bs`, and mapped behind the others. -/
theorem UserBuilding.page_wp {byte : Nat → UInt8} {n j : Nat} {s0 s : Os}
    (b : UserBuilding byte n j s0 s) (bs : List UInt8)
    (hbs : ∀ o < 4096, bs.getD o 0 = byte (j * 4096 + o)) :
    wp (do
        let pageVaddr ← allocPages 1
        updMem fun m => m.write (phys pageVaddr) bs
        mapPage (n + KERNEL_BASE) (USER_BASE + j * PAGE_SIZE) (pageVaddr - KERNEL_BASE)
          (PAGE_U ||| PAGE_RW))
      (fun _ t => UserBuilding byte n (j + 1) s0 t)
      (fun _ _ => RAM_END < userPage n (j + 1)) s := by
  have hstep := userPage_succ_le n j
  rw [wp_bind]
  refine wp_mono (allocPage_wp s (userPage n j) b.next b.bound) (fun v s1 h1 => ?_) fun _ _ h =>
    Nat.lt_of_lt_of_le h hstep
  obtain ⟨hv, hend, hs1⟩ := h1
  subst hs1
  rw [hv, wp_bind, wp_updMem, phys_add, Nat.add_sub_cancel]
  obtain ⟨b2, hlow⟩ := b.toBuilding.takePage hend bs
  have hal := b.aligned
  have hj : n + 0x3000 + j * 4096 ≤ userPage n j := by
    unfold userPage
    split <;> omega
  have hram : RAM_END = 0x3FF000 := rfl
  have hva : (USER_BASE + j * PAGE_SIZE) / 2 ^ 22 = 4 := by
    simp only [USER_BASE, PAGE_SIZE]
    omega
  have hpage : (USER_BASE + j * PAGE_SIZE) / 4096 = 0x1000 + j := by
    simp only [USER_BASE, PAGE_SIZE]
    omega
  have hn := b.dir.aligned
  refine wp_mono (b2.mapPage_wp (by simp only [USER_BASE, PAGE_SIZE]; omega)
    (by simp only [USER_BASE, PAGE_SIZE]; omega) (by omega) hal (by decide) ?_ (fun i _ => ?_)
    fun p => ?_) (fun _ t h => ⟨h.1, fun i hi o ho => ?_⟩) fun _ _ h => h
  · rw [hva]
    exact userPage_succ hn
  · rw [hva]
    exact processEntry_succ hn i
  · rw [hpage, show PAGE_U ||| PAGE_RW ||| 1 = 7 from rfl]
    exact processLeaf_succ n p (by omega)
  · have hmono : i < j → userPage n i + 4096 ≤ userPage n j := fun hlt => by
      unfold userPage
      split <;> split <;> omega
    have hown := userPage_not_owned (i := i) hn b2.entry ho
    rcases Nat.lt_succ_iff_lt_or_eq.1 hi with hlt | rfl
    · have := hmono hlt
      have hbelow := hlow (userPage n i + o) (by omega)
      exact (h.2 _ (by omega) hown).trans (hbelow.trans (b.content i hlt o ho))
    · rw [h.2 _ (by omega) hown, ← hbs o ho]
      exact takePage_byte s (userPage n i) bs ho

/-! ## The whole function -/

/-- Byte `x` of the user pages: the image, then zeros. -/
def imageByte (image : List UInt8) (x : Nat) : UInt8 := image.getD x 0

/-- User pages of a process. -/
def userPages (size : Nat) : Nat := max (pagesOf size) 4

theorem imageChunk (image : List UInt8) (k : Nat) {o : Nat} (ho : o < 4096) :
    ((image.drop (k * PAGE_SIZE)).take PAGE_SIZE).getD o 0 = imageByte image (k * 4096 + o) := by
  have ho' : o < PAGE_SIZE := ho
  rw [List.getD_eq_getElem?_getD, List.getElem?_take_of_lt ho', List.getElem?_drop, imageByte,
    List.getD_eq_getElem?_getD]
  rfl

/-- Behind the last page of the image there are only zeros. -/
theorem imageByte_behind {image : List UInt8} {x : Nat} (h : pagesOf image.length * 4096 ≤ x) :
    imageByte image x = 0 := by
  simp only [pagesOf, PAGE_SIZE] at h
  rw [imageByte, List.getD_eq_getElem?_getD, List.getElem?_eq_none (by omega)]
  rfl

theorem UserBuilding.imagePage_wp {image : List UInt8} {n j : Nat} {s0 s : Os}
    (b : UserBuilding (imageByte image) n j s0 s) :
    wp (mapImagePage (n + KERNEL_BASE) image j) (fun _ t =>
      UserBuilding (imageByte image) n (j + 1) s0 t)
      (fun _ _ => RAM_END < userPage n (j + 1)) s := by
  exact b.page_wp _ fun o ho => imageChunk image j ho

/-- A stack page is a user page on which nothing is written. -/
theorem UserBuilding.stackPage_wp {image : List UInt8} {n j : Nat} {s0 s : Os}
    (b : UserBuilding (imageByte image) n (pagesOf image.length + j) s0 s) :
    wp (mapStackPage (n + KERNEL_BASE) (USER_BASE + pagesOf image.length * PAGE_SIZE) j)
      (fun _ t => UserBuilding (imageByte image) n (pagesOf image.length + j + 1) s0 t)
      (fun _ _ => RAM_END < userPage n (pagesOf image.length + j + 1)) s := by
  have hzero :
      ∀ o < 4096, ([] : List UInt8).getD o 0 =
        imageByte image ((pagesOf image.length + j) * 4096 + o) :=
    fun o _ => (imageByte_behind (by omega)).symm
  have hwp := b.page_wp [] hzero
  have hva : USER_BASE + (pagesOf image.length + j) * PAGE_SIZE =
      USER_BASE + pagesOf image.length * PAGE_SIZE + j * PAGE_SIZE := by
    rw [Nat.add_mul, Nat.add_assoc]
  have hnil : ∀ (m : Mem) a, m.write a [] = m := fun m a => funext fun x => Mem.write_out _ (by
    simp only [List.length_nil]
    omega)
  unfold mapStackPage
  rw [wp_bind] at hwp ⊢
  refine wp_mono hwp (fun v t h => ?_) fun _ _ h => h
  rw [wp_bind, wp_updMem, hnil, hva] at h
  exact h

/-- What `create_process` has done when it returns slot `i`, free memory having started at `n`. -/
structure Created (l : Layout) (image : List UInt8) (n : Nat) (i : Fin PROCS_MAX) (s t : Os) :
    Prop where
  slot : findUnused s.procs = some i
  space : UserBuilding (imageByte image) n (userPages image.length)
    { s with mem := (pushInitialFrame l i s.mem).1 } { t with procs := s.procs }
  procs : t.procs = Function.update s.procs i
    { pid := i + 1, state := .runnable, sp := (pushInitialFrame l i s.mem).2, pageTable := n }

theorem Building.start (s : Os) {n : Nat} (hn : n % 4096 = 0) (hend : n + 4096 ≤ RAM_END) :
    Building n (n + 4096) (fun _ => 0) (fun _ => 0) s (s.afterAlloc n) := by
  have hzero : ∀ i < 1024, entry32 (s.afterAlloc n).mem n i = 0 := fun i hi =>
    Mem.load_fill_zero _ (Nat.le_add_right _ _) (by simp only [PAGE_SIZE]; omega)
  have hnot : ∀ i < 1024, ¬ present (entry32 (s.afterAlloc n).mem n i) := fun i hi => by
    rw [hzero i hi]
    decide
  refine ⟨rfl, hend, by omega,
    ⟨hn, Nat.le_refl _, Nat.le_refl _, fun i hi hp => absurd hp (hnot i hi),
    fun i hi _ _ hp => absurd hp (hnot i hi)⟩, hzero, fun va hva => ?_, fun x hx =>
      Mem.fill_out _ _ (Or.inl hx), ?_,
    rfl, rfl, rfl⟩
  · rw [leaf32_eq _ hn hva, if_neg (hnot _ (by omega))]
  · show s.allocated ++ [(n + KERNEL_BASE, 1)] = _
    rw [← pagesFrom_succ (Nat.le_refl n) (by omega)]
    simp [pagesFrom]

/-- It returns, or the slots or the memory are used up. -/
theorem createProcess_wp (l : Layout) (image : List UInt8) (s : Os) (n : Nat)
    (hnext : s.nextPaddr = n + KERNEL_BASE) (hn : n % 4096 = 0) (hb : n ≤ RAM_END) :
    wp (createProcess l image) (fun i t => Created l image n i s t)
      (fun _ _ => findUnused s.procs = none ∨ RAM_END < userPage n (userPages image.length)) s := by
  have hcount :
      pagesOf image.length + pagesOf
      (USER_STACK_TOP - (USER_BASE + pagesOf image.length * PAGE_SIZE)) =
      userPages image.length := by
    simp only [userPages, pagesOf, USER_STACK_TOP, USER_BASE, PAGE_SIZE]
    omega
  have hfirst : n + 0x3000 ≤ userPage n (userPages image.length) := userPage_mono n (Nat.zero_le _)
  unfold createProcess
  rw [wp_bind, wp_get]
  cases hslot : findUnused s.procs with
  | none => exact Or.inl rfl
  | some i =>
    simp only
    rw [wp_bind, wp_updMem, wp_bind]
    generalize hs0 : ({ s with mem := (pushInitialFrame l i s.mem).1 } : Os) = s0
    have hnext0 : s0.nextPaddr = n + KERNEL_BASE := by rw [← hs0]; exact hnext
    refine wp_mono (allocPage_wp s0 n hnext0 hb) (fun v s1 h1 => ?_) fun _ _ h => Or.inr (by omega)
    obtain ⟨hv, hend, hs1⟩ := h1
    subst hs1
    rw [hv, wp_bind]
    have b0 := Building.start s0 hn hend
    have hhigh : 512 * 2 ^ 22 = KERNEL_BASE := KERNEL_BASE_eq.symm
    have hwp := b0.mapKernelRegion_wp 512 (by decide) (by decide)
    rw [hhigh] at hwp
    refine wp_mono hwp (fun _ s2 b2 => ?_) fun _ _ h => Or.inr (by omega)
    rw [wp_bind]
    refine wp_mono (b2.mapKernelRegion_wp 0 (by decide) (by rw [if_neg (by decide)]; decide))
      (fun _ s3 b3 => ?_) fun _ _ h => Or.inr (by omega)
    have b4 : UserBuilding (imageByte image) n 0 s0 s3 := by
      refine ⟨b3.cast ?_ (fun i _ => ?_) fun p => ?_, fun i hi => absurd hi (Nat.not_lt_zero i)⟩
      · have h0 : userPage n 0 = n + 0x3000 := rfl
        omega
      · simp [processEntry]
      · unfold processLeaf
        by_cases h0 : p / 1024 = 0
        · simp [h0]
        · by_cases h512 : p / 1024 = 512
          · simp [h512]
          · rw [if_neg h0, if_neg h512, if_neg (by omega), if_neg (by omega)]
    rw [wp_bind]
    refine wp_mono (wp_loop (fun j t => UserBuilding (imageByte image) n j s0 t) b4 fun j t hj b =>
      wp_mono b.imagePage_wp (fun _ _ h => h) fun _ _ h => ?_) (fun _ s4 b5 => ?_) fun _ _ h => h
    · have := userPage_mono n (show j + 1 ≤ userPages image.length by omega)
      exact Or.inr (by omega)
    rw [wp_bind]
    refine wp_mono
      (wp_loop (fun j t => UserBuilding (imageByte image) n (pagesOf image.length + j) s0 t) b5
      fun j t hj b => wp_mono b.stackPage_wp (fun _ _ h => h) fun _ _ h => ?_)
        (fun _ s5 b6 => ?_) fun _ _ h => h
    · have := userPage_mono n (show pagesOf image.length + j + 1 ≤ userPages image.length by omega)
      exact Or.inr (by omega)
    rw [wp_bind, wp_modify, wp_pure, Nat.add_sub_cancel]
    rw [hcount] at b6
    have hprocs : s5.procs = s.procs := by rw [b6.procs, ← hs0]
    have hs5 : { s5 with procs := s.procs } = s5 := by rw [← hprocs]
    refine ⟨hslot, ?_, by rw [hprocs]⟩
    simp only [hs5, hs0]
    exact b6

end MiniKvm.Os1k
