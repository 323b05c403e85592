import MiniKvm.Core.Lts
import MiniKvm.Machine.Directories
import MiniKvm.Os1k.AddressSpace

/-!
# Page directories as translation functions

`map_page` over a whole run: any number of directories, each a page from
`alloc_pages`, updated in any order, while the kernel takes other pages and
writes to memory that is none of the directories' own.

A directory is then the function its calls have built: the last call for a
page decides (`map_page_translates`).
-/
namespace MiniKvm.Os1k

open Paging

/-- What the kernel does to pages. -/
inductive PageAct
  /-- `alloc_pages(1)`, the page is to be a directory. -/
  | directory (d : Nat)
  /-- `alloc_pages(1)`, for anything else. -/
  | page (v : Nat)
  | write
  | map (d vaddr paddr flags : Nat)
  deriving DecidableEq, Repr

/-- The kernel, and what it has done, the latest first. -/
structure PageRun where
  os : Os
  done : List PageAct

def PageAct.newDirectory : PageAct → Option Nat
  | .directory d => some d
  | _ => none

/-- The directories there are. -/
def directories (done : List PageAct) : List Nat := done.filterMap PageAct.newDirectory

/-- What a call says about page `p` of directory `d`. -/
def PageAct.maps (d p : Nat) : PageAct → Option (Nat × Nat)
  | .map d' vaddr paddr flags =>
    if d' = d ∧ vaddr / PAGE_SIZE = p then some (paddr, flags) else none
  | _ => none

/-- `paddr` and `flags` of the last `map_page(d, …)` for page `p`. -/
def lastMap (done : List PageAct) (d p : Nat) : Option (Nat × Nat) :=
  done.findSome? (PageAct.maps d p)

/-- Flags within `PAGE_RW` and `PAGE_U`. -/
def pageFlags : List Nat := [0, PAGE_RW, PAGE_U, PAGE_RW ||| PAGE_U]

/-- Calls that return. A write may change every byte that no directory owns. -/
inductive PageStep : PageRun → PageAct → PageRun → Prop
  | directory {s d os} : allocPages 1 s.os = .ok d os →
      PageStep s (.directory d) ⟨os, .directory d :: s.done⟩
  | page {s v os} : allocPages 1 s.os = .ok v os → PageStep s (.page v) ⟨os, .page v :: s.done⟩
  | write {s mem} :
      (∀ d ∈ directories s.done, ∀ x, Owns s.os.mem (phys d) x → mem x = s.os.mem x) →
      PageStep s .write ⟨{ s.os with mem }, .write :: s.done⟩
  | map {s d vaddr paddr flags os} : d ∈ directories s.done →
      vaddr < 2 ^ 32 → vaddr % PAGE_SIZE = 0 → paddr < 2 ^ 32 → paddr % PAGE_SIZE = 0 →
      flags ∈ pageFlags → mapPage d vaddr paddr flags s.os = .ok () os →
      PageStep s (.map d vaddr paddr flags) ⟨os, .map d vaddr paddr flags :: s.done⟩

def pageSystem (l : Layout) : LTS PageRun PageAct where
  init s := ∃ m, s = ⟨Os.boot l m, []⟩
  step := PageStep

/-- The walk from `cr3` for `va` gives what `map_page` was asked for, or a fault. -/
def Translates (m : Mem) (cr3 va : Nat) : Option (Nat × Nat) → Prop
  | none => walk32 m cr3 va = none
  | some (paddr, flags) => ∃ x, walk32 m cr3 va = some x ∧ x.pa = paddr + va % PAGE_SIZE ∧
      x.leaf = paddr + (flags ||| PAGE_P) ∧ (x.Writable ↔ flags &&& PAGE_RW ≠ 0) ∧
      (x.User ↔ flags &&& PAGE_U ≠ 0)

/-! ## The invariant -/

/-- The leaf of a page. -/
def leafWord : Option (Nat × Nat) → Nat
  | none => 0
  | some (paddr, flags) => paddr + (flags ||| PAGE_P)

/-- The directories own pages of their own, below the next free one; their
tables are open to everybody, and their leaves are the last ones set. -/
structure Mapped (l : Layout) (hi : Nat) (s : PageRun) : Prop where
  next : s.os.nextPaddr = hi + KERNEL_BASE
  start_le : l.ramStart ≤ hi
  aligned : hi % 4096 = 0
  bound : hi ≤ RAM_END
  high : ∀ d ∈ directories s.done, KERNEL_BASE ≤ d
  known : ∀ d p e, lastMap s.done d p = some e →
    d ∈ directories s.done ∧ e.1 % PAGE_SIZE = 0 ∧ e.2 ∈ pageFlags
  dirs : Dirs s.os.mem l.ramStart hi ((directories s.done).map phys)
  table : ∀ d ∈ directories s.done, ∀ i < 1024, present (entry32 s.os.mem (phys d) i) →
    writable (entry32 s.os.mem (phys d) i) ∧ user (entry32 s.os.mem (phys d) i)
  leaf : ∀ d ∈ directories s.done, ∀ va < 2 ^ 32,
    leaf32 s.os.mem (phys d) va = leafWord (lastMap s.done d (va / PAGE_SIZE))

theorem phys_high {v : Nat} (h : KERNEL_BASE ≤ v) : phys v + KERNEL_BASE = v := by
  rw [phys, if_pos h, Nat.sub_add_cancel h]

section Step

variable {l : Layout} {hi : Nat} {s : PageRun}

theorem mapped_boot {l : Layout} (hl : l.Linked) (m : Mem) :
    Mapped l l.ramStart ⟨Os.boot l m, []⟩ := by
  have hsep := separate_boot hl m
  exact ⟨hsep.next, Nat.le_refl _, hsep.aligned, hsep.bound, fun _ h => absurd h List.not_mem_nil,
    (fun _ _ _ h => by cases h), Dirs.nil _ _ _, fun _ h => absurd h List.not_mem_nil,
    fun _ h => absurd h List.not_mem_nil⟩

theorem mem_phys {d : Nat} (hd : d ∈ directories s.done) :
    phys d ∈ (directories s.done).map phys := List.mem_map.2 ⟨d, hd, rfl⟩

/-- Memory that agrees on what the directories own keeps it, and the heap may grow. -/
theorem Mapped.congr (h : Mapped l hi s) {t : PageRun} {hi' : Nat}
    (hm : ∀ d ∈ directories s.done, ∀ x, Owns s.os.mem (phys d) x → t.os.mem x = s.os.mem x)
    (hdir : directories t.done = directories s.done)
    (hlast : ∀ d p, lastMap t.done d p = lastMap s.done d p)
    (hnext : t.os.nextPaddr = hi' + KERNEL_BASE) (hle : hi ≤ hi') (hal : hi' % 4096 = 0)
    (hb : hi' ≤ RAM_END) : Mapped l hi' t := by
  refine ⟨hnext, Nat.le_trans h.start_le hle, hal, hb, hdir ▸ h.high, fun d p e he => ?_, ?_,
    fun d hd i hi' hp => ?_, fun d hd va hva => ?_⟩
  · rw [hlast] at he
    rw [hdir]
    exact h.known d p e he
  · rw [hdir]
    refine h.dirs.congr (fun e he => ?_) hle
    obtain ⟨d, hd, rfl⟩ := List.mem_map.1 he
    exact hm d hd
  · rw [hdir] at hd
    rw [entry32_of_owns (hm d hd) hi'] at hp ⊢
    exact h.table d hd i hi' hp
  · rw [hdir] at hd
    rw [(h.dirs.dir _ (mem_phys hd)).leaf_congr_owns (hm d hd) hva, hlast]
    exact h.leaf d hd va hva

/-- What `alloc_pages(1)` does to the heap. -/
theorem Mapped.alloc (h : Mapped l hi s) {v : Nat} {os : Os} (ha : allocPages 1 s.os = .ok v os) :
    v = hi + KERNEL_BASE ∧ hi + 4096 ≤ RAM_END ∧ os = s.os.afterAlloc hi ∧
      ∀ d ∈ directories s.done, ∀ x, Owns s.os.mem (phys d) x → os.mem x = s.os.mem x := by
  obtain ⟨hv, hend, hos⟩ := wp_ok (allocPage_wp s.os hi h.next h.bound) ha
  refine ⟨hv, hend, hos, fun d hd x hx => ?_⟩
  rw [hos]
  exact Mem.fill_out _ _ (Or.inl ((h.dirs.dir _ (mem_phys hd)).owns_bounds hx).2)

/-- A page taken for anything else. -/
theorem Mapped.page (h : Mapped l hi s) {v : Nat} {os : Os} (ha : allocPages 1 s.os = .ok v os) :
    Mapped l (hi + 4096) ⟨os, .page v :: s.done⟩ := by
  obtain ⟨-, hend, hos, hm⟩ := h.alloc ha
  have hal := h.aligned
  exact h.congr hm rfl (fun _ _ => rfl) (by rw [hos]; rfl) (by omega) (by omega) hend

/-- A page taken for a directory: one without translations. -/
theorem Mapped.directory (h : Mapped l hi s) {d : Nat} {os : Os}
    (ha : allocPages 1 s.os = .ok d os) :
    Mapped l (hi + 4096) ⟨os, .directory d :: s.done⟩ := by
  have hpage := h.page ha
  obtain ⟨hd, hend, hos, hm⟩ := h.alloc ha
  have hphys : phys d = hi := by rw [hd, phys_add]
  have hmem : os.mem = s.os.mem.fill hi 4096 0 := by
    rw [hos]
    rfl
  obtain ⟨hnew, hzero⟩ := Dir.fresh (m := s.os.mem) h.start_le h.aligned
  rw [← hmem] at hnew hzero
  have hnone : ∀ p, lastMap s.done d p = none := by
    intro p
    refine Option.eq_none_iff_forall_ne_some.2 fun e he => ?_
    have := (h.dirs.dir _ (mem_phys (h.known d p e he).1)).le_hi
    omega
  refine ⟨hpage.next, hpage.start_le, hpage.aligned, hpage.bound,
    List.forall_mem_cons.2 ⟨by omega, hpage.high⟩,
    fun e p x he => (hpage.known e p x he).imp_left (List.mem_cons_of_mem _), ?_,
    List.forall_mem_cons.2 ⟨fun i hi' hp => ?_, hpage.table⟩,
    List.forall_mem_cons.2 ⟨fun va hva => ?_, hpage.leaf⟩⟩
  · show Dirs os.mem _ _ (phys d :: (directories s.done).map phys)
    rw [hphys, hmem]
    exact h.dirs.fresh h.start_le h.aligned
  · rw [hphys, hzero i hi'] at hp
    exact absurd hp (by decide)
  · have hidx : va / 2 ^ 22 < 1024 := by omega
    have hl : lastMap (.directory d :: s.done) d (va / PAGE_SIZE) = none := hnone _
    rw [hphys, leaf32_eq _ h.aligned hva, hzero _ hidx, if_neg (by decide), hl]
    rfl

/-- The last call for a page of a directory decides. -/
theorem lastMap_map (done : List PageAct) (d va pa flags e p : Nat) :
    lastMap (.map d va pa flags :: done) e p =
      if d = e ∧ va / PAGE_SIZE = p then some (pa, flags) else lastMap done e p := by
  unfold lastMap
  rw [List.findSome?_cons, PageAct.maps]
  by_cases hc : d = e ∧ va / PAGE_SIZE = p
  · rw [if_pos hc, if_pos hc]
  · rw [if_neg hc, if_neg hc]

theorem Mapped.phys_inj (h : Mapped l hi s) {d e : Nat} (hd : d ∈ directories s.done)
    (he : e ∈ directories s.done) (heq : phys d = phys e) : d = e := by
  rw [← phys_high (h.high d hd), ← phys_high (h.high e he), heq]

theorem pageFlags_lt {f : Nat} (hf : f ∈ pageFlags) : f < 8 :=
  (show ∀ f ∈ pageFlags, f < 8 by decide) f hf

/-- A call of `map_page` is an update of one leaf, in a table of its own. -/
theorem Mapped.map (h : Mapped l hi s) {d va pa flags : Nat} {os : Os}
    (hd : d ∈ directories s.done) (hva : va < 2 ^ 32) (hva0 : va % PAGE_SIZE = 0)
    (hpa : pa < 2 ^ 32) (hpa0 : pa % PAGE_SIZE = 0) (hf : flags ∈ pageFlags)
    (hm : mapPage d va pa flags s.os = .ok () os) :
    MapStep (phys d) va (pa + (flags ||| PAGE_P)) hi s.os os := by
  have hlt := pageFlags_lt hf
  rw [← phys_high (h.high d hd)] at hm
  exact wp_ok (mapPage_wp (phys d) va pa flags hi s.os h.next h.bound h.aligned hva hva0 hpa hpa0
    (by omega)) hm

theorem Mapped.mapped (h : Mapped l hi s) {d va pa flags : Nat} {os : Os}
    (hd : d ∈ directories s.done) (hva : va < 2 ^ 32) (hpa : pa < 2 ^ 32)
    (hpa0 : pa % PAGE_SIZE = 0) (hf : flags ∈ pageFlags)
    (hm : MapStep (phys d) va (pa + (flags ||| PAGE_P)) hi s.os os) :
    Mapped l (tableEnd s.os.mem hi (phys d) (va / 2 ^ 22))
      ⟨os, .map d va pa flags :: s.done⟩ := by
  have hb : hi + 7 < 2 ^ 32 := by
    have := h.bound
    simp only [RAM_END] at this
    omega
  have hw : pa + (flags ||| PAGE_P) < 2 ^ 32 := by
    have hlt := pageFlags_lt hf
    have hor : flags ||| PAGE_P < 2 ^ 3 := Nat.or_lt_two_pow hlt (by decide)
    simp only [PAGE_SIZE] at hpa0
    omega
  have hle : hi ≤ tableEnd s.os.mem hi (phys d) (va / 2 ^ 22) := by
    unfold tableEnd
    split <;> omega
  have hal := h.aligned
  refine ⟨hm.next, Nat.le_trans h.start_le hle, ?_, hm.bound, h.high, fun e p x hx => ?_, ?_,
    fun e he i hi' hp => ?_, fun e he va' hva' => ?_⟩
  · unfold tableEnd
    split <;> omega
  · rw [lastMap_map] at hx
    by_cases hc : d = e ∧ va / PAGE_SIZE = p
    · rw [if_pos hc] at hx
      obtain rfl := Option.some.inj hx
      exact ⟨hc.1 ▸ hd, hpa0, hf⟩
    · rw [if_neg hc] at hx
      exact h.known e p x hx
  · show Dirs os.mem _ _ ((directories s.done).map phys)
    rw [hm.mem]
    exact h.dirs.mapPte (mem_phys hd) h.aligned hb hva
  · have he : e ∈ directories s.done := he
    show writable (entry32 os.mem (phys e) i) ∧ user (entry32 os.mem (phys e) i)
    rw [hm.mem] at hp ⊢
    rcases h.dirs.entry32_mapPte (w := pa + (flags ||| PAGE_P)) (mem_phys hd) h.aligned hb hva
      (mem_phys he) hi' with heq | ⟨-, heq⟩
    · rw [heq] at hp ⊢
      exact h.table e he i hi' hp
    · rw [heq]
      unfold writable user
      omega
  · have he : e ∈ directories s.done := he
    show leaf32 os.mem (phys e) va' = leafWord (lastMap (.map d va pa flags :: s.done) e _)
    rw [hm.mem, h.dirs.leaf32_mapPte (mem_phys hd) h.aligned hb hva hw (mem_phys he) hva',
      lastMap_map, h.leaf e he va' hva']
    by_cases hc : d = e ∧ va / PAGE_SIZE = va' / PAGE_SIZE
    · rw [if_pos hc, if_pos ⟨by rw [hc.1], hc.2.symm⟩]
      rfl
    · rw [if_neg hc, if_neg fun hn => hc ⟨(h.phys_inj he hd hn.1).symm, hn.2.symm⟩]

end Step

/-- Every reachable state of the system. -/
theorem mapped_reachable {l : Layout} (hl : l.Linked) {s : PageRun}
    (hr : (pageSystem l).Reachable s) : ∃ hi, Mapped l hi s := by
  refine LTS.Inductive.reachable (I := fun s => ∃ hi, Mapped l hi s) ⟨?_, ?_⟩ s hr
  · rintro s ⟨m, rfl⟩
    exact ⟨_, mapped_boot hl m⟩
  · rintro s a t ⟨hi, h⟩ hstep
    cases hstep with
    | directory ha => exact ⟨_, h.directory ha⟩
    | page ha => exact ⟨_, h.page ha⟩
    | write hm =>
      exact ⟨_, h.congr hm rfl (fun _ _ => rfl) h.next (Nat.le_refl _) h.aligned h.bound⟩
    | map hd hva hva0 hpa hpa0 hf hm =>
      exact ⟨_, h.mapped hd hva hpa hpa0 hf (h.map hd hva hva0 hpa hpa0 hf hm)⟩

/-! ## The translation function -/

/-- Permission bits of a leaf. -/
theorem leaf_flags {pa f : Nat} (hpa : pa % PAGE_SIZE = 0) (hf : f ∈ pageFlags) :
    present (pa + (f ||| PAGE_P)) ∧ frame32 (pa + (f ||| PAGE_P)) = pa ∧
      (writable (pa + (f ||| PAGE_P)) ↔ f &&& PAGE_RW ≠ 0) ∧
      (user (pa + (f ||| PAGE_P)) ↔ f &&& PAGE_U ≠ 0) := by
  have hbits : ∀ f ∈ pageFlags, (f ||| PAGE_P) % 2 = 1 ∧ (f ||| PAGE_P) < 8 ∧
      ((f ||| PAGE_P) / 2 % 2 = 1 ↔ f &&& PAGE_RW ≠ 0) ∧
      ((f ||| PAGE_P) / 4 % 2 = 1 ↔ f &&& PAGE_U ≠ 0) := by decide
  obtain ⟨h1, h2, h3, h4⟩ := hbits f hf
  rw [← h3, ← h4]
  simp only [PAGE_SIZE] at hpa
  unfold present frame32 writable user
  omega

theorem Mapped.translates {l : Layout} {hi : Nat} {s : PageRun} (h : Mapped l hi s) {d : Nat}
    (hd : d ∈ directories s.done) {va : Nat} (hva : va < 2 ^ 32) :
    Translates s.os.mem (phys d) va (lastMap s.done d (va / PAGE_SIZE)) := by
  have hleaf := h.leaf d hd va hva
  have hal := (h.dirs.dir _ (mem_phys hd)).aligned
  have hw := walk32_eq_entry s.os.mem hal hva
  have hpres := present_entry (m := s.os.mem) hal hva
  cases hlast : lastMap s.done d (va / PAGE_SIZE) with
  | none =>
    rw [hlast] at hleaf
    rw [hleaf, if_neg (show ¬ present (leafWord none) by decide)] at hw
    exact hw
  | some e =>
    obtain ⟨-, hpa, hf⟩ := h.known d _ _ hlast
    obtain ⟨hp, hframe, hwr, hus⟩ := leaf_flags hpa hf
    have hleaf : leaf32 s.os.mem (phys d) va = e.1 + (e.2 ||| PAGE_P) := by
      rw [hleaf, hlast]
      rfl
    rw [hleaf] at hw hpres
    obtain ⟨htw, htu⟩ := h.table d hd _ (by omega) (hpres hp)
    generalize entry32 s.os.mem (phys d) (va / 2 ^ 22) = pde at *
    rw [if_pos hp, hframe] at hw
    refine ⟨_, hw, rfl, rfl, ?_, ?_⟩
    · rw [← hwr]
      simp [Xlat.Writable, htw]
    · rw [← hus]
      simp [Xlat.User, htu]

/-- Every other translation is as before the call. -/
theorem Mapped.walk_other {l : Layout} {hi : Nat} {s : PageRun} (h : Mapped l hi s)
    {d va pa flags : Nat} {os : Os} (hd : d ∈ directories s.done) (hva : va < 2 ^ 32)
    (hpa : pa < 2 ^ 32) (hpa0 : pa % PAGE_SIZE = 0) (hf : flags ∈ pageFlags)
    (hm : MapStep (phys d) va (pa + (flags ||| PAGE_P)) hi s.os os) {e va' : Nat}
    (he : e ∈ directories s.done) (hva' : va' < 2 ^ 32)
    (hne : e ≠ d ∨ va' / PAGE_SIZE ≠ va / PAGE_SIZE) :
    walk32 os.mem (phys e) va' = walk32 s.os.mem (phys e) va' := by
  have hbefore := h.leaf e he va' hva'
  have hafter := (h.mapped hd hva hpa hpa0 hf hm).leaf e he va' hva'
  have hlast : lastMap (.map d va pa flags :: s.done) e (va' / PAGE_SIZE) =
      lastMap s.done e (va' / PAGE_SIZE) := by
    rw [lastMap_map, if_neg fun hc => hne.elim (fun h => h hc.1.symm) fun h => h hc.2.symm]
  have hleaf : leaf32 os.mem (phys e) va' = leaf32 s.os.mem (phys e) va' := by
    rw [hbefore, ← hlast]
    exact hafter
  have hal := (h.dirs.dir _ (mem_phys he)).aligned
  rw [walk32_eq_entry _ hal hva', walk32_eq_entry _ hal hva', hleaf]
  by_cases hp : present (leaf32 s.os.mem (phys e) va')
  · have hpres := present_entry hal hva' hp
    have hb : hi + 7 < 2 ^ 32 := by
      have := h.bound
      simp only [RAM_END] at this
      omega
    rcases h.dirs.entry32_mapPte (w := pa + (flags ||| PAGE_P)) (mem_phys hd) h.aligned hb hva
      (mem_phys he) (show va' / 2 ^ 22 < 1024 by omega) with heq | ⟨hnp, -⟩
    · rw [if_pos hp, if_pos hp, hm.mem, heq]
    · exact absurd hpres hnp
  · rw [if_neg hp, if_neg hp]

/-- Whatever was mapped, taken and written before: each directory translates a
page as the last `map_page` for it said, and a call changes one translation. -/
theorem map_page_translates {l : Layout} (hl : l.Linked) {s : PageRun}
    (hr : (pageSystem l).Reachable s) :
    (∀ d ∈ directories s.done, ∀ va < 2 ^ 32,
      Translates s.os.mem (phys d) va (lastMap s.done d (va / PAGE_SIZE))) ∧
    ∀ d va pa flags t, PageStep s (.map d va pa flags) t →
      ∀ e ∈ directories s.done, ∀ va' < 2 ^ 32, (e ≠ d ∨ va' / PAGE_SIZE ≠ va / PAGE_SIZE) →
        walk32 t.os.mem (phys e) va' = walk32 s.os.mem (phys e) va' := by
  obtain ⟨hi, h⟩ := mapped_reachable hl hr
  refine ⟨fun d hd va hva => h.translates hd hva, ?_⟩
  intro d va pa flags t hstep e he va' hva' hne
  cases hstep with
  | map hd hva hva0 hpa hpa0 hf hm =>
    exact h.walk_other hd hva hpa hpa0 hf (h.map hd hva hva0 hpa hpa0 hf hm) he hva' hne

/-- A directory, and one page of it mapped. -/
theorem smallKernel_maps : ∃ s, (pageSystem smallKernel).Reachable s ∧
    s.done = [.map 0x80018000 USER_BASE 0x5000 PAGE_U, .directory 0x80018000] := by
  have hstart : smallKernel.ramStart = 0x18000 := by decide +kernel
  have hphys : 0x80018000 = 0x18000 + KERNEL_BASE := by rw [KERNEL_BASE_eq]
  have h0 := mapped_boot smallKernel_linked fun _ => 0
  rw [hstart] at h0
  obtain ⟨d, os, ha⟩ := wp_succeeds (wp_mono (allocPage_wp _ 0x18000 h0.next h0.bound)
    (fun _ _ h => h) fun _ _ h => absurd h (by decide))
  have h1 := h0.directory ha
  obtain ⟨rfl, -, -, -⟩ := h0.alloc ha
  obtain ⟨u, os', hm⟩ := wp_succeeds (wp_mono
    (mapPage_wp 0x18000 USER_BASE 0x5000 PAGE_U _ os h1.next h1.bound h1.aligned (by decide)
      (by decide) (by decide) (by decide) (by decide))
    (fun _ _ h => h) fun _ _ h => absurd h (by unfold tableEnd; split <;> decide))
  rw [← hphys] at ha hm
  exact ⟨⟨os', _⟩, ⟨_, _, ⟨_, rfl⟩, .cons (.directory ha)
    (.cons (.map List.mem_cons_self (by decide) (by decide) (by decide) (by decide) (by decide) hm)
      (.nil _))⟩, rfl⟩

theorem map_page_translates_small : ∃ m : Mem,
    Translates m 0x18000 (USER_BASE + 4) (some (0x5000, PAGE_U)) ∧
      Translates m 0x18000 0x3000 none := by
  obtain ⟨s, hr, hdone⟩ := smallKernel_maps
  have h := (map_page_translates smallKernel_linked hr).1 0x80018000 (by rw [hdone]; decide)
  have hphys : phys 0x80018000 = 0x18000 := by
    rw [show 0x80018000 = 0x18000 + KERNEL_BASE by rw [KERNEL_BASE_eq], phys_add]
  rw [hphys, hdone] at h
  exact ⟨s.os.mem, h (USER_BASE + 4) (by decide), h 0x3000 (by decide)⟩

end MiniKvm.Os1k
