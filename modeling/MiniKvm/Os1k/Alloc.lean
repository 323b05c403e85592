import MiniKvm.Core.Lts
import MiniKvm.Os1k.AddressSpace

/-!
# The page allocator over a run of calls

`alloc_pages` keeps one pointer and compares it with the end of free RAM after
moving it. Both the product `n * PAGE_SIZE` and the sum are 32-bit words: a
sum that wraps is caught by the processor, since `memset` then runs over
addresses that are not mapped; a product that wraps is caught by nothing
(`alloc_pages_safe_iff`).

A run is a list of calls with the addresses they have returned. Between two
calls memory may change in any way.
-/
namespace MiniKvm.Os1k

open Paging

/-- The kernel's own addresses: the first 4 MiB, low and in the high half. -/
def KernelMapped (v : Nat) : Prop := v < 0x400000 ∨ (KERNEL_BASE ≤ v ∧ v < KERNEL_BASE + 0x400000)

/-- They are what the VMM's tables translate, and `phys` is the translation. -/
theorem kernelMapped_iff {m : Mem} (h : Vmm.Tables32 m) {v : Nat} (hv : v < 2 ^ 32) :
    KernelMapped v ↔ ∃ x, walk32 m 0x100000 v = some x ∧ x.pa = phys v := by
  rw [Vmm.walk32_tables h v hv, KernelMapped, phys, KERNEL_BASE_eq]
  by_cases hlo : v < 0x400000
  · rw [if_pos hlo, if_neg (by omega)]
    exact ⟨fun _ => ⟨_, rfl, rfl⟩, fun _ => Or.inl hlo⟩
  · rw [if_neg hlo]
    by_cases hhi : 0x80000000 ≤ v ∧ v < 0x80400000
    · rw [if_pos hhi, if_pos hhi.1]
      exact ⟨fun _ => ⟨_, rfl, rfl⟩, fun _ => Or.inr hhi⟩
    · rw [if_neg hhi]
      refine ⟨fun hk => absurd hk (by omega), fun hx => ?_⟩
      obtain ⟨x, hx, -⟩ := hx
      exact absurd hx (by simp)

/-- `alloc_pages(n)` returns `v`: it does not panic, and `memset` faults nowhere. -/
structure Allocates (s : Os) (n v : Nat) (t : Os) : Prop where
  ok : allocPages n s = .ok v t
  mapped : ∀ k < n * PAGE_SIZE % 2 ^ 32, KernelMapped ((v + k) % 2 ^ 32)

/-- Calls with 32-bit counts that return, memory being anything before each. -/
def allocator (l : Layout) : LTS Os (Nat × Nat) where
  init s := ∃ m, s = Os.boot l m
  step s call t := call.1 < 2 ^ 32 ∧ ∃ m, Allocates { s with mem := m } call.1 call.2 t

/-- What a caller of `alloc_pages(n)` may rely on when it has got `v`. -/
structure SafeCall (l : Layout) (n v : Nat) (t : Os) : Prop where
  aligned : v % PAGE_SIZE = 0
  start_le : l.freeRam ≤ v
  le_end : v + n * PAGE_SIZE ≤ FREE_RAM_END
  zero : ∀ x, v ≤ x → x < v + n * PAGE_SIZE → t.mem (phys x) = 0

/-- The regions of two calls have no byte in common. -/
def RegionsApart (p q : Nat × Nat) : Prop :=
  ∀ x, p.2 ≤ x → x < p.2 + p.1 * PAGE_SIZE → ¬ (q.2 ≤ x ∧ x < q.2 + q.1 * PAGE_SIZE)

/-- Every call of the run is safe, and all their regions are apart. -/
def SafeRun (l : Layout) (ps : List ((Nat × Nat) × Os)) : Prop :=
  (∀ p ∈ ps, SafeCall l p.1.1 p.1.2 p.2) ∧ ps.Pairwise fun p q => RegionsApart p.1 q.1

/-- The two outcomes of the function. -/
theorem allocPages_eq (n : Nat) (s : Os) :
    allocPages n s =
      if (s.nextPaddr + n * PAGE_SIZE) % 2 ^ 32 ≤ FREE_RAM_END then
        .ok s.nextPaddr { s with
          nextPaddr := (s.nextPaddr + n * PAGE_SIZE) % 2 ^ 32
          mem := s.mem.fill (phys s.nextPaddr) (n * PAGE_SIZE % 2 ^ 32) 0
          allocated := s.allocated ++ [(s.nextPaddr, n)] }
      else .error () s := by
  have hunfold : allocPages n s =
      (panicUnless ((s.nextPaddr + n * PAGE_SIZE) % 2 ^ 32 ≤ FREE_RAM_END) >>= fun _ => do
        set { s with
          nextPaddr := (s.nextPaddr + n * PAGE_SIZE) % 2 ^ 32
          mem := s.mem.fill (phys s.nextPaddr) (n * PAGE_SIZE % 2 ^ 32) 0
          allocated := s.allocated ++ [(s.nextPaddr, n)] }
        pure s.nextPaddr : EStateM Unit Os Nat) s := rfl
  by_cases h : (s.nextPaddr + n * PAGE_SIZE) % 2 ^ 32 ≤ FREE_RAM_END
  · rw [if_pos h]
    have hp : panicUnless ((s.nextPaddr + n * PAGE_SIZE) % 2 ^ 32 ≤ FREE_RAM_END) = pure () := by
      rw [panicUnless, if_pos h]
    rw [hunfold, hp]
    rfl
  · rw [if_neg h]
    have hp : panicUnless ((s.nextPaddr + n * PAGE_SIZE) % 2 ^ 32 ≤ FREE_RAM_END) = throw () := by
      rw [panicUnless, if_neg h]
    rw [hunfold, hp]
    rfl

section Call

variable {s t : Os} {n v : Nat}

/-- A call for less than 4 GiB that returns has computed without wrapping. -/
theorem Allocates.exact (h : Allocates s n v t) (hn : n < 2 ^ 20) (hs : s.nextPaddr < 2 ^ 32) :
    v = s.nextPaddr ∧ t.nextPaddr = v + n * PAGE_SIZE ∧ v + n * PAGE_SIZE ≤ FREE_RAM_END ∧
      t.mem = s.mem.fill (phys v) (n * PAGE_SIZE) 0 := by
  have hok := h.ok
  have hmapped := h.mapped
  have hsize : n * PAGE_SIZE % 2 ^ 32 = n * PAGE_SIZE := by
    simp only [PAGE_SIZE]
    omega
  rw [allocPages_eq, hsize] at hok
  rw [hsize] at hmapped
  split at hok
  · rename_i hle
    obtain ⟨rfl, rfl⟩ := EStateM.Result.ok.inj hok
    -- a wrapped region would contain the last address, which is not mapped
    have hwrap : s.nextPaddr + n * PAGE_SIZE < 2 ^ 32 := by
      by_contra hge
      have hlast := hmapped (2 ^ 32 - 1 - s.nextPaddr) (by omega)
      rw [show s.nextPaddr + (2 ^ 32 - 1 - s.nextPaddr) = 2 ^ 32 - 1 by omega] at hlast
      unfold KernelMapped at hlast
      rw [KERNEL_BASE_eq] at hlast
      omega
    rw [Nat.mod_eq_of_lt hwrap] at hle
    exact ⟨rfl, Nat.mod_eq_of_lt hwrap, hle, rfl⟩
  · cases hok

/-- A mapped region is one piece of physical memory. -/
theorem phys_region {k : Nat} (hmapped : ∀ j < k, KernelMapped (v + j)) {j : Nat} (hj : j < k) :
    phys (v + j) = phys v + j := by
  have h0 := hmapped 0 (by omega)
  have hkb := KERNEL_BASE_eq
  unfold phys
  unfold KernelMapped at h0 hmapped
  by_cases hv : KERNEL_BASE ≤ v
  · rw [if_pos hv, if_pos (by omega)]
    omega
  · rw [if_neg hv]
    refine if_neg fun hge => ?_
    -- a region from the low to the high half would contain the first address between them
    have := hmapped (0x400000 - v) (by omega)
    omega

/-- The region of such a call: where the pointer was, and zero. -/
theorem Allocates.safeCall {l : Layout} (h : Allocates s n v t) (hn : n < 2 ^ 20)
    (hs : s.nextPaddr < 2 ^ 32) (hal : s.nextPaddr % PAGE_SIZE = 0)
    (hlo : l.freeRam ≤ s.nextPaddr) :
    SafeCall l n v t := by
  obtain ⟨hv, -, hend, hmem⟩ := h.exact hn hs
  have hsize : n * PAGE_SIZE % 2 ^ 32 = n * PAGE_SIZE := by
    simp only [PAGE_SIZE]
    omega
  refine ⟨hv ▸ hal, hv ▸ hlo, hend, fun x h1 h2 => ?_⟩
  have hmapped : ∀ j < n * PAGE_SIZE, KernelMapped (v + j) := by
    intro j hj
    have := h.mapped j (by omega)
    rwa [Nat.mod_eq_of_lt (by simp only [FREE_RAM_END] at hend; omega)] at this
  have hphys := phys_region hmapped (show x - v < n * PAGE_SIZE by omega)
  rw [show v + (x - v) = x by omega] at hphys
  rw [hmem, hphys]
  exact Mem.fill_in _ _ (by omega) (by omega)

end Call

/-- From any state, calls for less than 4 GiB each are safe, and their regions
lie one behind the other from the pointer on. -/
theorem safeRun_of_small {l : Layout} {s : Os} {ps : List ((Nat × Nat) × Os)}
    (hp : (allocator l).Path s ps) (hs : s.nextPaddr < 2 ^ 32)
    (hal : s.nextPaddr % PAGE_SIZE = 0) (hlo : l.freeRam ≤ s.nextPaddr)
    (hsmall : ∀ p ∈ ps, p.1.1 < 2 ^ 20) :
    SafeRun l ps ∧ ∀ p ∈ ps, s.nextPaddr ≤ p.1.2 := by
  induction ps generalizing s with
  | nil =>
    exact ⟨⟨fun _ h => absurd h List.not_mem_nil, .nil⟩, fun _ h => absurd h List.not_mem_nil⟩
  | cons p ps ih =>
    obtain ⟨⟨n, v⟩, t⟩ := p
    obtain ⟨⟨-, m, hret⟩, hps⟩ := hp
    have hn : n < 2 ^ 20 := hsmall _ List.mem_cons_self
    have hret : Allocates { s with mem := m } n v t := hret
    have hsafe := hret.safeCall hn hs hal hlo
    obtain ⟨hv, hnext, hend, -⟩ := hret.exact hn hs
    have hv : v = s.nextPaddr := hv
    have hfirst : s.nextPaddr ≤ v := Nat.le_of_eq hv.symm
    have hstep : s.nextPaddr ≤ t.nextPaddr := by omega
    have hal' : t.nextPaddr % PAGE_SIZE = 0 := by
      simp only [PAGE_SIZE] at hal hnext ⊢
      omega
    have hlt : t.nextPaddr < 2 ^ 32 := by
      simp only [FREE_RAM_END] at hend
      omega
    obtain ⟨⟨hall, hpair⟩, hbehind⟩ := ih hps hlt hal' (Nat.le_trans hlo hstep)
      fun q hq => hsmall q (List.mem_cons_of_mem _ hq)
    refine ⟨⟨List.forall_mem_cons.2 ⟨hsafe, hall⟩, List.pairwise_cons.2 ⟨fun q hq x _ h2 h3 => ?_,
      hpair⟩⟩, List.forall_mem_cons.2 ⟨hfirst, fun q hq => Nat.le_trans hstep (hbehind q hq)⟩⟩
    have hq' := hbehind q hq
    have h2' : x < v + n * PAGE_SIZE := h2
    omega

/-- A run of calls is safe exactly when each asks for less than 4 GiB. -/
theorem alloc_pages_safe_iff {l : Layout} (hal : l.freeRam % PAGE_SIZE = 0)
    (hlt : l.freeRam < 2 ^ 32) (m : Mem) {ps : List ((Nat × Nat) × Os)}
    (hp : (allocator l).Path (Os.boot l m) ps) :
    SafeRun l ps ↔ ∀ p ∈ ps, p.1.1 < 2 ^ 20 := by
  constructor
  · intro hsafe p hmem
    have := (hsafe.1 p hmem).le_end
    simp only [PAGE_SIZE, FREE_RAM_END] at this
    omega
  · intro hsmall
    exact (safeRun_of_small hp hlt hal (Nat.le_refl _) hsmall).1

/-- A call that returns, from what the function checks and what `memset` touches. -/
theorem allocates_of_le {s : Os} {n : Nat}
    (hle : (s.nextPaddr + n * PAGE_SIZE) % 2 ^ 32 ≤ FREE_RAM_END)
    (hmapped : ∀ k < n * PAGE_SIZE % 2 ^ 32, KernelMapped ((s.nextPaddr + k) % 2 ^ 32)) :
    ∃ t, Allocates s n s.nextPaddr t ∧ t.nextPaddr = (s.nextPaddr + n * PAGE_SIZE) % 2 ^ 32 := by
  have hok := allocPages_eq n s
  rw [if_pos hle] at hok
  exact ⟨_, ⟨hok, hmapped⟩, rfl⟩

/-- One page from free RAM at 0x80018000. -/
theorem onePage_allocates {s : Os} (h : s.nextPaddr = 0x80018000) :
    ∃ t, Allocates s 1 0x80018000 t := by
  have hret := allocates_of_le (s := s) (n := 1) (by rw [h]; decide) fun k hk => by
    have hk : k < 4096 := hk
    right
    rw [h, KERNEL_BASE_eq]
    omega
  rw [h] at hret
  obtain ⟨t, ht, -⟩ := hret
  exact ⟨t, ht⟩

theorem alloc_pages_safe_onePage :
    ∃ t, SafeRun smallKernel [((1, 0x80018000), t)] ↔
      ∀ p ∈ [(((1, 0x80018000) : Nat × Nat), t)], p.1.1 < 2 ^ 20 := by
  obtain ⟨t, ht⟩ := onePage_allocates (s := Os.boot smallKernel fun _ => 0) rfl
  exact ⟨t, alloc_pages_safe_iff (by decide) (by decide) (fun _ => 0)
    ⟨⟨by decide, fun _ => 0, ht⟩, trivial⟩⟩

/-- 2^20 pages are 0 bytes: the call returns, and the next one gets the same address. -/
theorem alloc_pages_product_wraps :
    ∃ t u, (allocator smallKernel).Path (Os.boot smallKernel fun _ => 0)
        [((0x100000, 0x80018000), t), ((1, 0x80018000), u)] ∧
      ¬ SafeRun smallKernel [((0x100000, 0x80018000), t), ((1, 0x80018000), u)] := by
  obtain ⟨t, ht, hnext⟩ := allocates_of_le (s := Os.boot smallKernel fun _ => 0) (n := 0x100000)
    (by decide) fun k hk => absurd hk (by decide +revert)
  have hnext : t.nextPaddr = 0x80018000 := hnext
  obtain ⟨u, hu⟩ := onePage_allocates hnext
  refine ⟨t, u, ⟨⟨by decide, fun _ => 0, ht⟩, ⟨by decide, t.mem, hu⟩, trivial⟩, fun hsafe => ?_⟩
  have hend : 0x80018000 + 0x100000 * PAGE_SIZE ≤ FREE_RAM_END :=
    (hsafe.1 _ List.mem_cons_self).le_end
  exact absurd hend (by decide)

end MiniKvm.Os1k
