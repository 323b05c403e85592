import MiniKvm.Vmm.Guests

/-!
# Descriptors and the cleanup of `main`

The process as `main` sees it, `set_raw_mode` and `init_kvm` on the way in,
and the three labels on the way out. `cleanup_vcpus` runs over all `num_vcpus`
entries of `vcpus[]`, whatever the setup loop has done with them; an entry that
it has not reached is still in its static zero state, where `vcpu_fd` is a
descriptor number like any other.

What a process owes is a list: the descriptors it has opened and not closed
(`Fds.Owes`). Every function of the setup keeps the account, and cleanup
settles it when the entries name exactly the descriptors on the list.
-/
namespace MiniKvm.Vmm

/-! ## The account of a process -/

/-- The process has open what it has inherited (`base`) and `own`; whatever
else it has opened, it has closed again, and nothing it opened was inherited. -/
structure Fds.Owes (base : List Nat) (f : Fds) (own : List Nat) : Prop where
  live : f.live.Perm (own ++ base)
  nodup : f.live.Nodup
  opens : ∀ fd ∈ f.opens, fd ∉ base
  closes : (f.opens.map Int.ofNat).Perm (f.closes ++ own.map Int.ofNat)

theorem Fds.owes_start {base : List Nat} (h : base.Nodup) : Fds.Owes base ⟨base, [], []⟩ [] :=
  ⟨List.Perm.refl _, h, fun _ h => absurd h List.not_mem_nil, List.Perm.refl _⟩

section Owes

variable {base own : List Nat} {f g : Fds}

theorem Fds.Owes.perm {own' : List Nat} (h : f.Owes base own) (hp : own.Perm own') :
    f.Owes base own' :=
  ⟨h.live.trans (hp.append_right base), h.nodup, h.opens,
    h.closes.trans ((hp.map Int.ofNat).append_left f.closes)⟩

theorem Fds.Owes.not_base (h : f.Owes base own) {fd : Nat} (hfd : fd ∉ f.live) : fd ∉ base :=
  fun hb =>
  hfd (h.live.mem_iff.2 (List.mem_append_right own hb))

theorem Fds.Owes.open (h : f.Owes base own) : f.open.Owes base (freshFd f.live :: own) := by
  have hfresh := freshFd_notMem f.live
  refine ⟨h.live.cons _, List.nodup_cons.2 ⟨hfresh, h.nodup⟩, fun fd hfd => ?_, ?_⟩
  · rcases List.mem_append.1 hfd with hfd | hfd
    · exact h.opens fd hfd
    · rw [List.mem_singleton.1 hfd]
      exact h.not_base hfresh
  · show ((f.opens ++ [freshFd f.live]).map Int.ofNat).Perm
      (f.closes ++ (freshFd f.live :: own).map Int.ofNat)
    rw [List.map_append, List.map_cons, List.map_cons]
    exact (h.closes.append_right _).trans (by
      rw [List.append_assoc]
      exact (List.perm_append_comm).append_left _)

theorem Fds.Owes.filesOnly (h : f.Owes base own) (hg : f.FilesOnly g) : g.Owes base own := by
  obtain ⟨hlive, l, hl, hopens, hcloses⟩ := hg
  refine ⟨hlive ▸ h.live, hlive ▸ h.nodup, fun fd hfd => ?_, ?_⟩
  · rw [hopens] at hfd
    rcases List.mem_append.1 hfd with hfd | hfd
    · exact h.opens fd hfd
    · exact h.not_base (hl fd hfd)
  · rw [hopens, hcloses, List.map_append, List.append_assoc]
    refine (h.closes.append_right _).trans ?_
    rw [List.append_assoc]
    exact List.perm_append_comm.append_left _

/-- Closing a descriptor of the list strikes it off. -/
theorem Fds.Owes.close {fd : Nat} (h : f.Owes base (fd :: own)) : (f.close fd).Owes base own := by
  have hclose :
      f.close fd = { f with live := f.live.erase fd, closes := f.closes ++ [(fd : Int)] } := by
    simp [Fds.close]
  rw [hclose]
  refine ⟨?_, h.nodup.erase fd, h.opens, ?_⟩
  · have := h.live.erase fd
    rwa [List.cons_append, List.erase_cons_head] at this
  · rw [List.append_assoc]
    exact h.closes

end Owes

/-! ## `close` where the number is not negative -/

/-- `if (fd >= 0) close(fd);` -/
def Fds.closeIf (f : Fds) (fd : Int) : Fds := if 0 ≤ fd then f.close fd else f

def Fds.closeAll (f : Fds) (fds : List Int) : Fds := fds.foldl Fds.closeIf f

/-- The numbers in `fds` that are not negative are the descriptors `own`. -/
def Names (fds : List Int) (own : List Nat) : Prop := fds.filter (0 ≤ ·) = own.map Int.ofNat

theorem Fds.closeAll_closes (f : Fds) (fds : List Int) :
    (f.closeAll fds).closes = f.closes ++ fds.filter (0 ≤ ·) := by
  induction fds generalizing f with
  | nil => simp [Fds.closeAll]
  | cons fd fds ih =>
    rw [Fds.closeAll, List.foldl_cons, ← Fds.closeAll, ih, Fds.closeIf]
    by_cases hfd : 0 ≤ fd
    · rw [if_pos hfd, List.filter_cons_of_pos (by simpa using hfd)]
      simp [Fds.close]
    · rw [if_neg hfd, List.filter_cons_of_neg (by simpa using hfd)]

/-- Numbers that name the first descriptors on the list settle these. -/
theorem Fds.Owes.closeAll {base own rest : List Nat} {f : Fds} {fds : List Int}
    (h : f.Owes base (own ++ rest)) (hn : Names fds own) : (f.closeAll fds).Owes base rest := by
  induction fds generalizing f own with
  | nil =>
    obtain rfl : own = [] := by simpa [Names] using hn
    exact h
  | cons fd fds ih =>
    rw [Fds.closeAll, List.foldl_cons, Fds.closeIf]
    by_cases hfd : 0 ≤ fd
    · rw [Names, List.filter_cons_of_pos (by simpa using hfd)] at hn
      cases own with
      | nil => cases hn
      | cons o own =>
        rw [List.map_cons, List.cons.injEq] at hn
        obtain ⟨rfl, hn⟩ := hn
        rw [if_pos hfd]
        exact ih (Fds.Owes.close h) hn
    · rw [Names, List.filter_cons_of_neg (by simpa using hfd)] at hn
      rw [if_neg hfd]
      exact ih h hn

/-! ## The process -/

/-- What `cleanup_vcpu` unmaps. -/
inductive Region where
  | kvmRun | guestMem
  deriving DecidableEq, Repr

/-- The globals of `main` beside the vCPUs, the terminal behind descriptor 0,
and what `munmap` and the `tcsetattr` of `restore_terminal` were called for. -/
structure Proc extends Host where
  kvmFd : Int := -1
  vmFd : Int := -1
  termiosSaved : Bool := false
  /-- `set_raw_mode` has changed the terminal. -/
  rawMode : Bool := false
  /-- For each call of `tcsetattr`, whether descriptor 0 was open. -/
  restores : List Bool := []
  munmaps : List (Nat × Region) := []

/-- What the process was started with: the standard streams, and anything else. -/
structure Inherited where
  fds : List Nat
  nodup : fds.Nodup
  std : ∀ fd ≤ 2, fd ∈ fds

def Proc.init (base : Inherited) : Proc := { fds := ⟨base.fds, [], []⟩ }

structure TermCalls where
  isatty : Bool
  tcgetattr : Bool
  tcsetattr : Bool

/-- mirrors kvm-vmm-x86/src/main.c:427-472 -/
def setRawMode (k : TermCalls) (p : Proc) : Proc :=
  if !k.isatty then p
  else if !k.tcgetattr then p
  else if !k.tcsetattr then { p with termiosSaved := false }
  else { p with termiosSaved := true, rawMode := true }

/-- mirrors kvm-vmm-x86/src/main.c:477-484 -/
def restoreTerminal (p : Proc) : Proc :=
  if p.termiosSaved then
    { p with termiosSaved := false, restores := p.restores ++ [decide (0 ∈ p.fds.live)] }
  else p

/-- KVM_SET_TSS_ADDR and KVM_CREATE_IRQCHIP only warn when they fail. -/
structure KvmCalls where
  openDev : Bool
  apiVersion : Int
  createVm : Bool

def KVM_API_VERSION : Int := 12

/-- mirrors kvm-vmm-x86/src/main.c:548-616 -/
def initKvm (k : KvmCalls) (p : Proc) : Bool × Proc :=
  if !k.openDev then (false, { p with kvmFd := -1 })
  else
    let p := { p with kvmFd := freshFd p.fds.live, fds := p.fds.open }
    if k.apiVersion ≠ KVM_API_VERSION then (false, p)
    else if !k.createVm then (false, { p with vmFd := -1 })
    else (true, { p with vmFd := freshFd p.fds.live, fds := p.fds.open })

/-- mirrors kvm-vmm-x86/src/main.c:2662-2676 -/
def cleanupVcpu (p : Proc) (i : Nat) : Proc :=
  let c := p.vcpus i
  let p := if c.kvmRun = .mapped then { p with munmaps := p.munmaps ++ [(i, .kvmRun)] } else p
  let p := if c.guestMem = .mapped then { p with munmaps := p.munmaps ++ [(i, .guestMem)] } else p
  { p with fds := p.fds.closeIf c.vcpuFd }

/-- From the label `cleanup_early` on.
mirrors kvm-vmm-x86/src/main.c:3250-3260 -/
def cleanupEarly (p : Proc) : Proc :=
  let p := restoreTerminal p
  let p := { p with fds := p.fds.closeIf p.vmFd }
  { p with fds := p.fds.closeIf p.kvmFd }

/-- From the label `cleanup_vcpus` on.
mirrors kvm-vmm-x86/src/main.c:3243-3260 -/
def cleanupVcpus (numVcpus : Nat) (p : Proc) : Proc :=
  cleanupEarly ((List.range numVcpus).foldl cleanupVcpu p)

/-! ## What cleanup closes -/

/-- `vcpu_fd` of the first `n` entries. -/
def Host.vcpuFds (h : Host) (n : Nat) : List Int := (List.range n).map fun j => (h.vcpus j).vcpuFd

theorem Host.vcpuFds_succ (h : Host) (n : Nat) :
    h.vcpuFds (n + 1) = h.vcpuFds n ++ [(h.vcpus n).vcpuFd] := by
  rw [Host.vcpuFds, Host.vcpuFds, List.range_succ, List.map_append]
  rfl

theorem cleanupVcpu_spec (p : Proc) (i : Nat) :
    (cleanupVcpu p i).fds = p.fds.closeIf (p.vcpus i).vcpuFd ∧ (cleanupVcpu p i).vcpus = p.vcpus ∧
      (cleanupVcpu p i).kvmFd = p.kvmFd ∧ (cleanupVcpu p i).vmFd = p.vmFd ∧
      (cleanupVcpu p i).termiosSaved = p.termiosSaved ∧ (cleanupVcpu p i).restores =
        p.restores := by
  unfold cleanupVcpu
  simp only
  split <;> split <;> exact ⟨rfl, rfl, rfl, rfl, rfl, rfl⟩

/-- The loop over the entries. -/
theorem cleanupVcpu_loop (p : Proc) (n : Nat) :
    let q := (List.range n).foldl cleanupVcpu p
    q.fds = p.fds.closeAll (p.vcpuFds n) ∧ q.vcpus = p.vcpus ∧ q.kvmFd = p.kvmFd ∧ q.vmFd = p.vmFd ∧
      q.termiosSaved = p.termiosSaved ∧ q.restores = p.restores := by
  induction n with
  | zero => exact ⟨rfl, rfl, rfl, rfl, rfl, rfl⟩
  | succ n ih =>
    rw [List.range_succ, List.foldl_append, List.foldl_cons, List.foldl_nil]
    obtain ⟨h1, h2, h3, h4, h5, h6⟩ := ih
    obtain ⟨g1, g2, g3, g4, g5, g6⟩ := cleanupVcpu_spec ((List.range n).foldl cleanupVcpu p) n
    refine ⟨?_, g2.trans h2, g3.trans h3, g4.trans h4, g5.trans h5, g6.trans h6⟩
    rw [g1, h1, h2, Host.vcpuFds_succ, Fds.closeAll, Fds.closeAll, List.foldl_append]
    rfl

/-- `restore_terminal` between the two halves of the closing. -/
theorem cleanupVcpus_spec (n : Nat) (p : Proc) :
    (cleanupVcpus n p).fds = (p.fds.closeAll (p.vcpuFds n)).closeAll [p.vmFd, p.kvmFd] ∧
      (cleanupVcpus n p).restores = p.restores ++
        if p.termiosSaved then [decide (0 ∈ (p.fds.closeAll (p.vcpuFds n)).live)] else [] := by
  obtain ⟨h1, -, h3, h4, h5, h6⟩ := cleanupVcpu_loop p n
  unfold cleanupVcpus cleanupEarly restoreTerminal
  simp only [h5]
  split
  · simp only [h1, h3, h4, h6]
    exact ⟨rfl, trivial⟩
  · simp only [h1, h3, h4, h6, List.append_nil]
    exact ⟨rfl, trivial⟩

/-! ## Hygiene -/

/-- From `p`, where cleanup starts, to `q`, where the process ends. -/
structure Hygienic (base : List Nat) (p q : Proc) : Prop where
  /-- Cleanup closes what is open beyond the inherited descriptors, each once. -/
  cleanup : ∃ own : List Nat, p.fds.live.Perm (own ++ base) ∧ own.Nodup ∧
    q.fds.closes = p.fds.closes ++ own.map Int.ofNat
  /-- Over the whole run as many closes as opens of each number. -/
  balanced : (q.fds.opens.map Int.ofNat).Perm q.fds.closes
  live : q.fds.live.Perm base
  std : ∀ fd ∈ q.fds.closes, 2 < fd
  /-- The terminal is restored once, through an open descriptor. -/
  terminal : p.rawMode = true → q.restores = [true]

/-- The terminal as `set_raw_mode` leaves it. -/
structure Entered (p : Proc) : Prop where
  saved : p.termiosSaved = p.rawMode
  restores : p.restores = []

/-- Where the entries name exactly what the process owes besides `kvm_fd` and
`vm_fd`, cleanup is hygienic. -/
theorem hygienic_cleanupVcpus (base : Inherited) {p : Proc} {n : Nat} {own rest : List Nat}
    (he : Entered p) (h : p.fds.Owes base.fds (own ++ rest)) (hv : Names (p.vcpuFds n) own)
      (hk : Names [p.vmFd, p.kvmFd] rest) :
    Hygienic base.fds p (cleanupVcpus n p) := by
  obtain ⟨hfds, hres⟩ := cleanupVcpus_spec n p
  have h1 := h.closeAll hv
  have h2 : (cleanupVcpus n p).fds.Owes base.fds [] := by
    rw [hfds]
    exact Fds.Owes.closeAll (by rwa [List.append_nil]) hk
  have hbal : ((cleanupVcpus n p).fds.opens.map Int.ofNat).Perm (cleanupVcpus n p).fds.closes := by
    simpa using h2.closes
  refine ⟨⟨own ++ rest, h.live, ?_, ?_⟩, hbal, h2.live, fun fd hfd => ?_, fun hraw => ?_⟩
  · exact (List.nodup_append.1 (h.live.nodup_iff.1 h.nodup)).1
  · rw [hfds, Fds.closeAll_closes, Fds.closeAll_closes, hv, hk, List.map_append, List.append_assoc]
  · obtain ⟨x, hx, rfl⟩ := List.mem_map.1 (hbal.mem_iff.2 hfd)
    have : ¬ x ≤ 2 := fun hle => h2.opens x hx (base.std x hle)
    show (2 : Int) < (x : Int)
    omega
  · have hmem : 0 ∈ (p.fds.closeAll (p.vcpuFds n)).live :=
      h1.live.mem_iff.2 (List.mem_append_right _ (base.std 0 (by omega)))
    rw [hres, he.restores, he.saved, hraw]
    simp [hmem]

/-- An entry that names descriptor 0 makes cleanup close it. -/
theorem not_hygienic_of_zero {base : List Nat} {p : Proc} {n j : Nat} (hj : j < n)
    (h0 : (p.vcpus j).vcpuFd = 0) :
    ¬ Hygienic base p (cleanupVcpus n p) := fun h => by
  have hmem : (0 : Int) ∈ (p.vcpuFds n).filter (0 ≤ ·) := by
    rw [List.mem_filter]
    exact ⟨List.mem_map.2 ⟨j, List.mem_range.2 hj, h0⟩, by decide⟩
  have := h.std 0 (by
    rw [(cleanupVcpus_spec n p).1, Fds.closeAll_closes, Fds.closeAll_closes]
    exact List.mem_append_left _ (List.mem_append_right _ hmem))
  omega

end MiniKvm.Vmm
