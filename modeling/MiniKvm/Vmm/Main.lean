import MiniKvm.Linux.Integrity
import MiniKvm.Vmm.Cleanup

/-!
# `main` and its descriptors

`main` from the accepted command line to the labels, with the answers of the
host to every call on the way as parameters. The threads it starts between
setup and cleanup open and close no descriptor and are left out here.

`hygienic_iff` says for which answers the process closes what it has opened
and nothing else.
-/
namespace MiniKvm.Vmm

open Linux

/-! ## Calls that succeed -/

def CpuidCalls.Succeed (k : CpuidCalls) : Prop :=
  k.calloc = true ∧ k.getSupported = true ∧ k.setCpuid2 = true

/-- The file is there, fits, and is read in one piece. -/
def LoadCalls.Succeed (k : LoadCalls) (offset memSize : Nat) : Prop :=
  ∃ f, k.fopen = some f ∧ k.ftell = true ∧ f.bytes.length + offset ≤ memSize ∧
    f.bytes.length ≤ k.nread

/-- The calls of the mode that follow the real-mode state. -/
def VcpuCalls.ModeSucceed (k : VcpuCalls) : Mode → Prop
  | .real => True
  | .paging => k.modeGetSregs = true ∧ k.modeSetSregs = true ∧ k.modeSetRegs = true
  | .longMode =>
    k.modeCpuid.Succeed ∧ k.modeGetSregs = true ∧ k.modeSetSregs = true ∧ k.modeSetRegs = true

def VcpuCalls.Succeed (k : VcpuCalls) (m : Mode) : Prop :=
  (k.mmapMem = true ∧ k.setMemoryRegion = true) ∧
    (k.createVcpu = true ∧ k.getVcpuMmapSize = true ∧ k.mmapRun = true ∧ k.getSregs = true) ∧
    (k.setSregs = true ∧ k.cpuid.Succeed ∧ k.setRegs = true ∧ k.setMpState = true) ∧ k.ModeSucceed m

/-- Nothing in the setup of this guest fails. -/
def GuestCalls.Succeed (o : Opts) (k : GuestCalls) : Prop :=
  k.load.Succeed (initContext o 0).loadOffset.toNat o.mode.memSize ∧ k.vcpu.Succeed o.mode

def KvmCalls.Succeed (k : KvmCalls) : Prop :=
  k.openDev = true ∧ k.apiVersion = KVM_API_VERSION ∧ k.createVm = true

/-! ## The command line -/

/-- An accepted command line, with the host's answers for what it names. -/
inductive Command where
  | linux (o : LinuxOpts) (k : LinuxCalls)
  | guests (o : Opts) (ks : List GuestCalls) (accepted : 0 < ks.length ∧ ks.length ≤ MAX_VCPUS)

def Command.numVcpus : Command → Nat
  | .linux _ _ => 1
  | .guests _ ks _ => ks.length

/-- `enable_paging || linux_boot`. -/
def Command.interactive : Command → Bool
  | .linux _ _ => true
  | .guests o _ _ => o.mode.enablePaging

/-- mirrors kvm-vmm-x86/src/main.c:3010-3167 -/
def Command.setup : Command → Host → Bool × Host
  | .linux o k, h =>
    match setupLinux o k (St.enter h.fds (initLinuxContext o)) with
    | .ok _ s => (true, h.put 0 s)
    | .error _ s => (false, h.put 0 s)
  | .guests o ks _, h => setupGuests o ks 0 h

structure MainCalls where
  term : TermCalls
  kvm : KvmCalls

inductive Label where
  | cleanupVcpus | cleanupEarly
  deriving DecidableEq, Repr

/-- Up to the labels. Where the setup succeeds, the threads run before the jump.
mirrors kvm-vmm-x86/src/main.c:2997-3241 -/
def Command.start (cmd : Command) (k : MainCalls) (p : Proc) : Label × Proc :=
  let p := if cmd.interactive then setRawMode k.term p else p
  match initKvm k.kvm p with
  | (false, p) => (.cleanupEarly, p)
  | (true, p) => (.cleanupVcpus, { p with toHost := (cmd.setup p.toHost).2 })

/-- mirrors kvm-vmm-x86/src/main.c:3243-3262 -/
def cleanup (cmd : Command) : Label → Proc → Proc
  | .cleanupVcpus, p => cleanupVcpus cmd.numVcpus p
  | .cleanupEarly, p => cleanupEarly p

/-! ## One guest -/

theorem setupVcpuMemory_succeed (k : VcpuCalls) (s : St) :
    wp (setupVcpuMemory k) (fun _ _ => k.mmapMem = true ∧ k.setMemoryRegion = true)
      (fun _ _ => ¬ (k.mmapMem = true ∧ k.setMemoryRegion = true)) s := by
  cases h : k.mmapMem <;> simp [setupVcpuMemory, h]

theorem loadGuestBinary_succeed (k : LoadCalls) (s : St) :
    wp (loadGuestBinary k) (fun _ _ => k.Succeed s.ctx.loadOffset.toNat s.ctx.memSize)
      (fun _ _ => ¬ k.Succeed s.ctx.loadOffset.toNat s.ctx.memSize) s := by
  unfold loadGuestBinary LoadCalls.Succeed
  split
  · rename_i hf
    rw [wp_throw]
    rintro ⟨f, hf', -⟩
    rw [hf] at hf'
    cases hf'
  · rename_i f hf
    have hlt : (f.bytes.length + s.ctx.loadOffset.toNat) % 2 ^ 64 =
        f.bytes.length + s.ctx.loadOffset.toNat := by
      have h1 := f.size_lt
      have h2 := s.ctx.loadOffset.toNat_lt
      omega
    simp only [wp_bind, wp_openFd, wp_ite, wp_closeFd, wp_throw, wp_get, wp_updMem, hlt, hf,
      Option.some.injEq, exists_eq_left']
    refine ⟨fun ht h => ?_, fun ht => ⟨fun hle h => ?_, fun hle => ⟨fun hn h => ?_, fun hn => ?_⟩⟩⟩
    · rw [h.1] at ht
      cases ht
    · omega
    · omega
    · exact ⟨by simpa using ht, by omega, by omega⟩

theorem createVcpu_succeed (k : VcpuCalls) (s : St) :
    wp (createVcpu k)
      (fun _ _ => k.createVcpu = true ∧ k.getVcpuMmapSize = true ∧ k.mmapRun = true ∧
        k.getSregs = true)
      (fun _ _ =>
        ¬ (k.createVcpu = true ∧ k.getVcpuMmapSize = true ∧ k.mmapRun = true ∧ k.getSregs = true))
        s := by
  cases hc : k.createVcpu <;> cases hm : k.getVcpuMmapSize <;> cases hr : k.mmapRun <;>
    simp [createVcpu, hc, hm, hr]

theorem CpuidCalls.succeed_iff (k : CpuidCalls) : k.Succeed ↔
    (k.calloc && k.getSupported && k.setCpuid2) = true := by
  simp [CpuidCalls.Succeed, and_assoc]

theorem configureRealMode_succeed (k : VcpuCalls) (sr : Sregs) (s : St) :
    wp (configureRealMode k sr)
      (fun _ _ => k.setSregs = true ∧ k.cpuid.Succeed ∧ k.setRegs = true ∧ k.setMpState = true)
      (fun _ _ => ¬ (k.setSregs = true ∧ k.cpuid.Succeed ∧ k.setRegs = true ∧ k.setMpState = true))
        s := by
  rw [k.cpuid.succeed_iff]
  cases h1 : k.setSregs <;>
    cases h2 : k.cpuid.calloc && k.cpuid.getSupported && k.cpuid.setCpuid2 <;>
    cases h3 : k.setRegs <;> simp [configureRealMode, h1, h2, h3]

/-- The tables of a paging guest fit in its 4 MiB. -/
theorem setupPageTables_paging (m : Mem) : ∃ r, setupPageTables Mode.paging.memSize m = some r := by
  unfold setupPageTables
  rw [if_neg (by decide)]
  exact ⟨_, rfl⟩

theorem configureProtectedMode_succeed (k : VcpuCalls) {s : St}
    (hs : s.ctx.memSize = Mode.paging.memSize) :
    wp (configureProtectedMode k) (fun _ _ => k.ModeSucceed .paging)
      (fun _ _ => ¬ k.ModeSucceed .paging) s := by
  simp only [configureProtectedMode, wp_bind, wp_updMem, wp_get, hs, VcpuCalls.ModeSucceed]
  obtain ⟨r, hr⟩ := setupPageTables_paging (setupIdt (setupGdt s.mem))
  rw [hr]
  cases h1 : k.modeGetSregs <;> cases h2 : k.modeSetSregs <;> simp

theorem setupVcpuLongmode_succeed (k : VcpuCalls) (s : St) :
    wp (setupVcpuLongmode k) (fun _ _ => k.ModeSucceed .longMode)
      (fun _ _ => ¬ k.ModeSucceed .longMode) s := by
  simp only [VcpuCalls.ModeSucceed, k.modeCpuid.succeed_iff]
  cases h1 : k.modeGetSregs <;> cases h2 : k.modeSetSregs <;>
    cases h3 : k.modeCpuid.calloc && k.modeCpuid.getSupported && k.modeCpuid.setCpuid2 <;>
    simp [setupVcpuLongmode, h1, h2, h3]

/-- The context of a guest in mode `m` whose memory has been set up. -/
structure InMode (m : Mode) (c : Vcpu) : Prop where
  longMode : c.longMode = m.enableLongMode
  usePaging : c.usePaging = m.enablePaging
  linuxGuest : c.linuxGuest = false
  memSize : c.memSize = m.memSize

theorem setupGuestMode_succeed (k : VcpuCalls) {m : Mode} {s : St} (hs : InMode m s.ctx) :
    let ok := (k.setSregs = true ∧ k.cpuid.Succeed ∧ k.setRegs = true ∧ k.setMpState = true) ∧
      k.ModeSucceed m
    wp (setupGuestMode k k.resetSregs.sregs) (fun _ _ => ok) (fun _ _ => ¬ ok) s := by
  intro ok
  unfold setupGuestMode
  rw [wp_bind]
  refine wp_mono (wp_and (configureRealMode_wp k _ s) (configureRealMode_succeed k _ s))
    (fun _ s1 h1 => ?_)
    fun _ _ h hok => h.2 hok.1
  obtain ⟨⟨⟨-, hctx⟩, -⟩, hreal⟩ := h1
  have hok : ok ↔ k.ModeSucceed m := and_iff_right hreal
  rw [wp_bind, wp_get, hctx, hs.longMode, hs.usePaging, hok]
  cases m with
  | real => exact trivial
  | paging =>
    refine configureProtectedMode_succeed k ?_
    rw [hctx, hs.memSize]
  | longMode => exact setupVcpuLongmode_succeed k s1

theorem setupVcpuContext_succeed (k : VcpuCalls) {m : Mode} {s : St} (hs : InMode m s.ctx) :
    let ok :=
      (k.createVcpu = true ∧ k.getVcpuMmapSize = true ∧ k.mmapRun = true ∧ k.getSregs = true) ∧
      (k.setSregs = true ∧ k.cpuid.Succeed ∧ k.setRegs = true ∧ k.setMpState = true) ∧
        k.ModeSucceed m
    wp (setupVcpuContext k) (fun _ _ => ok) (fun _ _ => ¬ ok) s := by
  intro ok
  unfold setupVcpuContext
  rw [wp_bind]
  refine wp_mono (wp_and (createVcpu_wp k s) (createVcpu_succeed k s)) (fun sr s1 h1 => ?_)
    fun _ _ h hok => h.2 hok.1
  obtain ⟨⟨rfl, -, hctx, -⟩, hcreate⟩ := h1
  have hok : ok ↔ _ := and_iff_right hcreate
  have hs1 : InMode m s1.ctx := by
    rw [hctx]
    exact ⟨hs.longMode, hs.usePaging, hs.linuxGuest, hs.memSize⟩
  rw [wp_bind, wp_get, wp_bind, hs1.linuxGuest, hok]
  exact wp_mono (setupGuestMode_succeed k hs1) (fun _ _ h => (wp_upd _).2 h) fun _ _ h => h

/-- The setup of a guest succeeds exactly when its calls do. -/
theorem setupGuest_succeed (o : Opts) (k : GuestCalls) (i : Nat) (fds : Fds) :
    wp (setupGuest k) (fun _ _ => k.Succeed o) (fun _ _ => ¬ k.Succeed o)
      (St.enter fds (initContext o i)) := by
  unfold setupGuest
  rw [wp_bind]
  refine wp_mono (wp_and (setupVcpuMemory_wp _ _) (setupVcpuMemory_succeed _ _)) (fun _ s1 h1 => ?_)
    fun _ _ h hok => h.2 hok.2.1
  obtain ⟨⟨-, hc1, -⟩, hmem⟩ := h1
  rw [wp_bind]
  have hload :
      s1.ctx.loadOffset = (initContext o 0).loadOffset ∧ s1.ctx.memSize = o.mode.memSize := by
    rw [hc1]
    exact ⟨rfl, rfl⟩
  refine wp_mono (wp_and (loadGuestBinary_wp _ _) (loadGuestBinary_succeed _ _)) (fun _ s2 h2 => ?_)
    fun _ _ h hok => h.2 (by rw [hload.1, hload.2]; exact hok.1)
  obtain ⟨⟨⟨-, hc2⟩, -⟩, hloaded⟩ := h2
  rw [hload.1, hload.2] at hloaded
  have hs : InMode o.mode s2.ctx := by
    rw [hc2, hc1]
    exact ⟨rfl, rfl, rfl, rfl⟩
  exact wp_mono (setupVcpuContext_succeed k.vcpu hs) (fun _ _ h =>
    ⟨hloaded, hmem, h⟩) fun _ _ h hok => h hok.2.2

/-! ## The setup loop -/

section Loop

variable {base own rest : List Nat} {h : Host}

theorem Host.put_vcpuFds (h : Host) (i : Nat) (s : St) :
    (h.put i s).vcpuFds (i + 1) = h.vcpuFds i ++ [s.ctx.vcpuFd] := by
  rw [Host.vcpuFds_succ, Host.put]
  simp only [Function.update_self, Host.vcpuFds]
  congr 1
  refine List.map_congr_left fun j hj => ?_
  have := List.mem_range.1 hj
  rw [Function.update_of_ne (by omega)]

/-- Whatever way the setup of entry `i` ends, the entry names what it has opened. -/
theorem Host.put_owes {i : Nat} {c : Vcpu} {s : St} (ho : h.fds.Owes base (own ++ rest))
    (hn : Names (h.vcpuFds i) own) (hs : (St.enter h.fds c).Aborted s) :
    ∃ own', (h.put i s).fds.Owes base (own' ++ rest) ∧
      Names ((h.put i s).vcpuFds (i + 1)) own' := by
  rw [Host.put_vcpuFds]
  rcases hs with ⟨hf, hfd⟩ | ⟨mid, hf, hopen, hfd⟩
  · refine ⟨own, ho.filesOnly hf, ?_⟩
    rw [Names, List.filter_append, hn, hfd]
    simp
  · refine ⟨own ++ [freshFd mid.live], ?_, ?_⟩
    · have hmid : mid.Owes base (own ++ rest) := ho.filesOnly hf
      have := hmid.open
      rw [← hopen] at this
      refine this.perm ?_
      rw [List.append_assoc]
      exact List.perm_middle.symm
    · rw [Names, List.filter_append, hn, hfd, List.map_append]
      simp

/-- The loop tries `m` guests, all of them if only the last one can fail; the
entries from `i + m` on stay as they were. -/
theorem setupGuests_owes (o : Opts) (ks : List GuestCalls) (i : Nat)
    (ho : h.fds.Owes base (own ++ rest)) (hn : Names (h.vcpuFds i) own) :
    ∃ m own', m ≤ ks.length ∧ (setupGuests o ks i h).2.fds.Owes base (own' ++ rest) ∧
      Names ((setupGuests o ks i h).2.vcpuFds (i + m)) own' ∧
      (∀ j, i + m ≤ j → (setupGuests o ks i h).2.vcpus j = h.vcpus j) ∧
      (m = ks.length ↔ ∀ k ∈ ks.dropLast, k.Succeed o) := by
  induction ks generalizing i h own with
  | nil => exact ⟨0, own, Nat.le_refl _, ho, hn, fun _ _ => rfl, by simp⟩
  | cons k ks ih =>
    have hother : ∀ s j, i + 1 ≤ j → (h.put i s).vcpus j = h.vcpus j := fun s j hj =>
      Function.update_of_ne (by omega) _ _
    have hwp := wp_and (setupGuest_wp o k i h.fds) (setupGuest_succeed o k i h.fds)
    rw [setupGuests]
    cases hk : setupGuest k (St.enter h.fds (initContext o i)) with
    | ok _ s =>
      obtain ⟨⟨hs, -⟩, hsucc⟩ := wp_ok hwp hk
      obtain ⟨own1, ho1, hn1⟩ := Host.put_owes ho hn (Or.inr hs)
      obtain ⟨m, own', hm, ho', hn', hrest, hall⟩ := ih (i + 1) ho1 hn1
      have hidx : i + (m + 1) = i + 1 + m := by omega
      refine ⟨m + 1, own', Nat.succ_le_succ hm, ho', by rw [hidx]; exact hn', fun j hj => ?_, ?_⟩
      · exact (hrest j (by omega)).trans (hother s j (by omega))
      · rw [List.length_cons, Nat.succ_inj, hall]
        cases ks with
        | nil => simp
        | cons k' ks => simp [hsucc]
    | error _ s =>
      obtain ⟨hs, hfail⟩ := wp_error hwp hk
      obtain ⟨own1, ho1, hn1⟩ := Host.put_owes ho hn hs
      refine ⟨1, own1, Nat.succ_le_succ (Nat.zero_le _), ho1, hn1, fun j hj => hother s j hj, ?_⟩
      cases ks with
      | nil => simp
      | cons k' ks => simp [hfail]

end Loop

/-! ## The way to the labels -/

theorem setRawMode_spec (k : TermCalls) (base : Inherited) :
    let p := setRawMode k (.init base)
    p.fds = (Proc.init base).fds ∧ p.vmFd = -1 ∧ p.vcpus = (Proc.init base).vcpus ∧ Entered p := by
  unfold setRawMode
  simp only
  split
  · exact ⟨rfl, rfl, rfl, rfl, rfl⟩
  · split
    · exact ⟨rfl, rfl, rfl, rfl, rfl⟩
    · split <;> exact ⟨rfl, rfl, rfl, rfl, rfl⟩

theorem initKvm_spec (k : KvmCalls) {base : List Nat} {p : Proc} (ho : p.fds.Owes base [])
    (hv : p.vmFd = -1) (he : Entered p) :
    ((initKvm k p).1 = true ↔ k.Succeed) ∧ (initKvm k p).2.vcpus = p.vcpus ∧
      Entered (initKvm k p).2 ∧
      ∃ rest, (initKvm k p).2.fds.Owes base rest ∧ Names [(initKvm k p).2.vmFd,
        (initKvm k p).2.kvmFd] rest := by
  have ho1 := ho.open
  have ho2 := ho1.open
  unfold initKvm KvmCalls.Succeed
  cases h1 : k.openDev with
  | false => exact ⟨by simp, rfl, ⟨he.saved, he.restores⟩, [], ho, by simp [Names, hv]⟩
  | true =>
    by_cases h2 : k.apiVersion = KVM_API_VERSION
    · cases h3 : k.createVm with
      | false =>
        simp only [Bool.not_true, Bool.false_eq_true, if_false, h2, ne_eq, not_true, Bool.not_false,
          if_true]
        exact ⟨by simp, trivial, ⟨he.saved, he.restores⟩, _, ho1, by simp [Names]⟩
      | true =>
        simp only [Bool.not_true, Bool.false_eq_true, if_false, h2, ne_eq, not_true]
        exact ⟨by simp, trivial, ⟨he.saved, he.restores⟩, _, ho2, by simp [Names]⟩
    · simp only [Bool.not_true, Bool.false_eq_true, if_false, h2, ne_eq, not_false_iff, if_true]
      exact ⟨by simp, trivial, ⟨he.saved, he.restores⟩, _, ho1, by simp [Names, hv]⟩

/-- Every guest but the last one is set up; a Linux guest is the only one. -/
def Command.AllButLastSucceed : Command → Prop
  | .linux _ _ => True
  | .guests o ks _ => ∀ k ∈ ks.dropLast, k.Succeed o

/-- What the setup leaves in the entries: `m` of them name what it has opened. -/
theorem Command.setup_owes (cmd : Command) {base rest : List Nat} {h : Host}
    (ho : h.fds.Owes base rest) :
    ∃ m own, m ≤ cmd.numVcpus ∧ (cmd.setup h).2.fds.Owes base (own ++ rest) ∧
      Names ((cmd.setup h).2.vcpuFds m) own ∧ (∀ j, m ≤ j → (cmd.setup h).2.vcpus j = h.vcpus j) ∧
      (m = cmd.numVcpus ↔ cmd.AllButLastSucceed) := by
  have hn : Names (h.vcpuFds 0) [] := rfl
  have ho : h.fds.Owes base ([] ++ rest) := ho
  cases cmd with
  | linux o k =>
    have hs := setupLinux_wp o k h.fds
    have hone : ∀ s, (St.enter h.fds (initLinuxContext o)).Aborted s → ∃ m own, m ≤ 1 ∧
        (h.put 0 s).fds.Owes base (own ++ rest) ∧ Names ((h.put 0 s).vcpuFds m) own ∧
        (∀ j, m ≤ j → (h.put 0 s).vcpus j = h.vcpus j) ∧ (m = 1 ↔ True) := fun s hs => by
      obtain ⟨own, ho', hn'⟩ := Host.put_owes ho hn hs
      exact ⟨1, own, Nat.le_refl _, ho', hn',
        fun j hj => Function.update_of_ne (by omega) _ _, by simp⟩
    rw [Command.setup]
    cases hl : setupLinux o k (St.enter h.fds (initLinuxContext o)) with
    | ok _ s => exact hone s (Or.inr (wp_ok hs hl).1)
    | error _ s => exact hone s (wp_error hs hl)
  | guests o ks _ =>
    obtain ⟨m, own, hm, ho', hn', hrest, hall⟩ := setupGuests_owes o ks 0 ho hn
    rw [Nat.zero_add] at hn' hrest
    exact ⟨m, own, hm, ho', hn', hrest, hall⟩

/-- The process closes what it has opened, each descriptor once and none of the
standard streams, and restores the terminal through an open descriptor, exactly
when `init_kvm` fails or every guest but the last one is set up. -/
theorem hygienic_iff (base : Inherited) (cmd : Command) (k : MainCalls) :
    Hygienic base.fds (cmd.start k (.init base)).2
        (cleanup cmd (cmd.start k (.init base)).1 (cmd.start k (.init base)).2) ↔
      ¬ k.kvm.Succeed ∨ cmd.AllButLastSucceed := by
  have hinit :
      ∃ p : Proc, p = (if cmd.interactive then setRawMode k.term (.init base) else .init base) ∧
      p.fds = (Proc.init base).fds ∧ p.vmFd = -1 ∧ p.vcpus = (Proc.init base).vcpus ∧
        Entered p := by
    split
    · exact ⟨_, rfl, setRawMode_spec k.term base⟩
    · exact ⟨_, rfl, rfl, rfl, rfl, rfl, rfl⟩
  obtain ⟨p, hp, hfds, hvm, hvcpus, he⟩ := hinit
  have ho : p.fds.Owes base.fds [] := hfds ▸ Fds.owes_start base.nodup
  obtain ⟨hok, hvc, he2, rest, ho2, hrest⟩ := initKvm_spec k.kvm ho hvm he
  unfold Command.start
  simp only [← hp]
  cases hr : initKvm k.kvm p with
  | mk ok q =>
    rw [hr] at hok hvc he2 ho2 hrest
    cases ok with
    | false =>
      have hfail : ¬ k.kvm.Succeed := fun h => by simpa using hok.2 h
      have hnone : Names (q.vcpuFds 0) [] := rfl
      have ho3 : q.fds.Owes base.fds ([] ++ rest) := ho2
      have hclean : Hygienic base.fds q (cleanupVcpus 0 q) :=
        hygienic_cleanupVcpus base he2 ho3 hnone hrest
      exact iff_of_true hclean (Or.inl hfail)
    | true =>
      have hkvm := hok.1 rfl
      rw [or_iff_right (not_not.2 hkvm)]
      obtain ⟨m, own, hm, ho3, hn3, hzero, hall⟩ := cmd.setup_owes (h := q.toHost) ho2
      rw [← hall]
      constructor
      · intro hh
        by_contra hne
        have hlt : m < cmd.numVcpus := by omega
        refine not_hygienic_of_zero hlt ?_ hh
        show ((cmd.setup q.toHost).2.vcpus m).vcpuFd = 0
        rw [hzero m (Nat.le_refl _), hvc, hvcpus]
        rfl
      · intro heq
        rw [heq] at hn3
        exact hygienic_cleanupVcpus base ⟨he2.saved, he2.restores⟩ ho3 hn3 hrest

/-! ### Two paging guests, of which the first has no file -/

def standardStreams : Inherited := ⟨[2, 1, 0], by decide, by decide⟩

def noFile : GuestCalls := ⟨{ fopen := none, ftell := true, nread := 0 }, .allOk⟩

def firstFileMissing : Command := .guests { mode := .paging } [noFile, .ofFile .hlt] (by decide)

/-- The calls on the terminal and on `/dev/kvm` succeed. -/
def MainCalls.allOk : MainCalls := ⟨⟨true, true, true⟩, ⟨true, KVM_API_VERSION, true⟩⟩

/-- Cleanup closes standard input, and then `restore_terminal` finds it closed. -/
theorem stdin_closed :
    let p := (firstFileMissing.start .allOk (.init standardStreams)).2
    let q := cleanup firstFileMissing .cleanupVcpus p
    (firstFileMissing.start .allOk (.init standardStreams)).1 = .cleanupVcpus ∧ p.rawMode = true ∧
      q.fds.opens = [3, 4] ∧ q.fds.closes = [0, 4, 3] ∧ q.restores = [false] ∧
        ¬ Hygienic standardStreams.fds p q := by
  intro p q
  have hcloses : q.fds.closes = [0, 4, 3] := by rfl
  have hres : q.restores = [false] := by rfl
  refine ⟨rfl, rfl, rfl, hcloses, hres, fun h => ?_⟩
  have := h.std 0 (by rw [hcloses]; exact List.mem_cons_self)
  omega

end MiniKvm.Vmm
