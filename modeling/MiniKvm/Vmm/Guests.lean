import MiniKvm.Vmm.Setup

/-!
# Address spaces of the guests

The setup loop of `main` over its guests, and what each vCPU can reach
afterwards. A linear address goes through the page tables that the vCPU's CR3
names; these are read from guest-physical memory, and guest-physical memory is
the slot table that `setup_vcpu_memory` has built: slot `i` of vCPU `i` starts
at `i * mem_size` and is backed by that vCPU's `guest_mem`.

Main result: after a setup that succeeds, a vCPU reaches only its own slot
exactly when it runs in real mode or is vCPU 0 (`isolated_iff`). The tables of
the other modes contain guest-physical addresses below 4 MiB, whatever the
slot of the vCPU they are written for.
-/
namespace MiniKvm.Vmm

open Paging

/-! ## The setup loop -/

/-- `--paging` and `--long-mode`; the second implies the first. -/
inductive Mode where
  | real | paging | longMode
  deriving DecidableEq, Repr

def Mode.enablePaging : Mode → Bool
  | .real => false
  | .paging | .longMode => true

def Mode.enableLongMode : Mode → Bool
  | .real | .paging => false
  | .longMode => true

structure Opts where
  mode : Mode
  entryPoint : UInt32 := 0x80001000
  loadOffset : UInt32 := 0x1000

/-- mirrors kvm-vmm-x86/src/main.c:3126-3137 -/
def initContext (o : Opts) (i : Nat) : Vcpu :=
  { vcpuId := i
    vcpuFd := -1
    usePaging := o.mode.enablePaging
    longMode := o.mode.enableLongMode
    entryPoint := o.entryPoint
    loadOffset := if o.mode.enablePaging then o.loadOffset else 0 }

structure GuestCalls where
  load : LoadCalls
  vcpu : VcpuCalls

/-- A guest whose setup meets no failing call. -/
def GuestCalls.ofFile (f : HostFile) : GuestCalls := ⟨.ofFile f, .allOk⟩

/-- mirrors kvm-vmm-x86/src/main.c:3144-3163 -/
def setupGuest (k : GuestCalls) : EStateM Unit St Unit := do
  setupVcpuMemory k.vcpu
  loadGuestBinary k.load
  setupVcpuContext k.vcpu

/-- The process: its descriptors, and `vcpus[]` with the vCPU behind each
entry. Entries start in their static zero state. -/
structure Host where
  fds : Fds
  vcpus : Nat → Vcpu := fun _ => {}
  machines : Nat → Machine := fun _ => {}

/-- The standard streams are open, and `init_kvm` has opened `/dev/kvm` and the VM. -/
def Host.afterInit : Host := { fds := ⟨[4, 3, 2, 1, 0], [3, 4], []⟩ }

/-- What the body of the loop leaves in entry `i`. -/
def Host.put (h : Host) (i : Nat) (s : St) : Host :=
  { fds := s.fds
    vcpus := Function.update h.vcpus i s.ctx
    machines := Function.update h.machines i s.machine }

/-- The guests from number `i` on; `false` is the jump to `cleanup_vcpus`.
mirrors kvm-vmm-x86/src/main.c:3119-3167 -/
def setupGuests (o : Opts) : List GuestCalls → Nat → Host → Bool × Host
  | [], _, h => (true, h)
  | k :: ks, i, h =>
    match setupGuest k (St.enter h.fds (initContext o i)) with
    | .ok _ s => setupGuests o ks (i + 1) (h.put i s)
    | .error _ s => (false, h.put i s)

/-- Bytes of guest memory each vCPU gets. -/
def Mode.memSize (m : Mode) : Nat := vcpuMemSize false m.enablePaging

/-- Entry `i` after its setup has succeeded. -/
structure Ready (o : Opts) (k : GuestCalls) (i : Nat) (c : Vcpu) (v : Machine) : Prop where
  memSize : c.memSize = o.mode.memSize
  slot : v.slot = some ⟨i, i * o.mode.memSize, o.mode.memSize⟩
  /-- The file was accepted and loaded, and the mode's tables were written over it. -/
  image : ∃ f, k.load.fopen = some f ∧
    (initContext o i).loadOffset.toNat + f.bytes.length ≤ o.mode.memSize ∧
    Configured k.vcpu { initContext o i with memSize := o.mode.memSize }
      (Mem.write (fun _ => 0) (initContext o i).loadOffset.toNat f.bytes) v.mem v.sregs

theorem setupGuest_wp (o : Opts) (k : GuestCalls) (i : Nat) (fds : Fds) :
    wp (setupGuest k)
      (fun _ t => (St.enter fds (initContext o i)).Opened t ∧ Ready o k i t.ctx t.machine)
      (fun _ t => (St.enter fds (initContext o i)).Aborted t) (St.enter fds (initContext o i)) := by
  have hrefl := (St.enter fds (initContext o i)).fds.filesOnly_refl
  unfold setupGuest
  rw [wp_bind]
  refine wp_mono (setupVcpuMemory_wp _ _) (fun _ s1 h1 => ?_) fun _ t h => Or.inl ⟨h.1 ▸ hrefl, h.2⟩
  obtain ⟨hf1, hc1, hm1, hs1⟩ := h1
  rw [wp_bind]
  refine wp_mono (loadGuestBinary_wp _ _) (fun _ s2 h2 => ?_) fun _ t h =>
    Or.inl ⟨hf1 ▸ h.1, by rw [h.2, hc1]; rfl⟩
  obtain ⟨⟨hf2, hc2⟩, hs2, f, hf, hsize, hm2⟩ := h2
  rw [hf1] at hf2
  refine wp_mono (setupVcpuContext_wp _ _) (fun _ t h => ?_) fun _ t h => h.of_filesOnly hf2
  obtain ⟨hft, hc, hcfg⟩ := h
  have hctx : s2.ctx = { initContext o i with memSize := o.mode.memSize, guestMem := .mapped } :=
    hc2.trans hc1
  rw [hc1] at hsize hm2
  rw [hm2, hm1, hctx] at hcfg
  refine ⟨⟨s2.fds, hf2, hft, by rw [hc]; rfl⟩, ?_⟩
  rw [hctx] at hc
  exact ⟨by rw [hc]; rfl, hcfg.1.trans (hs2.trans hs1), f, hf, hsize, hcfg.2⟩

theorem setupGuests_ok {o : Opts} {ks : List GuestCalls} {n : Nat} {h0 h : Host}
    (hs : setupGuests o ks n h0 = (true, h)) :
    (∀ j < n, h.vcpus j = h0.vcpus j ∧ h.machines j = h0.machines j) ∧
      ∀ j (hj : j < ks.length), Ready o ks[j] (n + j) (h.vcpus (n + j)) (h.machines (n + j)) := by
  induction ks generalizing n h0 with
  | nil =>
    simp only [setupGuests, Prod.mk.injEq, true_and] at hs
    subst hs
    exact ⟨fun _ _ => ⟨rfl, rfl⟩, fun _ hj => absurd hj (by simp)⟩
  | cons k ks ih =>
    rw [setupGuests] at hs
    split at hs
    · rename_i s hok
      obtain ⟨hlow, hready⟩ := ih hs
      refine ⟨fun j hj => ?_, fun j hj => ?_⟩
      · rw [(hlow j (by omega)).1, (hlow j (by omega)).2]
        simp [Host.put, Function.update_of_ne (show j ≠ n by omega)]
      · cases j with
        | zero =>
          rw [Nat.add_zero, (hlow n (by omega)).1, (hlow n (by omega)).2]
          simpa [Host.put] using (wp_ok (setupGuest_wp o k n h0.fds) hok).2
        | succ j =>
          have := hready j (by simpa using hj)
          rwa [Nat.add_right_comm] at this
    · cases hs

/-! ## What a linear address reaches -/

/-- The vCPU whose slot holds a guest-physical address, and the offset in its
`guest_mem`. -/
def Host.resolve (h : Host) (n gpa : Nat) : Option (Nat × Nat) :=
  (List.range n).findSome? fun j =>
    match (h.machines j).slot with
    | some sl =>
      if sl.guestPhysAddr ≤ gpa ∧ gpa < sl.guestPhysAddr + sl.memorySize then
        some (j, gpa - sl.guestPhysAddr)
      else none
    | none => none

/-- Guest-physical memory. Outside every slot the processor reads no entry:
the page walk faults as if it had found a clear one. -/
def Host.phys (h : Host) (n : Nat) : Mem := fun gpa =>
  match h.resolve n gpa with
  | some (j, off) => (h.machines j).mem off
  | none => 0

/-- Linear to guest-physical, as CR0.PG, EFER.LMA and CR3 say. -/
def translate (phys : Mem) (sr : Sregs) (la : Nat) : Option Nat :=
  if sr.cr0.toNat / 2 ^ 31 % 2 = 0 then some la
  else if sr.efer.toNat / 2 ^ 10 % 2 = 1 then (walk64 phys sr.cr3.toNat la).map (·.pa)
  else (walk32 phys sr.cr3.toNat la).map (·.pa)

def Sregs.segments (sr : Sregs) : List Segment := [sr.cs, sr.ds, sr.es, sr.fs, sr.gs, sr.ss]

/-- The linear addresses of a mode: a segment base plus a 16-bit offset, every
32-bit address, or the addresses below the memory size. -/
def Linear (mode : Mode) (c : Vcpu) (sr : Sregs) (la : Nat) : Prop :=
  match mode with
  | .real => ∃ seg ∈ sr.segments, ∃ off < 2 ^ 16, la = seg.base.toNat + off
  | .paging => la < 2 ^ 32
  | .longMode => la < c.memSize

/-- Whatever vCPU `i` can address lies in its own slot, behind which is its own
`guest_mem`. -/
def Isolated (mode : Mode) (h : Host) (n i : Nat) : Prop :=
  ∀ la, Linear mode (h.vcpus i) (h.machines i).sregs la →
    ∀ gpa, translate (h.phys n) (h.machines i).sregs la = some gpa →
      (i * (h.vcpus i).memSize ≤ gpa ∧ gpa < (i + 1) * (h.vcpus i).memSize) ∧
        ∃ off < (h.vcpus i).memSize, h.resolve n gpa = some (i, off)

/-- All `n` entries are ready. -/
def AllReady (o : Opts) (ks : List GuestCalls) (h : Host) : Prop :=
  ∀ j (hj : j < ks.length), Ready o ks[j] j (h.vcpus j) (h.machines j)

theorem allReady_of_setup {o : Opts} {ks : List GuestCalls} {h0 h : Host}
    (hs : setupGuests o ks 0 h0 = (true, h)) : AllReady o ks h := fun j hj => by
  have := (setupGuests_ok hs).2 j hj
  rwa [Nat.zero_add] at this

theorem findSome?_of_unique {α β : Type} {l : List α} {f : α → Option β} {a : α} {b : β}
    (ha : a ∈ l)
    (hf : f a = some b) (ho : ∀ x ∈ l, x ≠ a → f x = none) : l.findSome? f = some b := by
  cases h : l.findSome? f with
  | none =>
    rw [List.findSome?_eq_none_iff] at h
    rw [h a ha] at hf
    cases hf
  | some c =>
    obtain ⟨x, hx, hfx⟩ := List.exists_of_findSome?_eq_some h
    by_cases hxa : x = a
    · rw [← hfx, hxa, hf]
    · rw [ho x hx hxa] at hfx
      cases hfx

section Ready

variable {o : Opts} {ks : List GuestCalls} {h : Host}

/-- The slots lie side by side, so an address resolves by its slot number. -/
theorem AllReady.resolve (hr : AllReady o ks h) {i off : Nat} (hi : i < ks.length)
    (hoff : off < o.mode.memSize) :
    h.resolve ks.length (i * o.mode.memSize + off) = some (i, off) := by
  refine findSome?_of_unique (List.mem_range.2 hi) ?_ fun j hj hne => ?_
  · simp only [(hr i hi).slot]
    rw [if_pos ⟨by omega, by omega⟩, Nat.add_sub_cancel_left]
  · have hj' := List.mem_range.1 hj
    simp only [(hr j hj').slot]
    refine if_neg fun hin => ?_
    rcases Nat.lt_or_gt_of_ne hne with hlt | hlt
    · have := Nat.mul_le_mul_right o.mode.memSize (show j + 1 ≤ i by omega)
      rw [Nat.add_mul, Nat.one_mul] at this
      omega
    · have := Nat.mul_le_mul_right o.mode.memSize (show i + 1 ≤ j by omega)
      rw [Nat.add_mul, Nat.one_mul] at this
      omega

theorem AllReady.phys (hr : AllReady o ks h) {i off : Nat} (hi : i < ks.length)
    (hoff : off < o.mode.memSize) :
    h.phys ks.length (i * o.mode.memSize + off) = (h.machines i).mem off := by
  rw [Host.phys, hr.resolve hi hoff]

/-- Isolation of a vCPU whose addresses all translate into its own slot. -/
theorem AllReady.isolated (hr : AllReady o ks h) {i : Nat} (hi : i < ks.length)
    (ht : ∀ la, Linear o.mode (h.vcpus i) (h.machines i).sregs la →
      ∀ gpa, translate (h.phys ks.length) (h.machines i).sregs la = some gpa →
        i * o.mode.memSize ≤ gpa ∧ gpa < (i + 1) * o.mode.memSize) :
    Isolated o.mode h ks.length i := by
  intro la hla gpa hgpa
  rw [(hr i hi).memSize]
  obtain ⟨h1, h2⟩ := ht la hla gpa hgpa
  refine ⟨⟨h1, h2⟩, gpa - i * o.mode.memSize, ?_, ?_⟩
  · rw [Nat.add_mul, Nat.one_mul] at h2
    omega
  · have hoff : gpa - i * o.mode.memSize < o.mode.memSize := by
      rw [Nat.add_mul, Nat.one_mul] at h2
      omega
    have := hr.resolve hi hoff
    rwa [Nat.add_sub_cancel' h1] at this

end Ready

/-! ## Each mode -/

theorem realmode_segments_base (sr : Sregs) (c : Vcpu) (hc : c.linuxGuest = false) :
    ∀ seg ∈ (setupRealmodeSegments sr c).segments,
      seg.base = UInt64.ofNat ((csValue c).toNat * 16) := by
  simp [setupRealmodeSegments, hc, Sregs.withSegments, Sregs.segments, realmodeSegment]

theorem setupRealmodeSegments_ctl (sr : Sregs) (c : Vcpu) :
    (setupRealmodeSegments sr c).cr0 = sr.cr0 ∧ (setupRealmodeSegments sr c).efer = sr.efer := by
  unfold setupRealmodeSegments
  split <;> exact ⟨rfl, rfl⟩

theorem translate_real (phys : Mem) (r : ResetSregs) (c : Vcpu) (la : Nat) :
    translate phys (setupRealmodeSegments r.sregs c) la = some la := by
  rw [translate, (setupRealmodeSegments_ctl _ _).1, if_pos r.pg_clear]

theorem translate_paging (phys : Mem) (r : ResetSregs) (c : Vcpu) (la : Nat) :
    translate phys (protectedModeSregs (setupRealmodeSegments r.sregs c) 0x100000) la =
      (walk32 phys 0x100000 la).map (·.pa) := by
  have hcr0 : ∀ sr cr3, (protectedModeSregs sr cr3).cr0 = 0x80000011 := fun _ _ => rfl
  have hcr3 : ∀ sr, (protectedModeSregs sr 0x100000).cr3.toNat = 0x100000 := fun _ => rfl
  have hefer : ∀ sr cr3, (protectedModeSregs sr cr3).efer = sr.efer := fun _ _ => rfl
  have hlma := r.lma_clear
  rw [translate, hcr0, hcr3, hefer, (setupRealmodeSegments_ctl _ _).2, if_neg (by decide),
    if_neg (by omega)]

theorem translate_longMode (phys : Mem) (ok : Bool) (sr : Sregs) (la : Nat) :
    translate phys (setupMsrs64bit ok (longmodeSregs sr 0x5000 0x2000)) la =
      (walk64 phys 0x2000 la).map (·.pa) := by
  have hcr0 : (setupMsrs64bit ok (longmodeSregs sr 0x5000 0x2000)).cr0 = cr0LongMode := by
    cases ok <;> rfl
  have hcr3 : (setupMsrs64bit ok (longmodeSregs sr 0x5000 0x2000)).cr3.toNat = 0x2000 := by
    cases ok <;> rfl
  have hlma : ((EFER_LME ||| EFER_LMA) &&& EFER_LMA ||| EFER_LME ||| EFER_SCE ||| EFER_NXE).toNat /
      2 ^ 10 % 2 = 1 := by decide
  have hlma' : (EFER_LME ||| EFER_LMA).toNat / 2 ^ 10 % 2 = 1 := by decide
  have hefer : (setupMsrs64bit ok (longmodeSregs sr 0x5000 0x2000)).efer.toNat / 2 ^ 10 % 2 =
      1 := by
    cases ok
    · exact hlma'
    · exact hlma
  rw [translate, hcr0, hcr3, if_neg (by decide), if_pos hefer]

/-! ## Isolation -/

section Isolation

variable {o : Opts} {ks : List GuestCalls} {h : Host} {i : Nat}

theorem isolated_real (hr : AllReady o ks h) (hn : ks.length ≤ MAX_VCPUS) (hi : i < ks.length)
    (hm : o.mode = .real) : Isolated o.mode h ks.length i := by
  obtain ⟨f, -, -, hcfg⟩ := (hr i hi).image
  have hsize : o.mode.memSize = 0x40000 := by rw [hm]; rfl
  simp only [Configured, initContext, hm, Mode.enableLongMode, Mode.enablePaging] at hcfg
  have hsr := hcfg.2
  refine hr.isolated hi fun la hla gpa hgpa => ?_
  rw [hsr, translate_real] at hgpa
  obtain rfl := Option.some.inj hgpa
  rw [hm] at hla
  obtain ⟨seg, hseg, off, hoff, rfl⟩ := hla
  rw [hsr] at hseg
  rw [realmode_segments_base _ _ rfl seg hseg, hsize]
  have hi4 : i < 4 := Nat.lt_of_lt_of_le hi hn
  -- 16-bit paragraphs still tell four slots of 256 KiB apart
  have hcs : ∀ c : Vcpu, c.vcpuId = i → c.memSize = 0x40000 →
      (csValue c).toNat * 16 = i * 0x40000 := by
    intro c h1 h2
    rw [csValue, h1, h2, UInt16.toNat_ofNat']
    omega
  rw [hcs _ rfl rfl, UInt64.toNat_ofNat', Nat.mod_eq_of_lt (by omega)]
  omega

/-- The tables vCPU 0 has installed, as seen in guest-physical memory. -/
theorem AllReady.phys_zero (hr : AllReady o ks h) (hn : 0 < ks.length) {x : Nat}
    (hx : x < o.mode.memSize) : h.phys ks.length x = (h.machines 0).mem x := by
  have := hr.phys hn hx
  rwa [Nat.zero_mul, Nat.zero_add] at this

theorem isolated_paging (hr : AllReady o ks h) (hi : i < ks.length) (hm : o.mode = .paging) :
    Isolated o.mode h ks.length i ↔ i = 0 := by
  have hsize : o.mode.memSize = 0x400000 := by rw [hm]; rfl
  have htr : ∀ la, translate (h.phys ks.length) (h.machines i).sregs la =
      (walk32 (h.phys ks.length) 0x100000 la).map (·.pa) := fun la => by
    obtain ⟨f, -, -, hcfg⟩ := (hr i hi).image
    simp only [Configured, initContext, hm, Mode.enableLongMode, Mode.enablePaging] at hcfg
    rw [hcfg.2, translate_paging]
  have htab : Tables32 (h.phys ks.length) := by
    have h0 : 0 < ks.length := by omega
    obtain ⟨f, -, -, hcfg⟩ := (hr 0 h0).image
    simp only [Configured, initContext, hm, Mode.enableLongMode, Mode.enablePaging] at hcfg
    exact hcfg.1.tables.congr fun x _ h2 => hr.phys_zero h0 (by omega)
  constructor
  · intro hiso
    have hla :
        Linear o.mode (h.vcpus i) (h.machines i).sregs 0 := by rw [hm]; exact Nat.two_pow_pos 32
    have h0 := (hiso 0 hla 0 (by rw [htr, walk32_tables htab 0 (by omega)]; rfl)).1.1
    rw [(hr i hi).memSize, hsize] at h0
    omega
  · rintro rfl
    refine hr.isolated hi fun la hla gpa hgpa => ?_
    rw [hm] at hla
    rw [htr, walk32_tables htab la hla] at hgpa
    rw [hsize]
    split at hgpa
    · have := Option.some.inj hgpa
      simp only at this
      omega
    · split at hgpa
      · have := Option.some.inj hgpa
        simp only at this
        omega
      · cases hgpa

theorem isolated_longMode (hr : AllReady o ks h) (hi : i < ks.length) (hm : o.mode = .longMode) :
    Isolated o.mode h ks.length i ↔ i = 0 := by
  have hsize : o.mode.memSize = 0x400000 := by rw [hm]; rfl
  have htr : ∀ la, translate (h.phys ks.length) (h.machines i).sregs la =
      (walk64 (h.phys ks.length) 0x2000 la).map (·.pa) := fun la => by
    obtain ⟨f, -, -, hcfg⟩ := (hr i hi).image
    simp only [Configured, initContext, hm, Mode.enableLongMode, Mode.enablePaging] at hcfg
    rw [hcfg.2, translate_longMode]
  have htab : Tables64 2 (h.phys ks.length) := by
    have h0 : 0 < ks.length := by omega
    obtain ⟨f, -, -, hcfg⟩ := (hr 0 h0).image
    simp only [Configured, initContext, hm, Mode.enableLongMode, Mode.enablePaging] at hcfg
    exact hcfg.1.tables.congr fun x _ h2 => hr.phys_zero h0 (by omega)
  constructor
  · intro hiso
    have hla : Linear o.mode (h.vcpus i) (h.machines i).sregs 0 := by
      rw [hm]
      show 0 < (h.vcpus i).memSize
      rw [(hr i hi).memSize, hsize]
      omega
    have h0 := (hiso 0 hla 0 (by rw [htr, walk64_tables (by omega) htab 0 (by omega)]; rfl)).1.1
    rw [(hr i hi).memSize, hsize] at h0
    omega
  · rintro rfl
    refine hr.isolated hi fun la hla gpa hgpa => ?_
    rw [hm] at hla
    have hla' : la < 0x400000 := by
      have : la < (h.vcpus 0).memSize := hla
      rwa [(hr 0 hi).memSize, hsize] at this
    rw [htr, walk64_tables (by omega) htab la (by omega), if_pos (by omega)] at hgpa
    have := Option.some.inj hgpa
    simp only at this
    omega

/-- After a setup loop that succeeds, a vCPU is confined to its own slot
exactly when it runs in real mode or is the first one: the tables of the other
modes name their frames by guest-physical addresses of slot 0. -/
theorem isolated_iff {h0 : Host} (hs : setupGuests o ks 0 h0 = (true, h))
    (hn : ks.length ≤ MAX_VCPUS) (hi : i < ks.length) :
    Isolated o.mode h ks.length i ↔ o.mode = .real ∨ i = 0 := by
  have hr := allReady_of_setup hs
  cases hm : o.mode with
  | real =>
    have := isolated_real hr hn hi hm
    rw [hm] at this
    simp [this]
  | paging =>
    have := isolated_paging hr hi hm
    rw [hm] at this
    simp [this]
  | longMode =>
    have := isolated_longMode hr hi hm
    rw [hm] at this
    simp [this]

/-- Two `--paging` guests, set up without a failing call. -/
def twoPagingGuests : List GuestCalls := [.ofFile .hlt, .ofFile .hlt]

theorem isolated_iff_two_paging_guests :
    Isolated .paging (setupGuests { mode := .paging } twoPagingGuests 0 .afterInit).2 2 1 ↔
      Mode.paging = .real ∨ 1 = 0 :=
  have hs : setupGuests { mode := .paging } twoPagingGuests 0 .afterInit
      = (true, (setupGuests { mode := .paging } twoPagingGuests 0 .afterInit).2) :=
        Prod.ext (by rfl) rfl
  isolated_iff hs (by decide) (by decide)

/-- Two `--paging` guests: the second one's CR3 leads into the first one's memory. -/
theorem second_paging_guest_not_isolated :
    ¬ ∀ (o : Opts) (ks : List GuestCalls) (h0 h : Host) (i : Nat),
      setupGuests o ks 0 h0 = (true, h) → ks.length ≤ MAX_VCPUS → i < ks.length →
        Isolated o.mode h ks.length i := by
  intro hall
  let r := setupGuests { mode := .paging } twoPagingGuests 0 .afterInit
  have hs : r = (true, r.2) := Prod.ext (by rfl) rfl
  have hiso := hall _ twoPagingGuests _ _ 1 hs (by decide) (by decide)
  have hr : AllReady { mode := .paging } twoPagingGuests r.2 := allReady_of_setup hs
  exact absurd ((isolated_paging hr (by decide) rfl).1 hiso) (by decide)

end Isolation

end MiniKvm.Vmm
