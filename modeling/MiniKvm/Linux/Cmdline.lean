import MiniKvm.Linux.BootParams

/-!
# The command line in guest memory

`main` copies the command line to 0x20000 and the kernel finds it through
`hdr.cmd_line_ptr` (kvm-vmm-x86/src/main.c:3080-3091,
kvm-vmm-x86/src/linux_boot.c:73-77). A line of more than 255 characters is
announced as truncated to 255, but its 256th character is copied in place of
the terminator: `cmdline_delivered_iff`.
-/
namespace MiniKvm.Linux

open Vmm

theorem cmdlineBytes_of_le {c : CStr} (h : c.bytes.length ≤ 255) :
    cmdlineBytes c = c.bytes ++ [0] := by
  rw [cmdlineBytes, List.take_of_length_le]
  rw [List.length_append, List.length_singleton]
  exact Nat.succ_le_succ h

/-- What a longer line has at the place of its terminator. -/
theorem cmdlineBytes_of_gt {c : CStr} (h : 255 < c.bytes.length) :
    (cmdlineBytes c).length = 256 ∧ (cmdlineBytes c)[255]? = some (c.bytes[255]) := by
  constructor
  · rw [cmdlineBytes, List.length_take, List.length_append, List.length_singleton]
    omega
  · rw [cmdlineBytes, List.getElem?_take_of_lt (by decide), List.getElem?_append_left h,
      List.getElem?_eq_getElem h]

section Delivery

variable {o : LinuxOpts} {k : LinuxCalls} {fds : Fds} {s : St} {u : Unit} {c : CStr}

/-- At vCPU start `cmd_line_ptr` leads to the copy `main` has made. -/
theorem cmdline_in_memory (hc : o.cmdline = some c)
    (hs : setupLinux o k (St.enter fds (initLinuxContext o)) = .ok u s) :
    s.mem.load 4 (LINUX_BOOT_PARAMS_ADDR + CMD_LINE_PTR_OFF) = COMMAND_LINE_ADDR ∧
      ∃ m : Mem, ∀ x, COMMAND_LINE_ADDR ≤ x →
        s.mem x = m.write COMMAND_LINE_ADDR (cmdlineBytes c) x := by
  have hparams := wp_ok (setupLinux_params_wp o k fds) hs
  obtain ⟨-, f, m1, m2, -, -, -, hmem⟩ := wp_ok (setupLinux_wp o k fds) hs
  refine ⟨hparams.cmdline (by rw [hc]; rfl), m2, fun x hx => ?_⟩
  rw [hmem x (Nat.le_trans (by decide) hx), hc]
  rfl

/-- The kernel finds the line, cut at 255 characters, exactly when there was
nothing to cut. -/
theorem cmdline_delivered_iff (hc : o.cmdline = some c)
    (hs : setupLinux o k (St.enter fds (initLinuxContext o)) = .ok u s) :
    s.mem.CStringAt (s.mem.load 4 (LINUX_BOOT_PARAMS_ADDR + CMD_LINE_PTR_OFF))
        (c.bytes.take 255) ↔ c.bytes.length ≤ 255 := by
  obtain ⟨hptr, m, hmem⟩ := cmdline_in_memory hc hs
  rw [hptr]
  constructor
  · intro hstr
    by_contra hgt
    have hlt : 255 < c.bytes.length := by omega
    obtain ⟨hlen, hlast⟩ := cmdlineBytes_of_gt hlt
    have hstop := hstr.stop
    rw [List.length_take, Nat.min_eq_left (by omega), hmem _ (Nat.le_add_right _ _),
      Mem.write_add m (by rw [hlen]; decide)] at hstop
    rw [List.getElem?_eq_getElem (by rw [hlen]; decide), hstop] at hlast
    exact c.noNul (Option.some.inj hlast ▸ List.getElem_mem hlt)
  · intro hle
    rw [List.take_of_length_le hle]
    rw [cmdlineBytes_of_le hle] at hmem
    exact (Mem.cStringAt_write m COMMAND_LINE_ADDR c.noNul).congr fun x h _ => hmem x h

end Delivery

theorem cmdline_delivered_iff_a :
    ∃ u s, setupLinux bootBigSetup bigSetupCalls
        (St.enter ⟨[4, 3, 2, 1, 0], [3, 4], []⟩ (initLinuxContext bootBigSetup)) = .ok u s ∧
      (s.mem.CStringAt (s.mem.load 4 (LINUX_BOOT_PARAMS_ADDR + CMD_LINE_PTR_OFF))
        (cmdlineA.bytes.take 255) ↔ cmdlineA.bytes.length ≤ 255) := by
  obtain ⟨u, s, hs⟩ := bigSetup_boots ⟨[4, 3, 2, 1, 0], [3, 4], []⟩
  exact ⟨u, s, hs, cmdline_delivered_iff rfl hs⟩

/-- 256 times `a`. -/
def longCmdline : CStr := ⟨List.replicate 256 0x61, by decide +kernel⟩

/-- The kernel's line goes on after 255 characters. -/
theorem long_cmdline_not_cut :
    ¬ ∀ (o : LinuxOpts) (k : LinuxCalls) (fds : Fds) (u : Unit) (s : St) (c : CStr),
      o.cmdline = some c → setupLinux o k (St.enter fds (initLinuxContext o)) = .ok u s →
        s.mem.CStringAt (s.mem.load 4 (LINUX_BOOT_PARAMS_ADDR + CMD_LINE_PTR_OFF))
          (c.bytes.take 255) := by
  intro hall
  obtain ⟨u, s, hs⟩ := wp_succeeds (setupLinux_succeeds bigSetup_bzImage
    (show LinuxEntryMode.code32 ≠ .boot64 by decide) .base (some longCmdline) ⟨[], [], []⟩)
  obtain ⟨hptr, m, hmem⟩ := cmdline_in_memory (c := longCmdline) rfl hs
  have hstop := (hall _ _ _ u s longCmdline rfl hs).stop
  rw [hptr, show (longCmdline.bytes.take 255).length = 255 by decide +kernel,
    hmem _ (Nat.le_add_right _ _), Mem.write_add m (by decide +kernel)] at hstop
  exact absurd hstop (by decide +kernel)

end MiniKvm.Linux
