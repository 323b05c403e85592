import MiniKvm.Guest.MatrixReport
import MiniKvm.Linux.Cmdline
import MiniKvm.Linux.E820
import MiniKvm.Linux.Split
import MiniKvm.Linux.ZeroPage
import MiniKvm.Os1k.Alloc
import MiniKvm.Os1k.Calculator
import MiniKvm.Os1k.FileCalls
import MiniKvm.Os1k.Files
import MiniKvm.Os1k.Getchar
import MiniKvm.Os1k.Idt
import MiniKvm.Os1k.Mapping
import MiniKvm.Os1k.Printf
import MiniKvm.Os1k.Readline
import MiniKvm.Os1k.Schedule
import MiniKvm.Os1k.Shell
import MiniKvm.Os1k.Switch
import MiniKvm.Os1k.UserStack
import MiniKvm.Riscv.Hypervisor
import MiniKvm.Vmm.Exit
import MiniKvm.Vmm.Getchar
import MiniKvm.Vmm.HostReads
import MiniKvm.Vmm.Image
import MiniKvm.Vmm.Keyboard
import MiniKvm.Vmm.Probe
import MiniKvm.Vmm.Singlestep
import MiniKvm.Vmm.StringIo
import MiniKvm.Vmm.Threads
import MiniKvm.Vmm.Walk
import MiniKvm.Hleos.BitMap
import MiniKvm.Hleos.Thread
import MiniKvm.Guest.MatrixRun
