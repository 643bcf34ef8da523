import KernelModules.Lib.Run
import KernelModules.Lib.Rest
import KernelModules.Lib.Twin
import KernelModules.Lib.Loop
import KernelModules.Lib.Ring
import KernelModules.Lib.Fifo
import KernelModules.Lib.Table
import KernelModules.Lib.Pool
import KernelModules.Lib.Heap
import KernelModules.Lib.Align
import KernelModules.Lib.Record
import KernelModules.Lib.Log
import KernelModules.Lib.Mutex
import KernelModules.Lib.Stages
import KernelModules.Lib.Paging
import KernelModules.Kernel.User
import KernelModules.Kernel.Memory
import KernelModules.Simple.Driver
import KernelModules.Simple.Registers
import KernelModules.Simple.Contents
import KernelModules.Simple.Client
import KernelModules.Simple.Load
import KernelModules.Poll.Device
import KernelModules.Poll.Fifo
import KernelModules.Poll.Calls
import KernelModules.Poll.Faults
import KernelModules.Poll.Client
import KernelModules.Poll.Tasks
import KernelModules.Poll.Wakeup
import KernelModules.Poll.Stale
import KernelModules.Poll.Exit
import KernelModules.Poll.Progress
import KernelModules.Poll.Linear
import KernelModules.Poll.Sequential
import KernelModules.Poll.Sections
import KernelModules.Poll.Atomic
import KernelModules.Timers.Callback
import KernelModules.Timers.Unload
import KernelModules.Timers.SetDelay
import KernelModules.Timers.Rearm
import KernelModules.Timers.FailedDelay
import KernelModules.Timers.Blink
import KernelModules.Timers.StatusByte
import KernelModules.Timers.BlinkArg
import KernelModules.Timers.Settings
import KernelModules.Timers.Pace
import KernelModules.Timers.Settle
import KernelModules.Mmap.Driver
import KernelModules.Mmap.Files
import KernelModules.Mmap.Private
import KernelModules.Mmap.Mapping
import KernelModules.Mmap.Load
import KernelModules.Mmap.Proc
import KernelModules.Mmap.ShortReads
import KernelModules.Mmap.Fill
import KernelModules.Mmap.Area
import KernelModules.Mmap.Opens
import KernelModules.Mmap.Vmem
import KernelModules.Mmap.Coherence
import KernelModules.Modules.Load
import KernelModules.Rtl8139.Device
import KernelModules.Rtl8139.Transmit
import KernelModules.Rtl8139.Concurrent
import KernelModules.Rtl8139.Reopen
import KernelModules.Rtl8139.Receive
import KernelModules.Rtl8139.Payload
import KernelModules.Rtl8139.Statistics
import KernelModules.Rtl8139.Buffers
import KernelModules.Rtl8139.Report
import KernelModules.Rtl8139.Delivery
import KernelModules.Rtl8150.Transmit
import KernelModules.Rtl8150.Reports
import KernelModules.Rtl8150.Probe
import KernelModules.Rtl8150.MacAddress
import KernelModules.Rtl8150.HardwareStart
