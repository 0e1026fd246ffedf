import MonkeyOS.Driver.Bars
import MonkeyOS.Driver.Dma
import MonkeyOS.Driver.RamDisk
import MonkeyOS.Fs.Ext4Disk
import MonkeyOS.Fs.Ext4Path
import MonkeyOS.Fs.GetdentsProperties
import MonkeyOS.Fs.PathCalls
import MonkeyOS.Fs.PipeProgress
import MonkeyOS.Fs.Procfs
import MonkeyOS.Fs.Transfer
import MonkeyOS.Fs.Vectored
import MonkeyOS.Ramfs.FilePressure
import MonkeyOS.Runtime.Heap
import MonkeyOS.Syscall.Alignment
import MonkeyOS.Syscall.Brk
import MonkeyOS.Syscall.Epoll
import MonkeyOS.Syscall.FailedMapping
import MonkeyOS.Syscall.FileLimit
import MonkeyOS.Syscall.FileMapping
import MonkeyOS.Syscall.Ipc
import MonkeyOS.Syscall.MessageCalls
import MonkeyOS.Syscall.Mkdir
import MonkeyOS.Syscall.Placement
import MonkeyOS.Syscall.Pselect
import MonkeyOS.Syscall.SharedRoundTrip
import MonkeyOS.Tasks.ExecAnswers
import MonkeyOS.Tasks.ExecProperties
import MonkeyOS.Tasks.FutexProperties
import MonkeyOS.Tasks.LifecycleProperties
import MonkeyOS.Tasks.MemSetCoverage
import MonkeyOS.Tasks.PageAlloc
import MonkeyOS.Tasks.Reaping
import MonkeyOS.User.Draining
import MonkeyOS.User.IntervalTimer
import MonkeyOS.User.Isolation
import MonkeyOS.User.Sigkill
import MonkeyOS.User.SignalNumbers
import MonkeyOS.User.SparedPages
import MonkeyOS.User.StandardSignals
import MonkeyOS.User.Undelivered
