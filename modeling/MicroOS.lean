import MicroOS.User.HeapSizes
import MicroOS.User.Strtok
import MicroOS.Memory.PmmCount
import MicroOS.User.IpcHandshake
import MicroOS.Scheduler.ScheduleRun
import MicroOS.Net.Routing
import MicroOS.Net.Socket
import MicroOS.Net.Outgoing
import MicroOS.Net.Ports
import MicroOS.Utils.FastMemory
import MicroOS.Utils.UnixTime
import MicroOS.Utils.ArgParser
import MicroOS.Utils.Trace
import MicroOS.FileSystem.SafSize
import MicroOS.FileSystem.RamfsCreate
import MicroOS.FileSystem.RamfsLeak
import MicroOS.FileSystem.DirAt
import MicroOS.Syscall.Dispatch
import MicroOS.Driver.Gpt
import MicroOS.Driver.Dsdt
import MicroOS.Driver.Madt
import MicroOS.Driver.Keyboard
import MicroOS.FileSystem.Fatfs
import MicroOS.User.EditRun
import MicroOS.User.CalcScan
import MicroOS.User.AnsiConsole
import MicroOS.User.NetTools
import MicroOS.User.ArgvSplit
import MicroOS.User.ShellCommand
import MicroOS.User.ShellScript
import MicroOS.User.ShellEnv
import MicroOS.User.ShellExport
import MicroOS.User.Resolve
import MicroOS.Net.SocketPages
import MicroOS.Net.SocketIds
import MicroOS.Gdb.Codecs
import MicroOS.Gdb.RegisterWrite
import MicroOS.Net.DnsAnswers
import MicroOS.Net.DnsResolve
import MicroOS.Net.Dhcp
import MicroOS.Net.Arp
import MicroOS.Scheduler.ElfContainment
import MicroOS.Syscall.FileClosing
import MicroOS.Syscall.ReturnedFrames
import MicroOS.Memory.VmmLookup
import MicroOS.Memory.VmmTeardown
import MicroOS.Config.MergeDefault
import MicroOS.User.CalcReading
import MicroOS.User.Highlight
import MicroOS.User.TinfArchive
