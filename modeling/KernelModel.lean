import KernelModel.AclSyscalls
import KernelModel.AesStandard
import KernelModel.AmmRun
import KernelModel.ArpSafe
import KernelModel.Calendar
import KernelModel.CompressorMatches
import KernelModel.ConfigBinarySafe
import KernelModel.ConfigFile
import KernelModel.ConfigTextRound
import KernelModel.DhcpSafe
import KernelModel.DnsLookup
import KernelModel.DnsNames
import KernelModel.DnsSafe
import KernelModel.EventFair
import KernelModel.Fat32Directory
import KernelModel.Fat32Table
import KernelModel.FdBalance
import KernelModel.FormatPrefix
import KernelModel.GlslExpressionParse
import KernelModel.GptFormat
import KernelModel.GptSafe
import KernelModel.HandleOnce
import KernelModel.IdsPrivilege
import KernelModel.InputData
import KernelModel.InterfaceSlots
import KernelModel.Iso9660Lookup
import KernelModel.Keyring
import KernelModel.KfsFreeSet
import KernelModel.KfsInode
import KernelModel.LinkerSlots
import KernelModel.LoadBalancerInv
import KernelModel.MasterKey
import KernelModel.MmapRun
import KernelModel.MutexPanic
import KernelModel.MutexSafe
import KernelModel.NotifInv
import KernelModel.Options
import KernelModel.PipeEvents
import KernelModel.PmmSearch
import KernelModel.PreprocessorLines
import KernelModel.RbTreeQueries
import KernelModel.ReadlineAutocomplete
import KernelModel.ReadlineSafe
import KernelModel.ResourceRun
import KernelModel.RingEvents
import KernelModel.RoundTrip
import KernelModel.RsaPower
import KernelModel.RwLockInv
import KernelModel.SchedulerUnique
import KernelModel.ShellQuote
import KernelModel.ShellSequence
import KernelModel.SocketMove
import KernelModel.Sort
import KernelModel.Stream
import KernelModel.TeardownSafe
import KernelModel.ThreadList
import KernelModel.TimerLocks
import KernelModel.TimerTree
import KernelModel.UdpChecksum
import KernelModel.UdpReceive
import KernelModel.UserArray
import KernelModel.VfsCalls
import KernelModel.VfsLock
import KernelModel.VfsPath
import KernelModel.VmmDeinit
