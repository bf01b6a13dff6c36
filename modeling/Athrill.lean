import Athrill.Cpu.AthrillMemory
import Athrill.Cpu.CodeLookup
import Athrill.Debugger.ArrayPrint
import Athrill.Debugger.ContClocks
import Athrill.Debugger.ContainerSort
import Athrill.Debugger.DataWatch
import Athrill.Debugger.FuncFrame
import Athrill.Debugger.FuncTrace
import Athrill.Debugger.GdbRspBreak
import Athrill.Debugger.GdbRspFrames
import Athrill.Debugger.GdbRspMemory
import Athrill.Debugger.Profile
import Athrill.Debugger.SerialIn
import Athrill.Dwarf.Abbrev
import Athrill.Dwarf.LineLookup
import Athrill.Dwarf.Loc
import Athrill.Dwarf.StructType
import Athrill.Elf.ClassAgree
import Athrill.Hakoniwa.StageCalls
import Athrill.Hakoniwa.WorldTime
import Athrill.Loader.RegionPointers
import Athrill.Loader.VaddrFlag
import Athrill.Main.BatchTrace
import Athrill.Main.BinaryStart
import Athrill.Main.DevcfgString
import Athrill.Main.EndClock
import Athrill.Main.FifoConfig
import Athrill.Main.HostFunction
import Athrill.Main.OptionWords
import Athrill.Main.SymbolSet
import Athrill.Mpu.RegionEnd
import Athrill.Mros.TcpRosRequest
import Athrill.Mros.Topic
import Athrill.Peripheral.Calloc
import Athrill.Peripheral.CommQueue
import Athrill.Peripheral.DirTable
import Athrill.Peripheral.MpThread
import Athrill.Peripheral.SerialFifoRx
import Athrill.Peripheral.SerialFifoTx
import Athrill.Peripheral.SerialThreads
import Athrill.Peripheral.SocketErrors
