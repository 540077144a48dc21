import Ftrace.Aftermath
import Ftrace.CallStack
import Ftrace.CallTargets
import Ftrace.CallTree
import Ftrace.CorruptSymbols
import Ftrace.DescriptorRing
import Ftrace.Dotfile
import Ftrace.Edges
import Ftrace.ElfBounds
import Ftrace.ElfFormat
import Ftrace.Exec
import Ftrace.ExitStatus
import Ftrace.FunctionList
import Ftrace.FunctionNodes
import Ftrace.GetSymbols
import Ftrace.Graph
import Ftrace.GraphFile
import Ftrace.HeaderWalk
import Ftrace.Interrupts
import Ftrace.Labels
import Ftrace.Lib.Bytes
import Ftrace.Lib.CText
import Ftrace.Lib.Compare
import Ftrace.Lib.Dot
import Ftrace.Lib.ExchangeSort
import Ftrace.Lib.Flags
import Ftrace.Lib.Heap
import Ftrace.Lib.Layout
import Ftrace.Lib.Lines
import Ftrace.Lib.Mapped
import Ftrace.Lib.Nesting
import Ftrace.Lib.Numerals
import Ftrace.Lib.Ring
import Ftrace.Lib.Runs
import Ftrace.Lib.Strtok
import Ftrace.Lib.X86
import Ftrace.LibCache
import Ftrace.LibNames
import Ftrace.LibraryCalls
import Ftrace.LoadInfos
import Ftrace.LoadedSymbols
import Ftrace.MapsFormat
import Ftrace.MapsLines
import Ftrace.NamedRegisters
import Ftrace.NearCalls
import Ftrace.NextLine
import Ftrace.NextLines
import Ftrace.Operands
import Ftrace.Overflow
import Ftrace.PathSearch
import Ftrace.PrintCalls
import Ftrace.Protocol
import Ftrace.ResolveSymbols
import Ftrace.Sib
import Ftrace.Snapshots
import Ftrace.SortOrder
import Ftrace.SortSym
import Ftrace.SymbolFiles
import Ftrace.SymbolNames
import Ftrace.Syscalls.Arguments
import Ftrace.Syscalls.Buffers
import Ftrace.Syscalls.Flags
import Ftrace.Syscalls.Generated
import Ftrace.Syscalls.Lengths
import Ftrace.Syscalls.Lines
import Ftrace.Syscalls.Printers
import Ftrace.Syscalls.ReadBack
import Ftrace.Syscalls.Table
import Ftrace.Terminal
import Ftrace.Trace
import Ftrace.Tracee
import Ftrace.TypeInstruction
import Ftrace.WaitLoop
import Ftrace.YoloCmp
