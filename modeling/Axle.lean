import Axle.Acpi.InterruptRouting
import Axle.Agx.Blit
import Axle.Agx.FillRect
import Axle.Agx.Layer
import Axle.Agx.Overlap
import Axle.Agx.Rect
import Axle.Ata.Drive
import Axle.Ata.RequestQueue
import Axle.Awm.Desktop
import Axle.Awm.DrawableRegions
import Axle.Awm.ExtraDraws
import Axle.Awm.Hover
import Axle.Awm.MainLoop
import Axle.Awm.Minimize
import Axle.Awm.MouseTracking
import Axle.Awm.References
import Axle.Awm.ShortcutGrid
import Axle.Awm.Steps
import Axle.Awm.Survival
import Axle.Awm.Visibility
import Axle.Awm.WellFormed
import Axle.Awm.WindowPlacement
import Axle.Compiler.Codegen
import Axle.Compiler.Encoding
import Axle.Compiler.Literals
import Axle.Compiler.LongestMatch
import Axle.Compiler.OperatorChains
import Axle.Compiler.Optimizer
import Axle.Compiler.Parser
import Axle.Compiler.Pipeline
import Axle.Compiler.Simulator
import Axle.Compiler.Statements
import Axle.FileManager.Fat
import Axle.FileManager.FatCache
import Axle.FileManager.FatFiles
import Axle.FileManager.FatPartial
import Axle.FileManager.FatReboot
import Axle.FileManager.FatStructure
import Axle.FileManager.Vfs
import Axle.FileServer.InitrdFs
import Axle.FileServer.PathResolution
import Axle.GameBoy.Cartridge
import Axle.GameBoy.Cpu
import Axle.GameBoy.CpuTotal
import Axle.GameBoy.Interrupts
import Axle.GameBoy.MultiByte
import Axle.GameBoy.Ppu
import Axle.GameBoy.PpuRuns
import Axle.GameBoy.Scanline
import Axle.GameBoy.Sprites
import Axle.GameBoy.Timer
import Axle.Games.Game2048
import Axle.Kernel.AdiDrivers
import Axle.Kernel.AmcDelivery
import Axle.Kernel.AmcDrain
import Axle.Kernel.AmcIsolation
import Axle.Kernel.AmcLocks
import Axle.Kernel.AmcMessage
import Axle.Kernel.AmcReferences
import Axle.Kernel.AmcWakeup
import Axle.Kernel.ArrayM
import Axle.Kernel.ArrayMCells
import Axle.Kernel.CloneTeardown
import Axle.Kernel.ContiguousChunkPool
import Axle.Kernel.ElfLoader
import Axle.Kernel.FrameOwnership
import Axle.Kernel.FreeRegion
import Axle.Kernel.MlfqScheduler
import Axle.Kernel.OneCpuPerTask
import Axle.Kernel.PageMapping
import Axle.Kernel.PageTables
import Axle.Kernel.PageTree
import Axle.Kernel.PmmInit
import Axle.Kernel.Sbrk
import Axle.Kernel.SleepingServices
import Axle.Kernel.TaskDeath
import Axle.Kernel.TaskState
import Axle.Kernel.VasAgreement
import Axle.Kernel.VasCanonical
import Axle.Kernel.VasClone
import Axle.Kernel.VasRanges
import Axle.Kernel.VasSelection
import Axle.Kernel.Vmm
import Axle.Lib.BinaryWeight
import Axle.Lib.CarryChain
import Axle.Lib.Checked
import Axle.Lib.EraseIndexes
import Axle.Lib.ErrorKinds
import Axle.Lib.InverseTable
import Axle.Lib.LockOrder
import Axle.Lib.MaximalMunch
import Axle.Lib.NearestDouble
import Axle.Lib.OnesComplement
import Axle.Lib.PairLoop
import Axle.Lib.Pieces
import Axle.Lib.PrecedenceTree
import Axle.Lib.RadixTable
import Axle.Lib.StepRun
import Axle.Libgui.ScrollOffset
import Axle.Libgui.ScrollView
import Axle.Libgui.TextView
import Axle.Linker.AssemblyParser
import Axle.Linker.AssemblyText
import Axle.Linker.Elf
import Axle.Linker.EmittedText
import Axle.Linker.FileLayout
import Axle.Linker.Jumps
import Axle.Linker.Lookahead
import Axle.Net.Checksum
import Axle.Net.DnsCache
import Axle.Net.DnsDecode
import Axle.Net.DnsMessage
import Axle.Net.DnsName
import Axle.Net.DnsQuery
import Axle.Net.Frames
import Axle.Net.ReadDispatch
import Axle.Net.Tcp
import Axle.Net.TcpDelivery
import Axle.Net.TcpHandshake
import Axle.Net.TcpReads
import Axle.Net.TcpSettled
import Axle.Netclient.HtmlChunks
import Axle.Netclient.Layout
import Axle.Netclient.TextFlow
import Axle.Sata.CommandSlots
import Axle.Ttf.CharacterMap
import Axle.Ttf.GlyphMetrics
import Axle.Ttf.GlyphOutline
