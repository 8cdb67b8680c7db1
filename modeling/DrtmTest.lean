import DrtmTest.Core.Dict
import DrtmTest.Core.Bytes
import DrtmTest.Core.Find
import DrtmTest.Core.Noise
import DrtmTest.Core.Text
import DrtmTest.Core.Decimal
import DrtmTest.Core.Lines
import DrtmTest.Core.Json
import DrtmTest.Core.JsonDumps
import DrtmTest.Core.Sorted
import DrtmTest.Core.PurePath
import DrtmTest.Core.HashChain
import DrtmTest.Core.Pool
import DrtmTest.Core.Shlex
import DrtmTest.EventLog
import DrtmTest.Qmp
import DrtmTest.QemuVm
import DrtmTest.Console
import DrtmTest.Tcg2Log
import DrtmTest.Tpm
import DrtmTest.ReplayCommits
import DrtmTest.LogFrames
import DrtmTest.LogRefusal
import DrtmTest.LogDump
import DrtmTest.LaunchLog
import DrtmTest.ConsoleCursor
import DrtmTest.ConsoleAnswers
import DrtmTest.Ansi
import DrtmTest.ConsoleRun
import DrtmTest.MenuTitles
import DrtmTest.HexDump
import DrtmTest.GuestDumps
import DrtmTest.PcrReads
import DrtmTest.SharedPort
import DrtmTest.PcrConsole
import DrtmTest.BankListing
import DrtmTest.Registers
import DrtmTest.ConsoleVerdict
import DrtmTest.LaunchVerdict
import DrtmTest.RegisterReads
import DrtmTest.ConsoleHang
import DrtmTest.Grub
import DrtmTest.GrubCfg
import DrtmTest.GrubShell
import DrtmTest.BootImage
import DrtmTest.QmpReplies
import DrtmTest.Session
import DrtmTest.RunDirs
import DrtmTest.Collection
import DrtmTest.Conftest
import DrtmTest.Matrix
import DrtmTest.Environment
import DrtmTest.Report
import DrtmTest.Badges
import DrtmTest.ReportOrder
import DrtmTest.ReportTables
import DrtmTest.ReportNotes
import DrtmTest.ReportWrite
import DrtmTest.MarkdownTable
import DrtmTest.SerialReader
import DrtmTest.Entries
import DrtmTest.ResultsFile
import DrtmTest.ExpectedFailures
import DrtmTest.MatrixRun
import DrtmTest.BootPool
import DrtmTest.Machine
import DrtmTest.TbBoot
import DrtmTest.Cache
import DrtmTest.WarmFirmware
import DrtmTest.BootLeaks
