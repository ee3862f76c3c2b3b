import PipTestsuite.ExitCode
import PipTestsuite.Lib.RotatingLog
import PipTestsuite.TestSh.Options
import PipTestsuite.TestSh.Run
import PipTestsuite.TestSh.Walk
import PipTestsuite.TestSh.Counters
import PipTestsuite.TestSh.ErrorLog
import PipTestsuite.TestSh.Kill
import PipTestsuite.TestSh.LogRotation
import PipTestsuite.Launcher
import PipTestsuite.LoopSh
import PipTestsuite.PipsTest
import PipTestsuite.Timer
import PipTestsuite.TestRoot
import PipTestsuite.Lib.BarrierProgram
import PipTestsuite.Seek
import PipTestsuite.Lib.BarrierPhases
import PipTestsuite.BarrierCount
import PipTestsuite.SeekStream
import PipTestsuite.PipKill
import PipTestsuite.PipNamexp
import PipTestsuite.Fork.Children
import PipTestsuite.Fork.Reaping
import PipTestsuite.Lib.Ledger
import PipTestsuite.MallocX
import PipTestsuite.HookCoe.Chain
import PipTestsuite.Lib.Relay
import PipTestsuite.HookCoe.Wiring
import PipTestsuite.HookCoe.Stream
import PipTestsuite.HookCoe.EndOfFile
import PipTestsuite.HookCoe.Alive
import PipTestsuite.HookCoe.Root
import PipTestsuite.HookCoe.Rounds
import PipTestsuite.SeekTruncated
import PipTestsuite.Lib.SlotStealing
import PipTestsuite.ReallocX
import PipTestsuite.StealingLoops
import PipTestsuite.TimerLoad
import PipTestsuite.TimerScale
import PipTestsuite.TestSh.TotalTime
import PipTestsuite.Lib.Text
import PipTestsuite.TestSh.TestLog
import PipTestsuite.Lib.ShellWord
import PipTestsuite.TestSh.SummaryFile
import PipTestsuite.Lib.EscapedLines
import PipTestsuite.TestSh.TestList
import PipTestsuite.Lib.Xml
import PipTestsuite.TestSh.Report
import PipTestsuite.LauncherSpawns
import PipTestsuite.Corebind
import PipTestsuite.Spinlock
import PipTestsuite.Lib.PhaseRuns
import PipTestsuite.Lib.Rounding
import PipTestsuite.Malloc
import PipTestsuite.Skip
import PipTestsuite.Lib.CBuffer
import PipTestsuite.SignalNumber
import PipTestsuite.DebugScripts
import PipTestsuite.SeekTransfer
import PipTestsuite.Abc
import PipTestsuite.Lib.LockedCounter
import PipTestsuite.BltMutex
import PipTestsuite.PthreadMutex
import PipTestsuite.Atomic
import PipTestsuite.Pagefault
import PipTestsuite.Environ
import PipTestsuite.Lib.SharedHeap
import PipTestsuite.MallocTasks
import PipTestsuite.PipWait
import PipTestsuite.LoopCommand
import PipTestsuite.End
import PipTestsuite.Tls
