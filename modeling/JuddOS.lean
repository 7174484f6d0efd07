import JuddOS.ReadData
import JuddOS.ExecuteProgram
import JuddOS.PageIsolation
import JuddOS.HaltPreemption
import JuddOS.Verdict
import JuddOS.TimerSwitch
import JuddOS.Screens
import JuddOS.KeyEffects
import JuddOS.DirectoryStreams
import JuddOS.InterruptFlag
import JuddOS.LineReads
import JuddOS.CommandArrays
import JuddOS.Getargs
import JuddOS.HaltDescriptors
import JuddOS.FilePositions
import JuddOS.ScrollingTerminal
import JuddOS.RtcRegisters
import JuddOS.Vidmap
import JuddOS.BackgroundWrites
import JuddOS.CommandKeys
import JuddOS.ClearedLines
import JuddOS.ScreenEcho
import JuddOS.HardwareCursor
import JuddOS.EndOfInterrupt
import JuddOS.RtcLine
import JuddOS.SystemCall
import JuddOS.PutcScreen
import JuddOS.MemoryRoutines
import JuddOS.VideoStores
import JuddOS.ProcessSteps
import JuddOS.MachineEffects
import JuddOS.KernelEvents
import JuddOS.Interrupts
import JuddOS.System
import JuddOS.InterruptLines
import JuddOS.SystemInvariant
import JuddOS.ProcessIsolation
import JuddOS.Preemption
import JuddOS.CallReturn
import JuddOS.CallStacks
import JuddOS.RoundRobin
import JuddOS.Idt
import JuddOS.VirtualProcessors
import JuddOS.SystemStreams
