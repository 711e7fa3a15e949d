import Atalanta.ApbMtimer.Core
import Atalanta.ApbMtimer.Time
import Atalanta.Library.Handshake
import Atalanta.Obi.Signals
import Atalanta.Obi.ToApb
import Atalanta.IrqPulseCdc
import Atalanta.Library.LaneMemory
import Atalanta.Obi.SramCore
import Atalanta.Obi.SramMemory
import Atalanta.Interconnect.RtPkg
import Atalanta.Interconnect.Wiring
import Atalanta.Interconnect.Routes
import Atalanta.Interconnect.AddressSpace
import Atalanta.Interconnect.Isolation
import Atalanta.Library.Preemption
import Atalanta.Library.WordMemory
import Atalanta.Trampoline.Hart
import Atalanta.Trampoline.Emit
import Atalanta.Trampoline.Wrapper
import Atalanta.Trampoline.Nesting
import Atalanta.Trampoline.NestedInterrupt
import Atalanta.ApbCfgRegs
import Atalanta.ApbSelection
import Atalanta.Obi.ToApbResponse
import Atalanta.ClockDivider
import Atalanta.Interconnect.Banking
import Atalanta.Bsp.MTimer
import Atalanta.Bsp.MTimerCounter
import Atalanta.Clic.RegTop
import Atalanta.Clic.Driver
import Atalanta.Clic.Registers
import Atalanta.Clic.Pending
import Atalanta.Testbench.ElfLoader
import Atalanta.Library.Overlay
import Atalanta.Testbench.JtagPreload
import Atalanta.Testbench.LoadedImage
import Atalanta.Interconnect.Links
import Atalanta.Interconnect.CutParameters
import Atalanta.Library.Device
import Atalanta.ApbMtimer.Stopped
import Atalanta.Bsp.MTimerLo
import Atalanta.Bsp.Arithmetic
import Atalanta.Bsp.OneShot
import Atalanta.Bsp.OneShotDuration
import Atalanta.Bsp.TimerGroup
import Atalanta.Bsp.TimingArithmetic
import Atalanta.Bsp.UartListen
import Atalanta.Bsp.Gpio
import Atalanta.Testbench.HaltLoad
import Atalanta.Testbench.JtagCalls
import Atalanta.SmokeTests.PreemptedPop
import Atalanta.SmokeTests.UartTransmit
import Atalanta.Bsp.Register
import Atalanta.Bsp.BuildScript
import Atalanta.Testbench.ElfBounds
import Atalanta.SmokeTests.Crt0
import Atalanta.Clic.OldApi
import Atalanta.Testbench.UartReceive
import Atalanta.Bsp.UartConsole
import Atalanta.Bsp.Blink
import Atalanta.Bsp.LedInterrupt
import Atalanta.SmokeTests.MemorySanity
import Atalanta.SmokeTests.Printing
import Atalanta.Clic.IrqSetup
import Atalanta.SmokeTests.Packets
import Atalanta.Obi.BridgedProgram
import Atalanta.Bsp.TimerSamples
import Atalanta.Testbench.DebugMemory
import Atalanta.Testbench.ElfRun
import Atalanta.SmokeTests.SharedCounter
import Atalanta.SmokeTests.InitUart
