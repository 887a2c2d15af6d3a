import Handheld.Bench.Bus
import Handheld.Bench.Cpu
import Handheld.Bench.Image
import Handheld.Bench.Machine
import Handheld.Bench.Text
import Handheld.Cli.MemoryHost
import Handheld.Main
import Handheld.Proofs.Breakpoint
import Handheld.Proofs.Bus.BlankCourse
import Handheld.Proofs.Bus.GeneralTransfer
import Handheld.Proofs.Bus.Requests
import Handheld.Proofs.Cartridge.Checksum
import Handheld.Proofs.Cartridge.Clock
import Handheld.Proofs.Configuration.Files
import Handheld.Proofs.Cpu.FlagRegister
import Handheld.Proofs.Cpu.Footprint
import Handheld.Proofs.Cpu.Listing
import Handheld.Proofs.Cpu.Operands
import Handheld.Proofs.Cpu.Stack
import Handheld.Proofs.Cpu.WideArithmetic
import Handheld.Proofs.Dma.InRange
import Handheld.Proofs.Joypad
import Handheld.Proofs.Machine.Cycles
import Handheld.Proofs.Machine.Enable
import Handheld.Proofs.Machine.Faults
import Handheld.Proofs.Machine.FrameRun
import Handheld.Proofs.Machine.Halted
import Handheld.Proofs.Machine.Monochrome
import Handheld.Proofs.Machine.Requests
import Handheld.Proofs.Machine.Reset
import Handheld.Proofs.Ppu.InRange
import Handheld.Proofs.Ppu.PaletteStream
import Handheld.Proofs.Ppu.Restart
import Handheld.Proofs.Ppu.Rendering
import Handheld.Proofs.Ppu.StatusInterrupts
import Handheld.Proofs.Ppu.WindowRows
import Handheld.Proofs.Ppu.Timeline
import Handheld.Proofs.Ppu.TransferLength
import Handheld.Proofs.Scheduler.Pacing
import Handheld.Proofs.Scheduler.Pauses
import Handheld.Proofs.Serial
import Handheld.Proofs.Sound.Handoff
import Handheld.Proofs.Sound.Modulation
import Handheld.Proofs.Sound.Queue
import Handheld.Proofs.Sound.Registers
import Handheld.Proofs.Sound.ShiftRegister
import Handheld.Proofs.Text.Address
import Handheld.Proofs.Timer
