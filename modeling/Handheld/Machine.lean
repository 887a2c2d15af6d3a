import Handheld.Breakpoint
import Handheld.Cpu.Step
import Handheld.Settings

/-!
The whole machine. A step executes one instruction and then clocks the units for the cycles it took;
the sound unit catches up once a frame.
-/

namespace Handheld

structure StepInfo where
  /-- Processor cycles of the step. -/
  cycles : Nat
  /-- The step filled up a frame. -/
  frameComplete : Bool
  deriving DecidableEq, Repr

structure Machine (σ : Type) where
  core : Core σ
  breakpoints : BreakpointSet := {}
  settings : MachineSettings := {}
  /-- Processor cycles into the current frame. -/
  frameCycles : Nat := 0
  /-- Unit cycles that the sound unit has still to catch up with. -/
  soundCycles : Nat := 0
  /-- Frames since the last reset. -/
  frames : Nat := 0

namespace Machine
variable {σ : Type} [ExternalMemory σ]

def cpu (m : Machine σ) : Cpu := m.core.cpu

def bus (m : Machine σ) : Bus σ := m.core.bus

def model (m : Machine σ) : Model := m.bus.model

def pc (m : Machine σ) : UInt16 := m.cpu.registers.pc

def applyShades (b : Bus σ) (s : MachineSettings) : Bus σ :=
  match s.shades with
  | some shades => { b with ppu := { b.ppu with shades } }
  | none => b

/-- A machine with a cartridge, as the start-up program leaves it. -/
def create (cartridge : Cartridge σ) (settings : MachineSettings) : Machine σ :=
  let model := settings.model.resolve cartridge.header
  let bus : Bus σ := { model, cartridge }
  { core := { cpu := .postBoot model, bus := applyShades bus.afterBoot settings }, settings }

/-- A machine with a program whose cartridge forgets its memory. -/
def ofRom (rom : ByteArray) (settings : MachineSettings) : Except Fault (Machine VolatileRam) := do
  return create (← Cartridge.create rom {}) settings

/-- Goes back to the start, but keeps the cartridge, the outputs and the breakpoints. -/
def reset (m : Machine σ) : Machine σ :=
  { core := { cpu := .postBoot m.model, bus := applyShades m.bus.reset m.settings }
    breakpoints := m.breakpoints
    settings := m.settings }

@[inline]
def mapBus (m : Machine σ) (f : Bus σ → Bus σ) : Machine σ :=
  { m with core := { m.core with bus := f m.core.bus } }

def setVideo (m : Machine σ) (out : VideoOutput) : Machine σ :=
  m.mapBus fun b => { b with ppu := b.ppu.setVideo out }

def takeVideo (m : Machine σ) : Option VideoOutput × Machine σ :=
  (m.bus.ppu.video, m.mapBus fun b => { b with ppu := b.ppu.takeVideo.2 })

/-- Connects a sink to a channel, or none, and gives back the one it replaces. -/
def setSink (m : Machine σ) (c : Channel) (sink : Option AudioSink) :
    Option AudioSink × Machine σ :=
  ((m.bus.apu.output c).sink, m.mapBus fun b => { b with apu := (b.apu.setSink c sink).2 })

def connectQueue (m : Machine σ) (c : Channel) (capacity : Nat) : Option AudioSink × Machine σ :=
  m.setSink c (some (.queue (.create capacity m.settings.sampleRate)))

def takeFault (m : Machine σ) : Option Fault × Machine σ :=
  (m.bus.fault, m.mapBus fun b => b.takeFault.2)

def finishFrame (soundCycles : Nat) (b : Bus σ) : Bus σ :=
  { b with apu := b.apu.step soundCycles : Bus σ }.syncJoypad

def step : Machine σ → Machine σ × StepInfo
  | { core, breakpoints, settings, frameCycles, soundCycles, frames } =>
    let speed := core.bus.speed
    let (core, cycles) := core.step
    let units := cycles / speed.divisor
    let core := { core with bus := core.bus.runCycles units }
    let soundCycles := soundCycles + units
    let frameCycles := frameCycles + cycles
    if speed.frameBudget ≤ frameCycles then
      ({ core := { core with bus := finishFrame soundCycles core.bus }
         breakpoints, settings
         frameCycles := frameCycles - speed.frameBudget
         soundCycles := 0
         frames := frames + 1 },
        { cycles, frameComplete := true })
    else
      ({ core, breakpoints, settings, frameCycles, soundCycles, frames },
        { cycles, frameComplete := false })

def runUntilFrame : Nat → Machine σ → Machine σ
  | 0, m => m
  | n + 1, m =>
    match m.step with
    | (m, info) => if info.frameComplete then m else runUntilFrame n m

/-- Steps within which a frame is complete: every step takes four cycles at least. -/
def frameStepLimit : Nat := cyclesPerFrame * 2 / 4

def runFrame (m : Machine σ) : Machine σ := m.runUntilFrame frameStepLimit

def breakpointHit (m : Machine σ) : Option Nat :=
  m.breakpoints.check m.pc m.cpu.registers

def intoCartridge (m : Machine σ) : Cartridge σ := m.bus.cartridge

end Machine
end Handheld
