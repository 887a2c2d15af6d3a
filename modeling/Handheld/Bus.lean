import Handheld.Cartridge.Basic
import Handheld.Cpu.Registers
import Handheld.Dma
import Handheld.Interrupt
import Handheld.Joypad
import Handheld.Ppu.Step
import Handheld.Serial
import Handheld.Sound.Apu
import Handheld.Timer

/-!
The bus: every unit but the processor, and the address map through which the processor and the
transfers reach them. A read or write of a register may act on its unit; `peek` looks without
acting.
-/

namespace Handheld

/-- The bank of work memory at D000 after the start, and where none is selected. -/
def Bus.initialBank : Fin 8 := 1

structure Bus (σ : Type) where
  model : Model
  cartridge : Cartridge σ
  ppu : Ppu := { model }
  apu : Apu := {}
  timer : Timer := {}
  joypad : Joypad := {}
  held : Buttons := {}
  serial : Serial := {}
  dma : Dma := {}
  interrupts : Interrupts := {}
  /-- Eight banks of work memory. -/
  wram : Memory 0x8000 := .zeroed _
  /-- The bank at D000, which is never the first. -/
  wramBank : Fin 8 := Bus.initialBank
  hram : Memory 0x7F := .zeroed _
  speed : Speed := .normal
  /-- A speed switch is armed. -/
  speedPrimed : Bool := false
  /-- The first fault since it was last asked for. -/
  fault : Option Fault := none

inductive Region where
  | cartridge
  | vram
  | wram
  | oam
  | unusable
  | io
  | hram
  | enable
  deriving DecidableEq, Repr

def Region.ofAddress (a : UInt16) : Region :=
  if a < 0x8000 then .cartridge
  else if a < 0xA000 then .vram
  else if a < 0xC000 then .cartridge
  else if a < 0xFE00 then .wram
  else if a < 0xFEA0 then .oam
  else if a < 0xFF00 then .unusable
  else if a < 0xFF80 then .io
  else if a < 0xFFFF then .hram
  else .enable

inductive IoTarget where
  | joypad
  | serial
  | timer
  | requests
  | sound
  | video
  | oamDma
  | speed
  | vramDma
  | wramBank
  /-- Known, but it does nothing and reads as ones. -/
  | inert
  | unmapped
  deriving DecidableEq, Repr

/-- A register that only a color console has is inert on a monochrome one. -/
def IoTarget.ofAddress (model : Model) (a : UInt16) : IoTarget :=
  let colorOnly (t : IoTarget) : IoTarget := if model.isColor then t else .inert
  if a = 0xFF00 then .joypad
  else if a = 0xFF01 || a = 0xFF02 then .serial
  else if 0xFF04 ≤ a && a ≤ 0xFF07 then .timer
  else if a = 0xFF0F then .requests
  else if 0xFF10 ≤ a && a ≤ 0xFF3F then .sound
  else if a = 0xFF46 then .oamDma
  else if 0xFF40 ≤ a && a ≤ 0xFF4B then .video
  else if a = 0xFF4D then colorOnly .speed
  else if a = 0xFF4F then .video
  else if 0xFF51 ≤ a && a ≤ 0xFF55 then colorOnly .vramDma
  else if a = 0xFF50 || a = 0xFF56 then .inert
  else if 0xFF68 ≤ a && a ≤ 0xFF6B then .video
  else if a = 0xFF70 then colorOnly .wramBank
  else .unmapped

namespace Bus
variable {σ : Type} [ExternalMemory σ]

def bootDivider : UInt16 := 0xABCC

def afterBoot (b : Bus σ) : Bus σ :=
  { b with
    timer := (b.timer.setDiv bootDivider).1
    interrupts := { requested := 0x01, enabled := 0x00 }
    ppu := b.ppu.afterBoot
    apu := b.apu.afterBoot
    joypad := b.joypad.write 0x30
    speed := .normal
    speedPrimed := false }

def moveSinks (source target : Apu) : Apu :=
  Channel.all.foldl (fun a c => (a.setSink c (source.output c).sink).2) target

/-- Puts every unit but the cartridge back to its start. The outputs, the held buttons and the
interrupt registers carry over. -/
def reset (b : Bus σ) : Bus σ :=
  let fresh : Ppu := { model := b.model }
  let ppu := match b.ppu.video with
    | some out => fresh.setVideo out
    | none => fresh
  { model := b.model
    cartridge := b.cartridge
    ppu
    apu := moveSinks b.apu {}
    held := b.held
    interrupts := b.interrupts
    speed := b.speed
    speedPrimed := b.speedPrimed : Bus σ }.afterBoot

/-- Switches the speed if a switch is armed, and says whether it did. -/
def switchSpeed (b : Bus σ) : Bus σ × Bool :=
  if b.model.isColor && b.speedPrimed then
    ({ b with speedPrimed := false, speed := b.speed.other }, true)
  else (b, false)

/-- Takes the first fault since the last call. -/
def takeFault (b : Bus σ) : Option Fault × Bus σ := (b.fault, { b with fault := none })

def recordFault (b : Bus σ) (f : Fault) : Bus σ :=
  if b.fault.isNone then { b with fault := some f } else b

/-- The bank of work memory that a value selects, which is never the first. -/
def selectedBank (v : UInt8) : Fin 8 :=
  if v.toNat % 8 = 0 then initialBank else Fin.ofNat 8 v.toNat

def wramOffset (bank : Nat) (a : UInt16) : Nat :=
  let offset := a.toNat % 0x2000
  if offset < 0x1000 then offset else bank * 0x1000 + (offset - 0x1000)

def peek (b : Bus σ) (a : UInt16) : UInt8 :=
  match Region.ofAddress a with
  | .cartridge => b.cartridge.read a
  | .vram => b.ppu.readVram a
  | .wram => b.wram.read (wramOffset b.wramBank a)
  | .oam => b.ppu.readOam (a - 0xFE00).toNat
  | .unusable => 0x00
  | .io => 0xFF
  | .hram => b.hram.read (a - 0xFF80).toNat
  | .enable => b.interrupts.enabled

def syncJoypad (b : Bus σ) : Bus σ :=
  let (joypad, raised) := b.joypad.sync b.held
  { b with joypad, interrupts := b.interrupts.raiseIf .joypad raised }

def readJoypad (b : Bus σ) : UInt8 × Bus σ :=
  let (v, joypad, raised) := b.joypad.read b.held
  (v, { b with joypad, interrupts := b.interrupts.raiseIf .joypad raised })

def readSpeed (b : Bus σ) : UInt8 :=
  0x7E ||| (if b.speed.isDouble then 0x80 else 0) ||| (if b.speedPrimed then 0x01 else 0)

def readIo (b : Bus σ) (a : UInt16) : UInt8 × Bus σ :=
  match IoTarget.ofAddress b.model a with
  | .joypad => b.readJoypad
  | .serial => (b.serial.read a, b)
  | .timer => (b.timer.read a, b)
  | .requests => (b.interrupts.readRequested, b)
  | .sound => (b.apu.readRegister a, b)
  | .video => (b.ppu.readRegister a, b)
  | .oamDma | .vramDma => (b.dma.read a, b)
  | .speed => (b.readSpeed, b)
  | .wramBank => (0xF8 ||| UInt8.ofNat b.wramBank, b)
  | .inert => (0xFF, b)
  | .unmapped => (0xFF, b.recordFault (.unmappedRegister a .read))

def read (b : Bus σ) (a : UInt16) : UInt8 × Bus σ :=
  if Region.ofAddress a = .io then b.readIo a else (b.peek a, b)

def writeTimer (b : Bus σ) (a : UInt16) (v : UInt8) : Bus σ :=
  let (timer, raised) := b.timer.write a v
  { b with timer, interrupts := b.interrupts.raiseIf .timer raised }

def setDivider (b : Bus σ) (div : UInt16) : Bus σ :=
  let (timer, raised) := b.timer.setDiv div
  { b with timer, interrupts := b.interrupts.raiseIf .timer raised }

def writeIo (b : Bus σ) (a : UInt16) (v : UInt8) : Bus σ :=
  match IoTarget.ofAddress b.model a with
  | .joypad => { b with joypad := b.joypad.write v }
  | .serial => { b with serial := b.serial.write a v }
  | .timer => b.writeTimer a v
  | .requests => { b with interrupts := b.interrupts.writeRequested v }
  | .sound => { b with apu := b.apu.writeRegister a v }
  | .video => { b with ppu := b.ppu.writeRegister a v }
  | .oamDma | .vramDma => { b with dma := b.dma.write a v }
  | .speed => { b with speedPrimed := v &&& 0x01 != 0 }
  | .wramBank => { b with wramBank := selectedBank v }
  | .inert => b
  | .unmapped => b.recordFault (.unmappedRegister a .write)

def write (b : Bus σ) (a : UInt16) (v : UInt8) : Bus σ :=
  match Region.ofAddress a with
  | .cartridge => { b with cartridge := b.cartridge.write a v }
  | .vram => { b with ppu := b.ppu.writeVram a v }
  | .wram =>
    let offset := wramOffset b.wramBank a
    { b with wram := b.wram.write offset v }
  | .oam => { b with ppu := b.ppu.writeOam (a - 0xFE00).toNat v }
  | .unusable => b
  | .io => b.writeIo a v
  | .hram => { b with hram := b.hram.write (a - 0xFF80).toNat v }
  | .enable => { b with interrupts := b.interrupts.writeEnabled v }

def readWord (b : Bus σ) (a : UInt16) : UInt16 × Bus σ :=
  let (low, b) := b.read a
  let (high, b) := b.read (a + 1)
  (word high low, b)

def writeWord (b : Bus σ) (a : UInt16) (w : UInt16) : Bus σ :=
  (b.write a (lowByte w)).write (a + 1) (highByte w)

/-- The address a transfer reads: the echo of work memory stands for everything from E000 on. -/
def dmaAddress (a : UInt16) : UInt16 := if 0xE000 ≤ a then a - 0x2000 else a

instance : DmaBus (Bus σ) where
  readByte b a := b.peek (dmaAddress a)
  writeOam b i v := { b with ppu := b.ppu.writeOam i v }
  writeVram b a v := { b with ppu := b.ppu.writeVram a v }
  hblank b := if b.ppu.lcdEnabled && b.ppu.inHBlank then some b.ppu.hblankCount else none

def stepPpu (b : Bus σ) : Bus σ :=
  let ppu := b.ppu
  let b := { b with ppu := { model := b.model } }
  let (ppu, signals) := ppu.step
  { b with
    ppu
    interrupts :=
      (b.interrupts.raiseIf .vblank signals.vblank).raiseIf .lcdStat signals.stat }

def stepTimer (b : Bus σ) : Bus σ :=
  let (timer, raised) := b.timer.step
  { b with timer, interrupts := b.interrupts.raiseIf .timer raised }

def stepDma (b : Bus σ) : Bus σ :=
  let dma := b.dma
  let (dma, b) := dma.step b
  { b with dma }

def stepSerial (b : Bus σ) : Bus σ :=
  let (serial, raised) := b.serial.step
  { b with serial, interrupts := b.interrupts.raiseIf .serial raised }

/-- One unit cycle of the picture unit, the timer, the transfers and the serial link, in that
order. -/
def cycle (b : Bus σ) : Bus σ := b.stepPpu.stepTimer.stepDma.stepSerial

def runCycles : Nat → Bus σ → Bus σ
  | 0, b => b
  | n + 1, b => runCycles n b.cycle

end Bus
end Handheld
