import Handheld.Hardware
import Handheld.Ppu.Fetcher
import Handheld.Ppu.Frame

/-!
The picture unit: its memories, registers and place in the frame.
-/

namespace Handheld

inductive Mode where
  | hblank
  | vblank
  | oamSearch
  | pixelTransfer
  deriving DecidableEq, Repr

namespace Mode

def number : Mode → UInt8
  | .hblank => 0
  | .vblank => 1
  | .oamSearch => 2
  | .pixelTransfer => 3

def name : Mode → String
  | .hblank => "HBlank"
  | .vblank => "VBlank"
  | .oamSearch => "OamSearch"
  | .pixelTransfer => "PixelTransfer"

end Mode

structure LcdRegisters where
  lcdc : UInt8 := 0
  stat : UInt8 := 0
  scy : UInt8 := 0
  scx : UInt8 := 0
  lyc : UInt8 := 0
  bgp : UInt8 := 0
  obp0 : UInt8 := 0
  obp1 : UInt8 := 0
  wy : UInt8 := 0
  wx : UInt8 := 0
  deriving DecidableEq, Repr

namespace LcdRegisters

def enabled (r : LcdRegisters) : Bool := r.lcdc &&& 0x80 != 0

/-- Offset of the map that bit `mask` of the control register selects. -/
def mapBase (r : LcdRegisters) (mask : UInt8) : Nat :=
  if r.lcdc &&& mask = 0 then 0x1800 else 0x1C00

def backgroundMap (r : LcdRegisters) : Nat := r.mapBase 0x08

def windowMap (r : LcdRegisters) : Nat := r.mapBase 0x40

def windowBit (r : LcdRegisters) : Bool := r.lcdc &&& 0x20 != 0

/-- Tiles are numbered from the start of video memory, and not around its middle. -/
def unsignedTiles (r : LcdRegisters) : Bool := r.lcdc &&& 0x10 != 0

def spriteHeight (r : LcdRegisters) : UInt8 := if r.lcdc &&& 0x04 = 0 then 8 else 16

def spritesShown (r : LcdRegisters) : Bool := r.lcdc &&& 0x02 != 0

def backgroundBit (r : LcdRegisters) : Bool := r.lcdc &&& 0x01 != 0

end LcdRegisters

/-- Progress through the pixel transfer of a line. -/
structure Transfer where
  /-- Next column to be drawn. -/
  x : Nat := 0
  /-- Idle cycles owed before the next pixel. -/
  stall : Nat := 0
  cycles : Nat := 0
  /-- The window has taken over the rest of the line. -/
  window : Bool := false
  /-- Sprites of the line that have not been fetched. -/
  waiting : List SpriteSlot := []
  deriving DecidableEq, Repr

structure Ppu where
  model : Model
  registers : LcdRegisters := {}
  vram : Vram := .zeroed _
  vramBank : Nat := 0
  oam : Oam := .zeroed _
  backgroundPalettes : PaletteRam := {}
  objectPalettes : PaletteRam := {}
  shades : Shades := {}
  ly : UInt8 := 0
  /-- Dot within the frame. -/
  dot : Nat := 0
  mode : Mode := .hblank
  /-- The line was the one asked for, at the last dot. -/
  coincidence : Bool := false
  /-- Some enabled source asked for a status interrupt, at the last dot. -/
  statLine : Bool := false
  lineSprites : LineSprites := {}
  transfer : Transfer := {}
  fetcher : Fetcher := {}
  /-- Row of the window that the next line with the window shows. -/
  windowLine : UInt8 := 0
  /-- Length of the last pixel transfer that came to its end. -/
  lastTransferCycles : Nat := 0
  frames : FrameBuffers := {}
  video : Option VideoOutput := none
  /-- Frames completed since power on. -/
  frameCount : Nat := 0
  /-- Horizontal blanks entered since power on. -/
  hblankCount : Nat := 0

namespace Ppu

def afterBoot (p : Ppu) : Ppu :=
  { p with
    registers :=
      { p.registers with lcdc := 0x91, stat := 0, bgp := 0xFC, obp0 := 0xFF, obp1 := 0xFF }
    dot := 0
    ly := 0
    mode := .oamSearch
    statLine := false }

def lcdEnabled (p : Ppu) : Bool := p.registers.enabled

def inHBlank (p : Ppu) : Bool := p.mode == .hblank

/-- Connects an output, which is told the size of the screen first. -/
def setVideo (p : Ppu) (out : VideoOutput) : Ppu :=
  { p with video := some (out.tell (.setSize screenWidth screenHeight)) }

def takeVideo (p : Ppu) : Option VideoOutput × Ppu := (p.video, { p with video := none })

def tellVideo (p : Ppu) (e : VideoEvent) : Ppu := { p with video := p.video.map (·.tell e) }

def blit (p : Ppu) : Ppu := p.tellVideo .blit

def frontBuffer (p : Ppu) : Picture := p.frames.front

def vramOffset (p : Ppu) (address : UInt16) : Nat :=
  p.vramBank * vramBankSize + address.toNat % vramBankSize

def readVram (p : Ppu) (address : UInt16) : UInt8 := p.vram.read (p.vramOffset address)

def writeVram (p : Ppu) (address : UInt16) (v : UInt8) : Ppu :=
  let offset := p.vramOffset address
  { p with vram := p.vram.write offset v }

def readOam (p : Ppu) (i : Nat) : UInt8 := if i < 160 then p.oam.read i else 0xFF

def writeOam (p : Ppu) (i : Nat) (v : UInt8) : Ppu := { p with oam := p.oam.write i v }

/-- The status register: enabled sources, coincidence, and the mode while the display is on. -/
def readStat (p : Ppu) : UInt8 :=
  0x80 ||| (p.registers.stat &&& 0x78) ||| (if p.coincidence then 0x04 else 0) |||
    (if p.lcdEnabled then p.mode.number else 0)

def readColorRegister (p : Ppu) (address : UInt16) : UInt8 :=
  match address with
  | 0xFF4F => 0xFE ||| UInt8.ofNat p.vramBank
  | 0xFF68 => p.backgroundPalettes.index
  | 0xFF69 => p.backgroundPalettes.readData
  | 0xFF6A => p.objectPalettes.index
  | 0xFF6B => p.objectPalettes.readData
  | _ => 0xFF

def readRegister (p : Ppu) (address : UInt16) : UInt8 :=
  match address with
  | 0xFF40 => p.registers.lcdc
  | 0xFF41 => p.readStat
  | 0xFF42 => p.registers.scy
  | 0xFF43 => p.registers.scx
  | 0xFF44 => p.ly
  | 0xFF45 => p.registers.lyc
  | 0xFF47 => p.registers.bgp
  | 0xFF48 => p.registers.obp0
  | 0xFF49 => p.registers.obp1
  | 0xFF4A => p.registers.wy
  | 0xFF4B => p.registers.wx
  | _ => if p.model.isColor then p.readColorRegister address else 0xFF

/-- The display is switched on: the frame starts anew. -/
def enableLcd (p : Ppu) : Ppu :=
  { p with dot := 0, ly := 0, windowLine := 0, statLine := false, mode := .oamSearch }

def blankColor (p : Ppu) : Rgb := if p.model.isColor then .white else p.shades.lightest

/-- The display is switched off: the line in progress is dropped and a blank frame is shown. -/
def disableLcd (p : Ppu) : Ppu :=
  let blank := p.blankColor
  let p :=
    { p with
      mode := .hblank
      ly := 0
      dot := 0
      windowLine := 0
      transfer := {}
      fetcher := p.fetcher.cancel
      lineSprites := p.lineSprites.clear
      frames := p.frames.fill blank }
  (p.tellVideo (.frame p.frontBuffer)).tellVideo .blit

def writeControl (p : Ppu) (v : UInt8) : Ppu :=
  let before := p.lcdEnabled
  let p := { p with registers := { p.registers with lcdc := v } }
  if before && !p.lcdEnabled then p.disableLcd
  else if !before && p.lcdEnabled then p.enableLcd
  else p

def writeColorRegister (p : Ppu) (address : UInt16) (v : UInt8) : Ppu :=
  match address with
  | 0xFF4F => { p with vramBank := v.toNat % 2 }
  | 0xFF68 => { p with backgroundPalettes := p.backgroundPalettes.writeIndex v }
  | 0xFF69 => { p with backgroundPalettes := p.backgroundPalettes.writeData v }
  | 0xFF6A => { p with objectPalettes := p.objectPalettes.writeIndex v }
  | 0xFF6B => { p with objectPalettes := p.objectPalettes.writeData v }
  | _ => p

def writeRegister (p : Ppu) (address : UInt16) (v : UInt8) : Ppu :=
  match address with
  | 0xFF40 => p.writeControl v
  | 0xFF41 => { p with registers := { p.registers with stat := v &&& 0x78 } }
  | 0xFF42 => { p with registers := { p.registers with scy := v } }
  | 0xFF43 => { p with registers := { p.registers with scx := v } }
  | 0xFF44 => p
  | 0xFF45 => { p with registers := { p.registers with lyc := v } }
  | 0xFF47 => { p with registers := { p.registers with bgp := v } }
  | 0xFF48 => { p with registers := { p.registers with obp0 := v } }
  | 0xFF49 => { p with registers := { p.registers with obp1 := v } }
  | 0xFF4A => { p with registers := { p.registers with wy := v } }
  | 0xFF4B => { p with registers := { p.registers with wx := v } }
  | _ => if p.model.isColor then p.writeColorRegister address v else p

end Ppu
end Handheld
