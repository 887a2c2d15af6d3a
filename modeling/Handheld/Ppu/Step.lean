import Handheld.Ppu.Pixel

/-!
One dot of the picture unit. A visible line is 80 dots of sprite search, a pixel transfer whose
length its stalls decide, and a horizontal blank for the rest; ten lines of vertical blank follow.
-/

namespace Handheld

structure PpuSignals where
  vblank : Bool := false
  stat : Bool := false
  deriving DecidableEq, Repr

namespace Ppu

def searchDots : Nat := 80

/-- Cycles from the landing of the first fetch of a line to its first pixel. -/
def pipelineFill : Nat := 2

def startFetch (p : Ppu) (source : FetchSource) : Ppu :=
  { p with fetcher := ((Fetcher.start source).tick p.vram p.oam).1 }

/-- Fixes the sprites of the line and starts its pixel transfer. -/
def beginTransfer (p : Ppu) : Ppu :=
  let sprites := LineSprites.search p.oam p.ly p.registers.spriteHeight
  let scx := p.registers.scx
  let source :=
    p.tileSource p.registers.backgroundMap (scx.toNat / 8) (p.ly + p.registers.scy)
  { p with
    lineSprites := sprites
    mode := .pixelTransfer
    transfer := { stall := pipelineFill + scx.toNat % 8, cycles := 1, waiting := sprites.slots }
    : Ppu }.startFetch source

def windowEnabled (p : Ppu) : Bool :=
  p.registers.windowBit && (p.model.isColor || p.registers.backgroundBit)

def windowLimit : UInt8 := 166

def windowCovers (p : Ppu) (x : Nat) : Bool :=
  p.windowEnabled && p.registers.wy ≤ p.ly && p.registers.wx ≤ windowLimit &&
    p.registers.wx.toNat ≤ x + 7

def enterWindow (p : Ppu) : Ppu :=
  let source := p.tileSource p.registers.windowMap 0 p.windowLine
  { p with transfer := { p.transfer with window := true } : Ppu }.startFetch source

/-- A sprite of the line that starts in a column and was not fetched. -/
def waitingSprite? (p : Ppu) (x : Nat) : Option SpriteSlot :=
  if p.registers.spritesShown then
    p.transfer.waiting.find? fun slot => slot.sprite.firstColumn == x
  else none

def spriteStall (p : Ppu) (s : Sprite) : Nat := 5 - min ((s.x.toNat + p.registers.scx.toNat) % 8) 5

def fetchSprite (p : Ppu) (slot : SpriteSlot) : Ppu :=
  let stall := p.spriteStall slot.sprite
  { p with
    transfer := { p.transfer with stall, waiting := p.transfer.waiting.erase slot }
    : Ppu }.startFetch (.sprite slot.index)

def finishTransfer (p : Ppu) : Ppu :=
  { p with
    mode := .hblank
    hblankCount := p.hblankCount + 1
    lastTransferCycles := p.transfer.cycles
    windowLine := if p.transfer.window then p.windowLine + 1 else p.windowLine }

def shiftOut (p : Ppu) (x : Nat) : Ppu :=
  let p := p.drawPixel x
  let p := { p with transfer := { p.transfer with x := x + 1 } }
  if x + 1 = screenWidth then p.finishTransfer else p

def advance (p : Ppu) (x : Nat) : Ppu :=
  if !p.transfer.window && p.windowCovers x then p.enterWindow
  else
    match p.waitingSprite? x with
    | some slot => p.fetchSprite slot
    | none => p.shiftOut x

def transferCycle (p : Ppu) : Ppu :=
  let p := { p with transfer := { p.transfer with cycles := p.transfer.cycles + 1 } }
  if p.fetcher.busy then { p with fetcher := (p.fetcher.tick p.vram p.oam).1 }
  else if 0 < p.transfer.stall then
    { p with transfer := { p.transfer with stall := p.transfer.stall - 1 } }
  else p.advance p.transfer.x

def enterVBlank (p : Ppu) : Ppu :=
  let p :=
    { p with mode := .vblank, frames := p.frames.promote, frameCount := p.frameCount + 1 }
  p.tellVideo (.frame p.frontBuffer)

def beginLine (p : Ppu) (line : Nat) : Ppu :=
  let p := { p with ly := UInt8.ofNat line }
  if line < screenHeight then { p with mode := .oamSearch }
  else if line = screenHeight then p.enterVBlank
  else p

def visibleDot (p : Ppu) (lineDot : Nat) : Ppu :=
  if lineDot = searchDots then p.beginTransfer
  else if p.mode = .pixelTransfer then p.transferCycle
  else p

/-- Whether an enabled source of the status interrupt is active. -/
def statSignal (p : Ppu) (coincidence : Bool) : Bool :=
  let stat := p.registers.stat
  (match p.mode with
    | .hblank => stat &&& 0x08 != 0
    | .vblank => stat &&& 0x10 != 0
    | .oamSearch => stat &&& 0x20 != 0
    | .pixelTransfer => false) ||
    (coincidence && stat &&& 0x40 != 0)

/-- Samples the status sources; a rise of their signal requests the interrupt. -/
def sampleStat (p : Ppu) : Ppu × Bool :=
  let coincidence := p.ly == p.registers.lyc
  let signal := p.statSignal coincidence
  let rises := signal && !p.statLine
  ({ p with coincidence, statLine := signal }, rises)

def nextDot (p : Ppu) : Ppu :=
  if p.dot + 1 = cyclesPerFrame then { p with dot := 0, windowLine := 0 }
  else { p with dot := p.dot + 1 }

/-- What the unit does on a dot before the status sources are sampled. -/
def drawDot (p : Ppu) : Ppu :=
  let line := p.dot / dotsPerLine
  let lineDot := p.dot % dotsPerLine
  let p := if lineDot = 0 then p.beginLine line else p
  if line < screenHeight then p.visibleDot lineDot else p

def vblankDot : Nat := screenHeight * dotsPerLine

/-- One dot. A display that is off does nothing. -/
def step (p : Ppu) : Ppu × PpuSignals :=
  if p.lcdEnabled then
    let vblank := p.dot == vblankDot
    let (p, stat) := p.drawDot.sampleStat
    (p.nextDot, { vblank, stat })
  else (p, {})

end Ppu
end Handheld
