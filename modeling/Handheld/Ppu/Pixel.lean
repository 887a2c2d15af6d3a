import Handheld.Ppu.Basic

/-!
The color of one pixel: the background or window behind it, the first sprite with an opaque pixel
there, and the rule of which of the two shows.
-/

namespace Handheld

/-- Bit `bit` of a row of tile data, whose two bytes hold the low and high bits of the numbers. -/
def tileColor (low high : UInt8) (bit : Nat) : Nat :=
  (low.toNat >>> bit) % 2 + 2 * ((high.toNat >>> bit) % 2)

structure BackgroundPixel where
  number : Nat := 0
  palette : Nat := 0
  /-- Shown in front of any sprite, on a color console. -/
  priority : Bool := false
  deriving DecidableEq, Repr

/-- The attributes of a map cell; on a monochrome console all are clear. -/
structure CellAttributes where
  bits : UInt8
  deriving DecidableEq, Repr

namespace CellAttributes

def priority (a : CellAttributes) : Bool := a.bits &&& 0x80 != 0

def flipY (a : CellAttributes) : Bool := a.bits &&& 0x40 != 0

def flipX (a : CellAttributes) : Bool := a.bits &&& 0x20 != 0

def bank (a : CellAttributes) : Nat := if a.bits &&& 0x08 = 0 then 0 else 1

def palette (a : CellAttributes) : Nat := (a.bits &&& 0x07).toNat

def row (a : CellAttributes) (py : UInt8) : Nat :=
  if a.flipY then 7 - py.toNat % 8 else py.toNat % 8

def bit (a : CellAttributes) (px : UInt8) : Nat :=
  if a.flipX then px.toNat % 8 else 7 - px.toNat % 8

end CellAttributes

namespace Ppu

def tileAddress (p : Ppu) (index : UInt8) : Nat :=
  if p.registers.unsignedTiles || index ≥ 0x80 then 16 * index.toNat
  else 0x1000 + 16 * index.toNat

/-- Offset of the map cell in a column of the map, on the row of a pixel. -/
def mapAddress (base column : Nat) (py : UInt8) : Nat := base + py.toNat / 8 * 32 + column

def cellAttributes (p : Ppu) (address : Nat) : CellAttributes :=
  ⟨if p.model.isColor then p.vram.byte 1 address else 0⟩

/-- Offset of the tile row that a map cell shows on the row of a pixel. -/
def rowAddress (p : Ppu) (address : Nat) (py : UInt8) : Nat :=
  p.tileAddress (p.vram.byte 0 address) + 2 * (p.cellAttributes address).row py

def tileSource (p : Ppu) (base column : Nat) (py : UInt8) : FetchSource :=
  let address := mapAddress base (column % 32) py
  .tile (p.cellAttributes address).bank (p.rowAddress address py)

def mapPixel (p : Ppu) (base : Nat) (px py : UInt8) : BackgroundPixel :=
  let address := mapAddress base (px.toNat / 8) py
  let attributes := p.cellAttributes address
  let row := p.rowAddress address py
  { number := tileColor (p.vram.byte attributes.bank row) (p.vram.byte attributes.bank (row + 1))
      (attributes.bit px)
    palette := attributes.palette
    priority := attributes.priority }

/-- The pixel behind the sprites. With the background off, a monochrome console has color 0
there. -/
def backgroundPixel (p : Ppu) (x : Nat) : BackgroundPixel :=
  if !p.model.isColor && !p.registers.backgroundBit then {}
  else if p.transfer.window then
    p.mapPixel p.registers.windowMap (UInt8.ofNat x + 7 - p.registers.wx) p.windowLine
  else
    p.mapPixel p.registers.backgroundMap (UInt8.ofNat x + p.registers.scx)
      (p.ly + p.registers.scy)

/-- Row of a sprite on the current line, in a sprite of the height selected for the line. -/
def spriteRow (p : Ppu) (s : Sprite) : Nat :=
  let height := p.lineSprites.height
  let row := (p.ly - s.y + 16) &&& (height - 1)
  (if s.flipY then height - 1 - row else row).toNat

/-- The tile a sprite starts at: a tall sprite starts at an even one. -/
def spriteTile (p : Ppu) (s : Sprite) : Nat :=
  if p.lineSprites.height = 16 then (s.tile &&& 0xFE).toNat else s.tile.toNat

def spriteAddress (p : Ppu) (s : Sprite) : Nat := 16 * p.spriteTile s + 2 * p.spriteRow s

def spriteNumber (p : Ppu) (s : Sprite) (x : Nat) : Nat :=
  let column := x + 8 - s.x.toNat
  let bit := if s.flipX then column else 7 - column
  let bank := if p.model.isColor then s.bank else 0
  let row := p.spriteAddress s
  tileColor (p.vram.byte bank row) (p.vram.byte bank (row + 1)) bit

/-- The first sprite of the line with an opaque pixel in a column, with its color number. -/
def spritePixel? (p : Ppu) (x : Nat) : Option (Nat × Sprite) :=
  p.lineSprites.slots.findSome? fun slot =>
    if slot.sprite.coversColumn x then
      let n := p.spriteNumber slot.sprite x
      if n = 0 then none else some (n, slot.sprite)
    else none

def backgroundColor (p : Ppu) (bg : BackgroundPixel) : Rgb :=
  if p.model.isColor then p.backgroundPalettes.color bg.palette bg.number
  else p.shades.get (shadeIndex p.registers.bgp bg.number)

def spriteColor (p : Ppu) (n : Nat) (s : Sprite) : Rgb :=
  if p.model.isColor then p.objectPalettes.color s.colorPalette n
  else p.shades.get (shadeIndex (if s.secondPalette then p.registers.obp1 else p.registers.obp0) n)

def hides (p : Ppu) (bg : BackgroundPixel) (s : Sprite) : Bool :=
  if p.model.isColor then
    p.registers.backgroundBit && bg.number != 0 && (bg.priority || s.behindBackground)
  else s.behindBackground && bg.number != 0

/-- The color a column of the current line shows over a background pixel. -/
def composed (p : Ppu) (x : Nat) (bg : BackgroundPixel) : Rgb :=
  if p.registers.spritesShown then
    match p.spritePixel? x with
    | some (n, s) => if p.hides bg s then p.backgroundColor bg else p.spriteColor n s
    | none => p.backgroundColor bg
  else p.backgroundColor bg

def drawPixel (p : Ppu) (x : Nat) : Ppu :=
  let bg := p.backgroundPixel x
  let color := p.composed x bg
  let y := p.ly.toNat
  { p with frames := p.frames.put x y color bg.number }

end Ppu
end Handheld
