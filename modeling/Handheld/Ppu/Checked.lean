import Handheld.Ppu.Step

/-!
A dot of the picture unit that takes nothing on trust. It comes to nothing at a read or write outside
a memory or a table, at a difference below zero, at a shift past the end of a byte, and at a pixel
that is not on the screen.
-/

namespace Handheld.Checked

def read {size : Nat} (m : Memory size) (i : Nat) : Option UInt8 :=
  if i < size then some (m.read i) else none

def write {size : Nat} (m : Memory size) (i : Nat) (b : UInt8) : Option (Memory size) :=
  if i < size then some (m.write i b) else none

def vramByte (vram : Vram) (bank offset : Nat) : Option UInt8 :=
  if bank < 2 ∧ offset < vramBankSize then some (vram.byte bank offset) else none

def sub (a b : Nat) : Option Nat := if b ≤ a then some (a - b) else none

def place (i : Int) : Option Nat := if 0 ≤ i then some i.toNat else none

def lowByte (i : Int) : Nat := (i % 256).toNat

def bitOf (b : UInt8) (bit : Nat) : Option Nat :=
  if bit < 8 then some ((b.toNat >>> bit) % 2) else none

/-- Color number of a pixel in the tile row at an offset of a bank. -/
def rowColor (vram : Vram) (bank row bit : Nat) : Option Nat := do
  let low ← vramByte vram bank row
  let high ← vramByte vram bank (row + 1)
  let low ← bitOf low bit
  let high ← bitOf high bit
  return low + 2 * high

def tileAddress (p : Ppu) (index : UInt8) : Option Nat :=
  if p.registers.unsignedTiles then some (16 * index.toNat)
  else place (0x1000 + 16 * index.toInt8.toInt)

def cellAttributes (p : Ppu) (address : Nat) : Option CellAttributes :=
  if p.model.isColor then do return ⟨← vramByte p.vram 1 address⟩ else some ⟨0⟩

def cellRow (a : CellAttributes) (py : UInt8) : Option Nat :=
  let row := py.toNat % 8
  if a.flipY then sub 7 row else some row

def cellBit (a : CellAttributes) (px : UInt8) : Option Nat := do
  let bit ← sub 7 (px.toNat % 8)
  return if a.flipX then px.toNat % 8 else bit

def rowAddress (p : Ppu) (address : Nat) (a : CellAttributes) (py : UInt8) : Option Nat := do
  let index ← vramByte p.vram 0 address
  let tile ← tileAddress p index
  let row ← cellRow a py
  return tile + 2 * row

def tileSource (p : Ppu) (base column : Nat) (py : UInt8) : Option FetchSource := do
  let address := Ppu.mapAddress base (column % 32) py
  let a ← cellAttributes p address
  let row ← rowAddress p address a py
  return .tile a.bank row

def mapPixel (p : Ppu) (base : Nat) (px py : UInt8) : Option BackgroundPixel := do
  let address := Ppu.mapAddress base (px.toNat / 8) py
  let a ← cellAttributes p address
  let row ← rowAddress p address a py
  let bit ← cellBit a px
  let number ← rowColor p.vram a.bank row bit
  return { number, palette := a.palette, priority := a.priority }

def backgroundPixel (p : Ppu) (x : Nat) : Option BackgroundPixel :=
  if !p.model.isColor && !p.registers.backgroundBit then some {}
  else if p.transfer.window then do
    let px ← sub (x + 7) p.registers.wx.toNat
    mapPixel p p.registers.windowMap (UInt8.ofNat px) p.windowLine
  else
    mapPixel p p.registers.backgroundMap (UInt8.ofNat x + p.registers.scx) (p.ly + p.registers.scy)

def spriteAt (oam : Oam) (index : Nat) : Option Sprite := do
  let y ← read oam (4 * index)
  let x ← read oam (4 * index + 1)
  let tile ← read oam (4 * index + 2)
  let attributes ← read oam (4 * index + 3)
  return { y, x, tile, attributes }

/-- For every column of the screen, the slots that cover it, one bit each. -/
abbrev ColumnTable := Vector Nat screenWidth

def mark (slot : Nat) (table : ColumnTable) (x : Nat) : Nat → Option ColumnTable
  | 0 => some table
  | n + 1 =>
    if h : x < screenWidth then mark slot (table.set x (table[x] ||| 1 <<< slot) h) (x + 1) n
    else none

/-- Takes a sprite into the next of the ten slots, and into the table. -/
def select (slots : List SpriteSlot) (table : ColumnTable) (s : SpriteSlot) :
    Option (List SpriteSlot × ColumnTable) :=
  if slots.length < LineSprites.limit then do
    let first := s.sprite.firstColumn
    let table ← mark slots.length table first (s.sprite.endColumn - first)
    return (slots ++ [s], table)
  else none

def scan (oam : Oam) (ly height : UInt8) (slots : List SpriteSlot) (table : ColumnTable) :
    List Nat → Option (List SpriteSlot × ColumnTable)
  | [] => some (slots, table)
  | i :: rest =>
    if slots.length = LineSprites.limit then some (slots, table)
    else do
      let sprite ← spriteAt oam i
      if sprite.coversLine ly height && sprite.selectableX then
        let (slots, table) ← select slots table { index := i, sprite }
        scan oam ly height slots table rest
      else scan oam ly height slots table rest

def search (oam : Oam) (ly height : UInt8) : Option (LineSprites × ColumnTable) := do
  let (slots, table) ← scan oam ly height [] (.replicate _ 0) LineSprites.entries
  return ({ height, slots }, table)

def slotOf (s : LineSprites) (slot : Nat) : Option (Option SpriteSlot) :=
  if s.slots.length ≤ LineSprites.limit then some (s.get? slot) else none

def spriteRow (p : Ppu) (s : Sprite) : Option Nat := do
  let last ← sub p.lineSprites.height.toNat 1
  let row := lowByte (p.ly.toNat - (s.y.toNat - 16)) &&& last
  if s.flipY then sub last row else return row

def spriteBit (s : Sprite) (x : Nat) : Option Nat :=
  let column := lowByte (x - (s.x.toNat - 8))
  if s.flipX then some column else sub 7 column

def spriteNumber (p : Ppu) (s : Sprite) (x : Nat) : Option Nat := do
  let row ← spriteRow p s
  let bit ← spriteBit s x
  let bank := if p.model.isColor then s.bank else 0
  rowColor p.vram bank (16 * p.spriteTile s + 2 * row) bit

/-- The first of the slots listed that is in a mask and has a pixel in a column, not counting its
transparent ones. -/
def firstPixel (p : Ppu) (x mask : Nat) : List Nat → Option (Option (Nat × Sprite))
  | [] => some none
  | slot :: rest =>
    if mask.testBit slot then do
      match ← slotOf p.lineSprites slot with
      | none => firstPixel p x mask rest
      | some s =>
        let n ← spriteNumber p s.sprite x
        if n = 0 then firstPixel p x mask rest else return some (n, s.sprite)
    else firstPixel p x mask rest

def maskBits : List Nat := List.range 16

def spritePixel (p : Ppu) (x : Nat) : Option (Option (Nat × Sprite)) :=
  firstPixel p x (p.lineSprites.columnMask x) maskBits

def paletteColor (r : PaletteRam) (palette number : Nat) : Option Rgb := do
  let offset := 8 * palette + 2 * number
  let low ← read r.data offset
  let high ← read r.data (offset + 1)
  return .ofPair low high

def shade (s : Shades) (palette : UInt8) (number : Nat) : Option Rgb :=
  if 2 * number < 8 then s.toList[shadeIndex palette number]? else none

def backgroundColor (p : Ppu) (bg : BackgroundPixel) : Option Rgb :=
  if p.model.isColor then paletteColor p.backgroundPalettes bg.palette bg.number
  else shade p.shades p.registers.bgp bg.number

def spriteColor (p : Ppu) (n : Nat) (s : Sprite) : Option Rgb :=
  if p.model.isColor then paletteColor p.objectPalettes s.colorPalette n
  else shade p.shades (if s.secondPalette then p.registers.obp1 else p.registers.obp0) n

def composed (p : Ppu) (x : Nat) (bg : BackgroundPixel) : Option Rgb := do
  let behind ← backgroundColor p bg
  if p.registers.spritesShown then
    match ← spritePixel p x with
    | some (n, s) => if p.hides bg s then return behind else spriteColor p n s
    | none => return behind
  else return behind

def put (f : FrameBuffers) (x y : Nat) (c : Rgb) (number : Nat) : Option FrameBuffers :=
  if x < screenWidth ∧ y < screenHeight then do
    let pixel := y * screenWidth + x
    let back ← write f.back (3 * pixel) c.red
    let back ← write back (3 * pixel + 1) c.green
    let back ← write back (3 * pixel + 2) c.blue
    let numbers ← write f.numbers pixel (UInt8.ofNat number)
    return { f with back, numbers }
  else none

def drawPixel (p : Ppu) (x : Nat) : Option Ppu := do
  let bg ← backgroundPixel p x
  let color ← composed p x bg
  let frames ← put p.frames x p.ly.toNat color bg.number
  return { p with frames }

def fetched (vram : Vram) (oam : Oam) (i : Nat) : FetchSource → Option UInt8
  | .tile bank address => vramByte vram (bank % 2) ((address + i) % vramBankSize)
  | .sprite index => read oam ((4 * index + i) % 160)

def tick (f : Fetcher) (vram : Vram) (oam : Oam) : Option Fetcher :=
  match f.source with
  | none => some f
  | some source =>
    match f.elapsed + 1 with
    | 2 => do return { f with elapsed := 2, first := ← fetched vram oam 0 source }
    | 4 => do return { f with elapsed := 4, second := ← fetched vram oam 1 source }
    | 6 => some { f with source := none, elapsed := 0 }
    | n => some { f with elapsed := n }

def startFetch (p : Ppu) (source : FetchSource) : Option Ppu := do
  return { p with fetcher := ← tick (Fetcher.start source) p.vram p.oam }

def beginTransfer (p : Ppu) : Option Ppu := do
  let (sprites, _) ← search p.oam p.ly p.registers.spriteHeight
  let scx := p.registers.scx
  let source ←
    tileSource p p.registers.backgroundMap (scx.toNat / 8) (p.ly + p.registers.scy)
  startFetch
    { p with
      lineSprites := sprites
      mode := .pixelTransfer
      transfer :=
        { stall := Ppu.pipelineFill + scx.toNat % 8, cycles := 1, waiting := sprites.slots } }
    source

def enterWindow (p : Ppu) : Option Ppu := do
  let source ← tileSource p p.registers.windowMap 0 p.windowLine
  startFetch { p with transfer := { p.transfer with window := true } } source

def fetchSprite (p : Ppu) (slot : SpriteSlot) : Option Ppu := do
  let stall ← sub 5 (min ((slot.sprite.x.toNat + p.registers.scx.toNat) % 8) 5)
  startFetch
    { p with transfer := { p.transfer with stall, waiting := p.transfer.waiting.erase slot } }
    (.sprite slot.index)

def shiftOut (p : Ppu) (x : Nat) : Option Ppu := do
  let p ← drawPixel p x
  let p := { p with transfer := { p.transfer with x := x + 1 } }
  return if x + 1 = screenWidth then p.finishTransfer else p

def advance (p : Ppu) (x : Nat) : Option Ppu :=
  if !p.transfer.window && p.windowCovers x then enterWindow p
  else
    match p.waitingSprite? x with
    | some slot => fetchSprite p slot
    | none => shiftOut p x

def transferCycle (p : Ppu) : Option Ppu :=
  let p := { p with transfer := { p.transfer with cycles := p.transfer.cycles + 1 } }
  if p.fetcher.busy then do return { p with fetcher := ← tick p.fetcher p.vram p.oam }
  else if 0 < p.transfer.stall then do
    let stall ← sub p.transfer.stall 1
    return { p with transfer := { p.transfer with stall } }
  else advance p p.transfer.x

def visibleDot (p : Ppu) (lineDot : Nat) : Option Ppu :=
  if lineDot = Ppu.searchDots then beginTransfer p
  else if p.mode = .pixelTransfer then transferCycle p
  else some p

def drawDot (p : Ppu) : Option Ppu :=
  let line := p.dot / dotsPerLine
  let lineDot := p.dot % dotsPerLine
  let p := if lineDot = 0 then p.beginLine line else p
  if line < screenHeight then visibleDot p lineDot else some p

def step (p : Ppu) : Option (Ppu × PpuSignals) :=
  if p.lcdEnabled then do
    let drawn ← drawDot p
    let (sampled, stat) := drawn.sampleStat
    return (sampled.nextDot, { vblank := p.dot == Ppu.vblankDot, stat })
  else some (p, {})

end Handheld.Checked
