import Handheld.Memory

/-!
Sprite attributes and the selection of the sprites of one scanline: at most ten, in the order of the
attribute table.
-/

namespace Handheld

def screenWidth : Nat := 160

def screenHeight : Nat := 144

/-- Sprite attribute memory: forty entries of four bytes. -/
abbrev Oam := Memory 160

structure Sprite where
  y : UInt8
  x : UInt8
  tile : UInt8
  attributes : UInt8
  deriving DecidableEq, Repr

namespace Sprite

def encode (s : Sprite) : List UInt8 := [s.y, s.x, s.tile, s.attributes]

def ofOam (oam : Oam) (index : Nat) : Sprite where
  y := oam.read (4 * index)
  x := oam.read (4 * index + 1)
  tile := oam.read (4 * index + 2)
  attributes := oam.read (4 * index + 3)

def behindBackground (s : Sprite) : Bool := s.attributes &&& 0x80 != 0

def flipY (s : Sprite) : Bool := s.attributes &&& 0x40 != 0

def flipX (s : Sprite) : Bool := s.attributes &&& 0x20 != 0

def secondPalette (s : Sprite) : Bool := s.attributes &&& 0x10 != 0

def bank (s : Sprite) : Nat := if s.attributes &&& 0x08 = 0 then 0 else 1

def colorPalette (s : Sprite) : Nat := (s.attributes &&& 0x07).toNat

/-- Whether the rows of the sprite include a line. A sprite at Y has its first row on line
Y - 16. -/
def coversLine (s : Sprite) (ly height : UInt8) : Bool :=
  s.y.toNat ≤ ly.toNat + 16 && ly.toNat + 16 < s.y.toNat + height.toNat

def selectableX (s : Sprite) : Bool := 1 ≤ s.x && s.x < 168

def firstColumn (s : Sprite) : Nat := s.x.toNat - 8

def endColumn (s : Sprite) : Nat := min s.x.toNat screenWidth

def coversColumn (s : Sprite) (x : Nat) : Bool := s.firstColumn ≤ x && x < s.endColumn

end Sprite

/-- A sprite selected for a line, with its place in the attribute table. -/
structure SpriteSlot where
  index : Nat
  sprite : Sprite
  deriving DecidableEq, Repr

/-- The sprites of one line, and the sprite height in force when they were selected. -/
structure LineSprites where
  height : UInt8 := 8
  slots : List SpriteSlot := []
  deriving DecidableEq, Repr

namespace LineSprites

def limit : Nat := 10

def get? (s : LineSprites) (slot : Nat) : Option SpriteSlot := s.slots[slot]?

def maskFrom (x slot : Nat) : List SpriteSlot → Nat
  | [] => 0
  | s :: rest => (if s.sprite.coversColumn x then 1 <<< slot else 0) ||| maskFrom x (slot + 1) rest

def columnMask (s : LineSprites) (x : Nat) : Nat := maskFrom x 0 s.slots

def clear (s : LineSprites) : LineSprites := { s with slots := [] }

def scan (oam : Oam) (ly height : UInt8) : Nat → List Nat → List SpriteSlot
  | 0, _ => []
  | _, [] => []
  | room + 1, i :: rest =>
    let sprite := Sprite.ofOam oam i
    if sprite.coversLine ly height && sprite.selectableX then
      { index := i, sprite } :: scan oam ly height room rest
    else scan oam ly height (room + 1) rest

def entries : List Nat := List.range 40

def search (oam : Oam) (ly height : UInt8) : LineSprites where
  height := height
  slots := scan oam ly height limit entries

end LineSprites
end Handheld
