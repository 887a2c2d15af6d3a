import Handheld.Memory

/-!
Colors: the four shades of a monochrome console, and the palette memory of a color console with its
index register, which can advance after every write.
-/

namespace Handheld

structure Rgb where
  red : UInt8
  green : UInt8
  blue : UInt8
  deriving DecidableEq, Repr

def Rgb.white : Rgb := ⟨0xFF, 0xFF, 0xFF⟩

/-- The four shades of a monochrome console, lightest first. -/
structure Shades where
  lightest : Rgb := ⟨0xFF, 0xFF, 0xFF⟩
  light : Rgb := ⟨0xAA, 0xAA, 0xAA⟩
  dark : Rgb := ⟨0x55, 0x55, 0x55⟩
  darkest : Rgb := ⟨0x00, 0x00, 0x00⟩
  deriving DecidableEq, Repr

namespace Shades

def get (s : Shades) (i : Nat) : Rgb :=
  match i with
  | 0 => s.lightest
  | 1 => s.light
  | 2 => s.dark
  | _ => s.darkest

def toList (s : Shades) : List Rgb := [s.lightest, s.light, s.dark, s.darkest]

end Shades

/-- The shade that a monochrome palette register gives a color number. -/
def shadeIndex (palette : UInt8) (color : Nat) : Nat := palette.toNat >>> (2 * color) % 4

def spreadChannel (c : Nat) : UInt8 := UInt8.ofNat (c <<< 3 ||| c >>> 2)

/-- The color of a pair of palette bytes: five bits a channel, red lowest. -/
def Rgb.ofPair (low high : UInt8) : Rgb :=
  let raw := high.toNat * 256 + low.toNat
  ⟨spreadChannel (raw % 32), spreadChannel (raw / 32 % 32), spreadChannel (raw / 1024 % 32)⟩

structure PaletteRam where
  /-- The index register: place in the low six bits, bit 6 always set, advance in bit 7. -/
  index : UInt8 := 0x40
  data : Memory 64 := Memory.filled 64 0xFF

namespace PaletteRam

def cell (p : PaletteRam) : Nat := (p.index &&& 0x3F).toNat

def advances (p : PaletteRam) : Bool := p.index &&& 0x80 != 0

def writeIndex (p : PaletteRam) (v : UInt8) : PaletteRam :=
  { p with index := v &&& 0xBF ||| 0x40 }

def readData (p : PaletteRam) : UInt8 := p.data.read p.cell

def writeData (p : PaletteRam) (v : UInt8) : PaletteRam :=
  { index := if p.advances then 0xC0 ||| (p.index + 1 &&& 0x3F) else p.index
    data := p.data.write p.cell v }

/-- The color of a number below four in one of the eight palettes. -/
def color (p : PaletteRam) (palette number : Nat) : Rgb :=
  let place := 8 * palette + 2 * number
  .ofPair (p.data.read place) (p.data.read (place + 1))

end PaletteRam
end Handheld
