import Handheld.Ppu.Sprite

/-!
The fetch of a pair of bytes for the line being drawn. It takes six cycles: the first byte is read
on the second, the other on the fourth, and the pair is handed over on the sixth.
-/

namespace Handheld

abbrev Vram := Memory 0x4000

def vramBankSize : Nat := 0x2000

def Vram.byte (vram : Vram) (bank offset : Nat) : UInt8 := vram.read (bank * vramBankSize + offset)

inductive FetchSource where
  /-- A row of a tile. -/
  | tile (bank address : Nat)
  /-- The place of a sprite. -/
  | sprite (index : Nat)
  deriving DecidableEq, Repr

def FetchSource.read (vram : Vram) (oam : Oam) (i : Nat) : FetchSource → UInt8
  | .tile bank address => vram.byte (bank % 2) ((address + i) % vramBankSize)
  | .sprite index => oam.read ((4 * index + i) % 160)

structure Fetcher where
  source : Option FetchSource := none
  elapsed : Nat := 0
  first : UInt8 := 0
  second : UInt8 := 0
  deriving DecidableEq, Repr

namespace Fetcher

def length : Nat := 6

def start (source : FetchSource) : Fetcher := { source := some source }

def busy (f : Fetcher) : Bool := f.source.isSome

def cancel (f : Fetcher) : Fetcher := { f with source := none, elapsed := 0 }

def tick (f : Fetcher) (vram : Vram) (oam : Oam) : Fetcher × Option (UInt8 × UInt8) :=
  match f.source with
  | none => (f, none)
  | some source =>
    match f.elapsed + 1 with
    | 2 => ({ f with elapsed := 2, first := source.read vram oam 0 }, none)
    | 4 => ({ f with elapsed := 4, second := source.read vram oam 1 }, none)
    | 6 => ({ f with source := none, elapsed := 0 }, some (f.first, f.second))
    | n => ({ f with elapsed := n }, none)

/-- Cycles up to the one that hands over a pair, at most a number of them, with the number of that
cycle after those already taken. -/
def finish (vram : Vram) (oam : Oam) (taken : Nat) :
    Nat → Fetcher → Option (Nat × UInt8 × UInt8) × Fetcher
  | 0, f => (none, f)
  | n + 1, f =>
    match f.tick vram oam with
    | (f, some pair) => (some (taken, pair), f)
    | (f, none) => finish vram oam (taken + 1) n f

end Fetcher
end Handheld
