import Handheld.Ppu.Palette
import Handheld.Ppu.Sprite

/-!
The frame being drawn, the last one completed, and the output that completed frames are handed to.
-/

namespace Handheld

def pixelCount : Nat := screenWidth * screenHeight

/-- A picture: three bytes a pixel, rows from the top. -/
abbrev Picture := Memory (3 * pixelCount)

namespace Picture

def put (p : Picture) (x y : Nat) (c : Rgb) : Picture :=
  let place := 3 * (y * screenWidth + x)
  ((p.write place c.red).write (place + 1) c.green).write (place + 2) c.blue

def get (p : Picture) (x y : Nat) : Rgb :=
  let place := 3 * (y * screenWidth + x)
  ⟨p.read place, p.read (place + 1), p.read (place + 2)⟩

def black : Picture := .zeroed _

def row (p : Picture) (y : Nat) : ByteArray := p.slice (3 * screenWidth * y) (3 * screenWidth)

def paint (c : Rgb) (p : Picture) (i : Nat) : Nat → Picture
  | 0 => p
  | n + 1 => paint c (((p.write (3 * i) c.red).write (3 * i + 1) c.green).write (3 * i + 2) c.blue)
      (i + 1) n

def solid (c : Rgb) : Picture := paint c black 0 pixelCount

end Picture

/-- Two pictures, and the color numbers of the frame being drawn. -/
structure FrameBuffers where
  back : Picture := .black
  front : Picture := .black
  /-- Color number of the background under each pixel being drawn. -/
  numbers : Memory pixelCount := .zeroed _

namespace FrameBuffers

def put (f : FrameBuffers) (x y : Nat) (c : Rgb) (number : Nat) : FrameBuffers :=
  { f with
    back := Picture.put f.back x y c
    numbers := f.numbers.write (y * screenWidth + x) (UInt8.ofNat number) }

/-- Exchanges the pictures, so that the one just drawn is the last completed. -/
def promote (f : FrameBuffers) : FrameBuffers := { f with back := f.front, front := f.back }

def fill (_ : FrameBuffers) (c : Rgb) : FrameBuffers :=
  { back := .solid c, front := .solid c, numbers := .zeroed _ }

def number (f : FrameBuffers) (x y : Nat) : Nat := (f.numbers.read (y * screenWidth + x)).toNat

end FrameBuffers

inductive VideoEvent where
  | setSize (width height : Nat)
  | frame (picture : Picture)
  /-- The last frame is to be shown again. -/
  | blit

/-- A receiver of completed frames: it ignores what it is told, keeps all of it, or counts the
frames and keeps the latest. -/
inductive VideoOutput where
  | ignoring
  | recording (log : Array VideoEvent)
  | latest (count : Nat) (picture : Option Picture)

namespace VideoOutput

def tell : VideoOutput → VideoEvent → VideoOutput
  | .ignoring, _ => .ignoring
  | .recording log, e => .recording (log.push e)
  | .latest n _, .frame p => .latest (n + 1) (some p)
  | .latest n p, _ => .latest n p

end VideoOutput
end Handheld
