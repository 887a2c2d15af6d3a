/-!
A bounded queue of stereo frames in a ring of slots. One slot stays free, so that equal positions
mean an empty queue; a push onto a full queue is dropped and counted.
-/

namespace Handheld

/-- A sample of sound by the bits of its level, all of which are kept, also those of a level that is
no number. -/
structure Sample where
  bits : UInt32
  deriving DecidableEq, Repr

namespace Sample

def ofLevel (x : Float32) : Sample := ⟨x.toBits⟩

def level (s : Sample) : Float32 := .ofBits s.bits

def silent : Sample := ⟨0⟩

def bytes (s : Sample) : List UInt8 :=
  [s.bits.toUInt8, (s.bits >>> 8).toUInt8, (s.bits >>> 16).toUInt8, (s.bits >>> 24).toUInt8]

end Sample

structure StereoFrame where
  left : Sample
  right : Sample
  deriving DecidableEq, Repr

namespace StereoFrame

def silent : StereoFrame := ⟨.silent, .silent⟩

end StereoFrame

structure AudioQueue where
  slots : Array StereoFrame
  /-- Where the next frame is written. -/
  head : Nat := 0
  /-- Where the next frame is read. -/
  tail : Nat := 0
  sampleRate : Nat
  dropped : Nat := 0

namespace AudioQueue

def create (capacity sampleRate : Nat) : AudioQueue :=
  { slots := Array.replicate (max 2 (capacity + 1)) .silent, sampleRate }

def capacity (q : AudioQueue) : Nat := q.slots.size - 1

def length (q : AudioQueue) : Nat :=
  if q.tail ≤ q.head then q.head - q.tail else q.slots.size - q.tail + q.head

def isEmpty (q : AudioQueue) : Bool := q.length == 0

def nextIndex (q : AudioQueue) (i : Nat) : Nat := if i + 1 = q.slots.size then 0 else i + 1

def push (q : AudioQueue) (f : StereoFrame) : AudioQueue × Bool :=
  let next := q.nextIndex q.head
  if next = q.tail then ({ q with dropped := q.dropped + 1 }, false)
  else ({ q with slots := q.slots.setIfInBounds q.head f, head := next }, true)

def pop (q : AudioQueue) : Option StereoFrame × AudioQueue :=
  if q.tail = q.head then (none, q)
  else (some (q.slots.getD q.tail .silent), { q with tail := q.nextIndex q.tail })

/-- Pushes frames in order and counts, after those already counted, the ones there was room for. -/
def pushMany (accepted : Nat) : List StereoFrame → AudioQueue → Nat × AudioQueue
  | [], q => (accepted, q)
  | f :: rest, q =>
    let (q, taken) := q.push f
    pushMany (accepted + taken.toNat) rest q

def popMany : Nat → AudioQueue → List StereoFrame × AudioQueue
  | 0, q => ([], q)
  | n + 1, q =>
    match q.pop with
    | (none, q) => ([], q)
    | (some f, q) =>
      let (fs, q) := popMany n q
      (f :: fs, q)

def drain (q : AudioQueue) : List StereoFrame × AudioQueue := q.popMany q.length

def interleave (frames : List StereoFrame) : List Sample :=
  frames.flatMap fun f => [f.left, f.right]

/-- Fills a buffer of samples from its start with the frames it has room for, and counts them. -/
def popInto (q : AudioQueue) (out : List Sample) : (Nat × List Sample) × AudioQueue :=
  let (frames, q) := q.popMany (out.length / 2)
  ((frames.length, interleave frames ++ out.drop (2 * frames.length)), q)

/-- Pushes interleaved samples in pairs; a last sample without its pair is left out. -/
def pushSamples : List Sample → AudioQueue → AudioQueue
  | l :: r :: rest, q => pushSamples rest (q.push ⟨l, r⟩).1
  | _, q => q

/-- Takes over the samples of a window. One that starts past the end of the samples has none. -/
def bufferSamples (q : AudioQueue) (samples : Array Sample) (offset length : Nat) : AudioQueue :=
  q.pushSamples (samples.extract offset (offset + length)).toList

end AudioQueue
end Handheld
