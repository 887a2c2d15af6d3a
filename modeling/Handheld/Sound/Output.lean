import Handheld.Hardware
import Handheld.Sound.Queue

/-!
Where the sound of a channel goes. Samples are rendered at the sample rate of the sink connected to
the channel, mixed to two sides, and handed over in one block after each step of the sound unit.
-/

namespace Handheld

inductive Channel where
  | square1
  | square2
  | wave
  | noise
  deriving DecidableEq, Repr

namespace Channel

def all : List Channel := [.square1, .square2, .wave, .noise]

def index : Channel → Nat
  | .square1 => 0
  | .square2 => 1
  | .wave => 2
  | .noise => 3

def name : Channel → String
  | .square1 => "Square1"
  | .square2 => "Square2"
  | .wave => "Wave"
  | .noise => "Noise"

end Channel

/-- Samples handed to a sink: `length` of them from `offset` on are meant. -/
structure SampleBlock where
  samples : Array Sample
  offset : Nat
  length : Nat

def SampleBlock.window (b : SampleBlock) : List Sample :=
  (b.samples.extract b.offset (b.offset + b.length)).toList

/-- A receiver of samples: one that keeps what it is given, or a queue. -/
inductive AudioSink where
  | recorder (sampleRate : Nat) (blocks : Array SampleBlock)
  | queue (q : AudioQueue)

namespace AudioSink

def sampleRate : AudioSink → Nat
  | .recorder rate _ => rate
  | .queue q => q.sampleRate

def accept (b : SampleBlock) : AudioSink → AudioSink
  | .recorder rate blocks => .recorder rate (blocks.push b)
  | .queue q => .queue (q.bufferSamples b.samples b.offset b.length)

end AudioSink

structure Mix where
  left : Float32 := 0.0
  right : Float32 := 0.0

namespace Mix

def gain (code : UInt8) : Float32 := Float32.ofNat (code.toNat % 8 + 1) / 8.0

/-- The gains that the volume and panning registers give a channel. -/
def ofRegisters (volume panning : UInt8) (c : Channel) : Mix where
  left := if panning.toNat.testBit (c.index + 4) then gain (volume >>> 4) else 0.0
  right := if panning.toNat.testBit c.index then gain volume else 0.0

end Mix

/-- The output of a channel: its sink, and what was rendered for it since the last block. -/
structure ChannelOutput where
  sink : Option AudioSink := none
  scratch : Array Sample := #[]
  /-- Part of a frame carried over, in parts of the clock rate. -/
  remainder : Nat := 0

namespace ChannelOutput

def connected (o : ChannelOutput) : Bool := o.sink.isSome

def set (_ : ChannelOutput) (sink : Option AudioSink) : ChannelOutput := { sink }

/-- Appends frames of a voice, whose state moves on by one step a frame. -/
@[specialize]
def renderFrames {α : Type} (next : α → Float32 × α) (mix : Mix) :
    Nat → α → Array Sample → α × Array Sample
  | 0, voice, scratch => (voice, scratch)
  | n + 1, voice, scratch =>
    let (level, voice) := next voice
    let scratch := scratch.push (.ofLevel (level * mix.left))
    renderFrames next mix n voice (scratch.push (.ofLevel (level * mix.right)))

@[specialize]
def render {α : Type} (o : ChannelOutput) (next : Float → α → Float32 × α) (voice : α)
    (cycles : Nat) (mix : Mix) : α × ChannelOutput :=
  match o.sink with
  | none => (voice, o)
  | some sink =>
    let rate := sink.sampleRate
    let total := o.remainder + cycles * rate
    let (voice, scratch) :=
      renderFrames (next (Float.ofNat rate)) mix (total / clockHz) voice o.scratch
    (voice, { o with scratch, remainder := total % clockHz })

def drain (o : ChannelOutput) : List StereoFrame × ChannelOutput :=
  match o.sink with
  | some (.queue q) =>
    let (frames, q) := q.drain
    (frames, { o with sink := some (.queue q) })
  | _ => ([], o)

def flush (o : ChannelOutput) : ChannelOutput :=
  if o.scratch.isEmpty then o
  else
    let block := { samples := o.scratch, offset := 0, length := o.scratch.size }
    { o with sink := o.sink.map (·.accept block), scratch := #[] }

end ChannelOutput
end Handheld
