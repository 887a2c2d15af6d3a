import Handheld.Sound.Noise
import Handheld.Sound.Output
import Handheld.Sound.Wave

/-!
The sound unit: four channels behind one register file, and the sequencer that clocks their length
counters, sweep and envelopes. It is stepped by whole spans of cycles; each span is cut at the
boundaries of the sequencer, so that every change lands at the right sample.
-/

namespace Handheld

def sequencerPeriod : Nat := 8192

structure Sequencer where
  /-- The step that runs next, below eight. -/
  next : Nat
  /-- Cycles until it runs. -/
  counter : Nat
  counter_pos : 0 < counter

theorem sequencerPeriod_pos : 0 < sequencerPeriod := by decide

namespace Sequencer

def before (step : Nat) : Sequencer where
  next := step
  counter := sequencerPeriod
  counter_pos := sequencerPeriod_pos

def start : Sequencer := before 0

/-- Lets cycles pass, at most those to the next step, and says which step ran if one did. -/
def advance (s : Sequencer) (cycles : Nat) : Sequencer × Option Nat :=
  if h : cycles < s.counter then
    ({ s with counter := s.counter - cycles, counter_pos := by omega }, none)
  else (before ((s.next + 1) % 8), some s.next)

end Sequencer

structure Apu where
  square1 : SquareChannel := .create true
  square2 : SquareChannel := .create false
  wave : WaveChannel := {}
  noise : NoiseChannel := {}
  /-- The registers from FF10 to FF26 as last written. -/
  registers : Memory 23 := .zeroed 23
  powered : Bool := false
  sequencer : Sequencer := .start
  output1 : ChannelOutput := {}
  output2 : ChannelOutput := {}
  output3 : ChannelOutput := {}
  output4 : ChannelOutput := {}
  /-- Cycles stepped since the start. -/
  cycles : Nat := 0

namespace Apu

def bootRegisters : List UInt8 :=
  [0x80, 0xBF, 0xF3, 0xFF, 0xBF, 0xFF, 0x3F, 0x00, 0xFF, 0xBF, 0x7F, 0xFF, 0x9F, 0xFF, 0xBF, 0xFF,
    0xFF, 0x00, 0x00, 0xBF, 0x77, 0xF3, 0xF1]

def readMasks : Memory 23 := .ofBytes 23
  [0x80, 0x3F, 0x00, 0xFF, 0xBF, 0xFF, 0x3F, 0x00, 0xFF, 0xBF, 0x7F, 0xFF, 0x9F, 0xFF, 0xBF, 0xFF,
    0xFF, 0x00, 0x00, 0xBF, 0x00, 0x00, 0x70]

def volumeIndex : Nat := 0x14

def panningIndex : Nat := 0x15

def status (a : Apu) : UInt8 :=
  a.square1.enabled.toUInt8 ||| a.square2.enabled.toUInt8 <<< 1 |||
    a.wave.enabled.toUInt8 <<< 2 ||| a.noise.enabled.toUInt8 <<< 3

def readPower (a : Apu) : UInt8 :=
  a.status ||| 0x70 ||| if a.powered then 0x80 else 0

def readRegister (a : Apu) (address : UInt16) : UInt8 :=
  if address = 0xFF26 then a.readPower
  else if 0xFF10 ≤ address && address < 0xFF26 then
    let i := (address - 0xFF10).toNat
    a.registers.read i ||| readMasks.read i
  else if 0xFF30 ≤ address && address ≤ 0xFF3F then a.wave.readTable (address - 0xFF30).toNat
  else 0xFF

/-- Loss of power clears the channels and registers, but not the wave table. -/
def powerOff (a : Apu) : Apu :=
  { a with
    square1 := .create true
    square2 := .create false
    wave := a.wave.powerOff
    noise := {}
    registers := .zeroed 23
    powered := false }

def powerOn (a : Apu) : Apu := { a with sequencer := .start, powered := true }

def writePower (a : Apu) (v : UInt8) : Apu :=
  let on := v &&& 0x80 != 0
  if on == a.powered then a else if on then a.powerOn else a.powerOff

def writeChannel (a : Apu) (address : UInt16) (v : UInt8) : Apu :=
  match address with
  | 0xFF10 => { a with square1 := a.square1.writeSweep v }
  | 0xFF11 => { a with square1 := a.square1.writeDutyLength v }
  | 0xFF12 => { a with square1 := a.square1.writeEnvelope v }
  | 0xFF13 => { a with square1 := a.square1.writeFrequencyLow v }
  | 0xFF14 => { a with square1 := a.square1.writeFrequencyHigh v }
  | 0xFF16 => { a with square2 := a.square2.writeDutyLength v }
  | 0xFF17 => { a with square2 := a.square2.writeEnvelope v }
  | 0xFF18 => { a with square2 := a.square2.writeFrequencyLow v }
  | 0xFF19 => { a with square2 := a.square2.writeFrequencyHigh v }
  | 0xFF1A => { a with wave := a.wave.writeDac v }
  | 0xFF1B => { a with wave := a.wave.writeLength v }
  | 0xFF1C => { a with wave := a.wave.writeVolume v }
  | 0xFF1D => { a with wave := a.wave.writeFrequencyLow v }
  | 0xFF1E => { a with wave := a.wave.writeFrequencyHigh v }
  | 0xFF20 => { a with noise := a.noise.writeLength v }
  | 0xFF21 => { a with noise := a.noise.writeEnvelope v }
  | 0xFF22 => { a with noise := a.noise.writePolynomial v }
  | 0xFF23 => { a with noise := a.noise.writeControl v }
  | _ => a

/-- A register write. Without power only the power register and the wave table can be written. -/
def writeRegister (a : Apu) (address : UInt16) (v : UInt8) : Apu :=
  if address = 0xFF26 then a.writePower v
  else if 0xFF30 ≤ address && address ≤ 0xFF3F then
    { a with wave := a.wave.writeTable (address - 0xFF30).toNat v }
  else if 0xFF10 ≤ address && address < 0xFF26 && a.powered then
    let a := { a with registers := a.registers.write (address - 0xFF10).toNat v }
    a.writeChannel address v
  else a

/-- The registers that the start-up program writes: all but the triggers and the power register. -/
def bootWrites : List (UInt16 × UInt8) :=
  let places := (List.range 23).map fun i => 0xFF10 + UInt16.ofNat i
  (places.zip bootRegisters).filter fun (address, _) =>
    !([0xFF14, 0xFF19, 0xFF1E, 0xFF23, 0xFF26].contains address)

/-- The state that the start-up program leaves behind: channel 1 is on, but its sound has died
away. -/
def afterBoot (a : Apu) : Apu :=
  let a := bootWrites.foldl (fun a (address, v) => a.writeRegister address v) (a.writePower 0x80)
  { a with
    registers := .ofBytes 23 bootRegisters
    square1 :=
      { a.square1 with
        enabled := true
        envelope := { a.square1.envelope.trigger with volume := 0 } } }

def output (a : Apu) : Channel → ChannelOutput
  | .square1 => a.output1
  | .square2 => a.output2
  | .wave => a.output3
  | .noise => a.output4

def setOutput (a : Apu) (c : Channel) (o : ChannelOutput) : Apu :=
  match c with
  | .square1 => { a with output1 := o }
  | .square2 => { a with output2 := o }
  | .wave => { a with output3 := o }
  | .noise => { a with output4 := o }

def setSink (a : Apu) (c : Channel) (sink : Option AudioSink) : Option AudioSink × Apu :=
  ((a.output c).sink, a.setOutput c ((a.output c).set sink))

def takeSink (a : Apu) (c : Channel) : Option AudioSink × Apu := a.setSink c none

def drain (a : Apu) (c : Channel) : List StereoFrame × Apu :=
  let (frames, o) := (a.output c).drain
  (frames, a.setOutput c o)

def clockLengths (a : Apu) : Apu :=
  { a with
    square1 := a.square1.clockLength
    square2 := a.square2.clockLength
    wave := a.wave.clockLength
    noise := a.noise.clockLength }

def clockSweep (a : Apu) : Apu := { a with square1 := a.square1.clockSweep }

def clockEnvelopes (a : Apu) : Apu :=
  { a with
    square1 := a.square1.clockEnvelope
    square2 := a.square2.clockEnvelope
    noise := a.noise.clockEnvelope }

/-- One step of the sequencer: lengths on even steps, the sweep on 2 and 6, envelopes on 7. -/
def sequence (a : Apu) (step : Nat) : Apu :=
  let a := if step % 2 = 0 then a.clockLengths else a
  let a := if step = 2 || step = 6 then a.clockSweep else a
  if step = 7 then a.clockEnvelopes else a

def mix (a : Apu) (c : Channel) : Mix :=
  if a.powered then
    .ofRegisters (a.registers.read volumeIndex) (a.registers.read panningIndex) c
  else {}

def render (a : Apu) (cycles : Nat) : Apu :=
  let (square1, output1) :=
    a.output1.render SquareChannel.nextLevel a.square1 cycles (a.mix .square1)
  let (square2, output2) :=
    a.output2.render SquareChannel.nextLevel a.square2 cycles (a.mix .square2)
  let (wave, output3) := a.output3.render WaveChannel.nextLevel a.wave cycles (a.mix .wave)
  let (noise, output4) := a.output4.render NoiseChannel.nextLevel a.noise cycles (a.mix .noise)
  { a with square1, square2, wave, noise, output1, output2, output3, output4 }

/-- Renders a span within one sequencer step, and runs the step if its boundary is reached. -/
def segment (a : Apu) (cycles : Nat) : Apu :=
  let a := a.render cycles
  let (sequencer, ran) := a.sequencer.advance cycles
  let a := { a with sequencer }
  match ran with
  | some step => if a.powered then a.sequence step else a
  | none => a

def run (a : Apu) (remaining : Nat) : Apu :=
  if remaining = 0 then a
  else
    let span := min remaining a.sequencer.counter
    (a.segment span).run (remaining - span)
termination_by remaining
decreasing_by have := a.sequencer.counter_pos; omega

def flush (a : Apu) : Apu :=
  { a with
    output1 := a.output1.flush
    output2 := a.output2.flush
    output3 := a.output3.flush
    output4 := a.output4.flush }

/-- Lets cycles pass and hands over the samples that cover them. -/
def step (a : Apu) (cycles : Nat) : Apu :=
  { a with cycles := a.cycles + cycles : Apu }.run cycles |>.flush

end Apu
end Handheld
