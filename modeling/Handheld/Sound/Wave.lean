import Handheld.Memory
import Handheld.Sound.Square

/-!
The wave channel: a table of 32 four-bit samples, played at the frequency of its register.
-/

namespace Handheld

structure WaveChannel where
  enabled : Bool := false
  length : LengthCounter := .full 256
  dacEnabled : Bool := false
  volumeCode : Nat := 0
  frequency : Nat := 0
  phase : Float := 0.0
  table : Memory 16 := .zeroed 16

namespace WaveChannel

def baseHz : Float := 65536.0

def frequencyHz (c : WaveChannel) : Float := baseHz / Float.ofNat (2048 - c.frequency)

def volumeScale (c : WaveChannel) : Float32 :=
  match c.volumeCode with
  | 1 => 1.0
  | 2 => 0.5
  | 3 => 0.25
  | _ => 0.0

/-- A sample of the table; the upper half of a byte comes first. -/
def nibble (c : WaveChannel) (i : Nat) : Nat :=
  let byte := (c.table.read (i / 2 % 16)).toNat
  if i % 2 = 0 then byte / 16 else byte % 16

def readTable (c : WaveChannel) (i : Nat) : UInt8 := c.table.read (i % 16)

def writeTable (c : WaveChannel) (i : Nat) (v : UInt8) : WaveChannel :=
  { c with table := c.table.write (i % 16) v }

def writeDac (c : WaveChannel) (v : UInt8) : WaveChannel :=
  let on := v &&& 0x80 != 0
  { c with dacEnabled := on, enabled := c.enabled && on }

def writeLength (c : WaveChannel) (v : UInt8) : WaveChannel :=
  { c with length := c.length.load v.toNat }

def writeVolume (c : WaveChannel) (v : UInt8) : WaveChannel :=
  { c with volumeCode := v.toNat / 32 % 4 }

def writeFrequencyLow (c : WaveChannel) (v : UInt8) : WaveChannel :=
  { c with frequency := withFrequencyLow c.frequency v }

def trigger (c : WaveChannel) : WaveChannel :=
  { c with enabled := c.dacEnabled, length := c.length.trigger, phase := 0.0 }

def writeFrequencyHigh (c : WaveChannel) (v : UInt8) : WaveChannel :=
  let c :=
    { c with
      frequency := withFrequencyHigh c.frequency v
      length := { c.length with enabled := v &&& 0x40 != 0 } }
  if v &&& 0x80 != 0 then c.trigger else c

def powerOff (c : WaveChannel) : WaveChannel := { table := c.table }

def clockLength (c : WaveChannel) : WaveChannel := { c with length := c.length.clock }

def audible (c : WaveChannel) : Bool := c.enabled && !c.length.expired

def level (c : WaveChannel) (i : Nat) : Float32 :=
  (Float32.ofNat (c.nibble i) / 7.5 - 1.0) * c.volumeScale

def nextLevel (rate : Float) (c : WaveChannel) : Float32 × WaveChannel :=
  let i := (c.phase * 32.0).toUInt64.toNat
  let level := if c.audible then c.level i else 0.0
  let step := c.frequencyHz / rate
  (level, { c with phase := fraction (c.phase + step) })

end WaveChannel
end Handheld
