import Handheld.Dma
import Handheld.Ppu.Sprite

/-!
A machine of nothing but memory, for transfers to be tried on.
-/

namespace Handheld

structure PlainBus where
  memory : Memory 0x10000
  oam : Oam := .zeroed _
  /-- The number of the horizontal blank in progress. -/
  line : Option Nat := none

instance : DmaBus PlainBus where
  readByte b a := b.memory.read a.toNat
  writeOam b i v := { b with oam := b.oam.write i v }
  writeVram b a v := { b with memory := b.memory.write a.toNat v }
  hblank b := b.line

end Handheld
