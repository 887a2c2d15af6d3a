import Handheld.Cartridge.Header
import Handheld.Cartridge.Storage

/-!
Program images put together from parts, for trying a machine out without a program of anybody's.
-/

namespace Handheld.Image

def blank (size : Nat) (fill : UInt8) : ByteArray := ⟨Array.replicate size fill⟩

/-- Bytes that go up by `step` from `start`, and by `page` more after every 256 of them. -/
def pattern (length step start page : Nat) : List UInt8 :=
  (List.range length).map fun k => UInt8.ofNat (k * step + start + k / 256 * page)

def tagBank (image : ByteArray) (bank : Nat) : ByteArray :=
  setBytes image (bank * 0x4000) [UInt8.ofNat bank, UInt8.ofNat (bank / 256)]

def tagBanks (image : ByteArray) : ByteArray :=
  ((List.range (image.size / 0x4000)).drop 1).foldl tagBank image

def sealHeader (image : ByteArray) : ByteArray :=
  if Header.endAddress ≤ image.size then
    setByte image 0x14D (Header.checksum (Header.checksummed image))
  else image

end Handheld.Image
