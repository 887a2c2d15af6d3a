import Handheld.Ppu.Frame

/-!
A picture as a PNG file: eight bits a channel, unfiltered rows, stored and not compressed.
-/

namespace Handheld.Png

def word (n : Nat) : List UInt8 :=
  [UInt8.ofNat (n >>> 24), UInt8.ofNat (n >>> 16), UInt8.ofNat (n >>> 8), UInt8.ofNat n]

def short (n : Nat) : List UInt8 := [UInt8.ofNat n, UInt8.ofNat (n >>> 8)]

def crcShift (c : UInt32) : UInt32 :=
  if c &&& 1 = 1 then (c >>> 1) ^^^ (0xEDB88320 : UInt32) else c >>> 1

def crcByte (c : UInt32) (b : UInt8) : UInt32 :=
  let c := c ^^^ b.toUInt32
  crcShift (crcShift (crcShift (crcShift (crcShift (crcShift (crcShift (crcShift c)))))))

def crc (bytes : ByteArray) : UInt32 := ~~~(bytes.foldl crcByte 0xFFFFFFFF)

def adlerByte (s : Nat × Nat) (b : UInt8) : Nat × Nat :=
  let low := (s.1 + b.toNat) % 65521
  (low, (s.2 + low) % 65521)

def adler (bytes : ByteArray) : Nat :=
  let (low, high) := bytes.foldl adlerByte (1, 0)
  high <<< 16 + low

def chunk (name : String) (data : ByteArray) : ByteArray :=
  let body := name.toUTF8 ++ data
  ⟨(word data.size).toArray⟩ ++ body ++ ⟨(word (crc body).toNat).toArray⟩

def headerData : ByteArray := ⟨(word screenWidth ++ word screenHeight ++ [8, 2, 0, 0, 0]).toArray⟩

def row (p : Picture) (y : Nat) : ByteArray := ⟨#[0]⟩ ++ Picture.row p y

def rows (p : Picture) : ByteArray :=
  (List.range screenHeight).foldl (fun acc y => acc ++ row p y) ByteArray.empty

def blockLimit : Nat := 65535

def block (last : Bool) (data : ByteArray) : ByteArray :=
  ⟨((if last then 1 else 0) :: short data.size ++ short (blockLimit - data.size)).toArray⟩ ++ data

def blocks : Nat → ByteArray → ByteArray
  | 0, data => block true data
  | n + 1, data =>
    if data.size ≤ blockLimit then block true data
    else
      block false (data.extract 0 blockLimit) ++ blocks n (data.extract blockLimit data.size)

def stored (data : ByteArray) : ByteArray :=
  ⟨#[0x78, 0x01]⟩ ++ blocks (data.size / blockLimit) data ++ ⟨(word (adler data)).toArray⟩

def signature : ByteArray := ⟨#[0x89, 0x50, 0x4E, 0x47, 0x0D, 0x0A, 0x1A, 0x0A]⟩

def encode (p : Picture) : ByteArray :=
  signature ++ chunk "IHDR" headerData ++ chunk "IDAT" (stored (rows p)) ++
    chunk "IEND" ByteArray.empty

end Handheld.Png
