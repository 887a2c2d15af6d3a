import Handheld.Fault
import Handheld.Memory

/-!
The memory behind a cartridge's window. It may forget its contents or keep them on some medium, and
a medium may refuse to be opened or closed; a cartridge is built over any of them.
-/

namespace Handheld

/-- A store of bytes that is usable between `activate` and `deactivate`. Either may fail, with the
state that the failure leaves. -/
class ExternalMemory (σ : Type) where
  /-- Makes the store usable, with the contents that the medium holds. -/
  activate : σ → σ × Option Fault
  /-- Writes the contents back and closes the store. -/
  deactivate : σ → σ × Option Fault
  readByte : σ → Nat → UInt8
  writeByte : σ → Nat → UInt8 → σ
  setSize : σ → Nat → σ
  size : σ → Nat

def resize (bytes : ByteArray) (size : Nat) : ByteArray :=
  if size ≤ bytes.size then bytes.extract 0 size
  else bytes ++ ⟨Array.replicate (size - bytes.size) 0⟩

/-- The bytes with one changed; a place outside changes nothing. -/
def setByte (bytes : ByteArray) (i : Nat) (v : UInt8) : ByteArray :=
  if h : i < bytes.size then bytes.set i v h else bytes

/-- The bytes with others written over them from a place on; what falls outside is dropped. -/
def setBytes (bytes : ByteArray) (i : Nat) : List UInt8 → ByteArray
  | [] => bytes
  | v :: rest => setBytes (setByte bytes i v) (i + 1) rest

/-- A store that forgets its contents with the machine. -/
structure VolatileRam where
  data : ByteArray := ByteArray.empty
  active : Bool := false

namespace VolatileRam

def withContents (data : ByteArray) : VolatileRam := { data }

def readByte (r : VolatileRam) (i : Nat) : UInt8 := if r.active then byteAt r.data i 0xFF else 0xFF

def writeByte (r : VolatileRam) (i : Nat) (v : UInt8) : VolatileRam :=
  if r.active then { r with data := setByte r.data i v } else r

end VolatileRam

instance : ExternalMemory VolatileRam where
  activate r := ({ r with active := true }, none)
  deactivate r := ({ r with active := false }, none)
  readByte := VolatileRam.readByte
  writeByte := VolatileRam.writeByte
  setSize r n := { r with data := resize r.data n }
  size r := r.data.size

inductive Medium where
  | missing
  | file (contents : ByteArray)
  /-- Something that can neither be read nor written as a file. -/
  | directory
  /-- A file that can be read but not written. -/
  | readOnly (contents : ByteArray)

/-- A store kept in a file. The file is read when the store is activated, and written when it is
deactivated with a byte changed since. A missing file stands for zeros. -/
structure SaveFile where
  medium : Medium
  data : ByteArray := ByteArray.empty
  active : Bool := false
  /-- A byte was changed since the file was written. -/
  dirty : Bool := false

/-- The bytes of `data` overwritten from the start by those of `contents`. -/
def overlay (contents data : ByteArray) : ByteArray :=
  contents.extract 0 data.size ++ data.extract contents.size data.size

namespace SaveFile

def activate (f : SaveFile) : SaveFile × Option Fault :=
  match f.medium with
  | .missing => ({ f with active := true }, none)
  | .file contents | .readOnly contents =>
    ({ f with data := overlay contents f.data, active := true }, none)
  | .directory => (f, some (.io "is a directory"))

def flush (f : SaveFile) : SaveFile × Option Fault :=
  match f.medium with
  | .missing | .file _ => ({ f with medium := .file f.data, dirty := false }, none)
  | .directory => (f, some (.io "is a directory"))
  | .readOnly _ => (f, some (.io "permission denied"))

def deactivate (f : SaveFile) : SaveFile × Option Fault :=
  if f.active && f.dirty then
    match f.flush with
    | (f, none) => ({ f with active := false }, none)
    | (f, some fault) => (f, some fault)
  else ({ f with active := false }, none)

def readByte (f : SaveFile) (i : Nat) : UInt8 := if f.active then byteAt f.data i 0xFF else 0xFF

/-- A write of the byte already there changes nothing. -/
def writeByte (f : SaveFile) (i : Nat) (v : UInt8) : SaveFile :=
  if f.active && i < f.data.size && byteAt f.data i v != v then
    { f with data := setByte f.data i v, dirty := true }
  else f

def unsaved? (f : SaveFile) : Option ByteArray := if f.active && f.dirty then some f.data else none

def reopen (f : SaveFile) : SaveFile := { medium := f.medium }

end SaveFile

instance : ExternalMemory SaveFile where
  activate := SaveFile.activate
  deactivate := SaveFile.deactivate
  readByte := SaveFile.readByte
  writeByte := SaveFile.writeByte
  setSize f n := { f with data := resize f.data n }
  size f := f.data.size

/-- A store that may refuse to be opened or closed, and is otherwise the one inside. -/
structure Unreliable (σ : Type) where
  inner : σ
  refusesActivate : Option Fault := none
  refusesDeactivate : Option Fault := none

instance {σ : Type} [ExternalMemory σ] : ExternalMemory (Unreliable σ) where
  activate u :=
    match u.refusesActivate with
    | some fault => (u, some fault)
    | none =>
      let (inner, fault) := ExternalMemory.activate u.inner
      ({ u with inner }, fault)
  deactivate u :=
    match u.refusesDeactivate with
    | some fault => (u, some fault)
    | none =>
      let (inner, fault) := ExternalMemory.deactivate u.inner
      ({ u with inner }, fault)
  readByte u := ExternalMemory.readByte u.inner
  writeByte u i v := { u with inner := ExternalMemory.writeByte u.inner i v }
  setSize u n := { u with inner := ExternalMemory.setSize u.inner n }
  size u := ExternalMemory.size u.inner

instance {σ τ : Type} [ExternalMemory σ] [ExternalMemory τ] : ExternalMemory (σ ⊕ τ) where
  activate
    | .inl s => let (s, fault) := ExternalMemory.activate s; (.inl s, fault)
    | .inr t => let (t, fault) := ExternalMemory.activate t; (.inr t, fault)
  deactivate
    | .inl s => let (s, fault) := ExternalMemory.deactivate s; (.inl s, fault)
    | .inr t => let (t, fault) := ExternalMemory.deactivate t; (.inr t, fault)
  readByte
    | .inl s => ExternalMemory.readByte s
    | .inr t => ExternalMemory.readByte t
  writeByte
    | .inl s, i, v => .inl (ExternalMemory.writeByte s i v)
    | .inr t, i, v => .inr (ExternalMemory.writeByte t i v)
  setSize
    | .inl s, n => .inl (ExternalMemory.setSize s n)
    | .inr t, n => .inr (ExternalMemory.setSize t n)
  size
    | .inl s => ExternalMemory.size s
    | .inr t => ExternalMemory.size t

end Handheld
