import Handheld.Cartridge.Controller

/-!
A cartridge: its program, its controller and the memory behind it. The memory is of any kind that
can be read and written; one that cannot be activated leaves the cartridge without memory.
-/

namespace Handheld

structure Cartridge (σ : Type) where
  rom : ByteArray
  header : Header
  controller : BankController
  storage : σ
  /-- The memory behind the cartridge is in use. -/
  hasRam : Bool

namespace Cartridge

def romBankSize : Nat := 0x4000

variable {σ : Type} [ExternalMemory σ]
open ExternalMemory

def wantsRam (h : Header) : Bool := h.kind.ram && h.kind.controller != .mbc2 && 0 < h.ramSize

def create (rom : ByteArray) (storage : σ) : Except Fault (Cartridge σ) := do
  let header ← Header.parse rom
  let controller := BankController.ofKind header.kind
  if wantsRam header then
    let (storage, fault) := activate (setSize storage header.ramSize)
    return { rom, header, controller, storage, hasRam := fault.isNone }
  else return { rom, header, controller, storage, hasRam := false }

def hasBattery (c : Cartridge σ) : Bool := c.header.kind.battery

def romBanks (rom : ByteArray) : Nat := max 1 (rom.size / romBankSize)

def external (c : Cartridge σ) : Option σ := if c.hasRam then some c.storage else none

def bankedOffset (c : Cartridge σ) (address : UInt16) : Nat :=
  c.controller.romBank % romBanks c.rom * romBankSize + (address.toNat - 0x4000)

def read (c : Cartridge σ) (address : UInt16) : UInt8 :=
  if address < 0x4000 then byteAt c.rom address.toNat 0xFF
  else if address < 0x8000 then byteAt c.rom (c.bankedOffset address) 0xFF
  else if 0xA000 ≤ address && address < 0xC000 then c.controller.readRam c.external address
  else 0xFF

def writeRam (c : Cartridge σ) (address : UInt16) (v : UInt8) : Cartridge σ :=
  if c.controller.writesExternal then
    if c.hasRam then { c with storage := c.controller.writeExternal c.storage address v } else c
  else { c with controller := c.controller.writeInternal address v }

def write (c : Cartridge σ) (address : UInt16) (v : UInt8) : Cartridge σ :=
  if address < 0x8000 then { c with controller := c.controller.writeControl address v }
  else if 0xA000 ≤ address && address < 0xC000 then c.writeRam address v
  else c

theorem write_header (c : Cartridge σ) (address : UInt16) (v : UInt8) :
    (c.write address v).header = c.header := by
  unfold write writeRam
  split
  · rfl
  split
  · split
    · split <;> rfl
    · rfl
  · rfl

def readBulk (c : Cartridge σ) (address : UInt16) (count : Nat) : List UInt8 :=
  (List.range count).map fun i => c.read (address + UInt16.ofNat i)

def writeBulk (c : Cartridge σ) (address : UInt16) : List UInt8 → Cartridge σ
  | [] => c
  | v :: rest => (c.write address v).writeBulk (address + 1) rest

def persist (c : Cartridge σ) : Cartridge σ × Option Fault :=
  if c.hasRam then
    match deactivate c.storage with
    | (storage, some fault) => ({ c with storage }, some fault)
    | (storage, none) =>
      let (storage, fault) := activate storage
      ({ c with storage }, fault)
  else (c, none)

theorem persist_header (c : Cartridge σ) : c.persist.1.header = c.header := by
  unfold persist
  split
  · split <;> rfl
  · rfl

def release (c : Cartridge σ) : Except Fault σ :=
  if c.hasRam then
    match deactivate c.storage with
    | (_, some fault) => .error fault
    | (storage, none) => .ok storage
  else .ok c.storage

end Cartridge
end Handheld
