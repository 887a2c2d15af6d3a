import Mathlib.Tactic.IntervalCases
import Handheld.Cpu.Registers
import Handheld.Proofs.Dma.Copies

/-!
The two places of a copy as words of two registers. Each register sets its byte of the place and
leaves the other, less the bits that the hardware does not keep, so the place comes to be the word of
both in whichever order they are set.
-/

namespace Handheld

namespace CopyEnd

def high : CopyEnd → UInt16
  | .source => 0xFF51
  | .destination => 0xFF53

def low : CopyEnd → UInt16
  | .source => 0xFF52
  | .destination => 0xFF54

def confine : CopyEnd → UInt16 → UInt16
  | .source, w => w &&& 0xFFF0
  | .destination, w => 0x8000 ||| (w &&& 0x1FF0)

theorem confine_destination_toNat (w : UInt16) : 0x8000 ≤ (destination.confine w).toNat ∧
    (destination.confine w).toNat < 0xA000 := by
  have hle : (w &&& 0x1FF0).toNat ≤ 0x1FF0 := by
    rw [UInt16.toNat_and]
    exact Nat.and_le_right
  have hor : (destination.confine w).toNat = 2 ^ 15 * 1 + (w &&& 0x1FF0).toNat := by
    rw [Nat.two_pow_add_eq_or_of_lt (by omega), confine, UInt16.toNat_or]
    rfl
  omega

theorem registers_eq (e : CopyEnd) : e.registers = [e.high, e.low] := by cases e <;> rfl

end CopyEnd

theorem eq_of_bits {a b : UInt16} (h : ∀ i < 16, a.toBitVec.getLsbD i = b.toBitVec.getLsbD i) :
    a = b := UInt16.toBitVec_inj.mp (BitVec.eq_of_getLsbD_eq h)

namespace Dma
open CopyEnd

theorem write_high {d : Dma} {e : CopyEnd} {high low : UInt8}
    (h : e.confine (d.place e) = e.confine (word high low)) (v : UInt8) :
    (d.write e.high v).place e = e.confine (word v low) := by
  apply eq_of_bits
  intro i hi
  replace h := congrArg (fun w => w.toBitVec.getLsbD i) h
  cases e with
  | source =>
    change (v.toUInt16 <<< 8 ||| (d.source &&& 0x00F0)).toBitVec.getLsbD i = _
    interval_cases i <;> simp_all [confine, word, Dma.place]
  | destination =>
    change (vramDestination (v.toUInt16 <<< 8 ||| (d.destination &&& 0x00F0))).toBitVec.getLsbD i =
      _
    interval_cases i <;> simp_all [confine, word, Dma.place, vramDestination]

theorem write_low {d : Dma} {e : CopyEnd} {high low : UInt8}
    (h : e.confine (d.place e) = e.confine (word high low)) (v : UInt8) :
    (d.write e.low v).place e = e.confine (word high v) := by
  apply eq_of_bits
  intro i hi
  replace h := congrArg (fun w => w.toBitVec.getLsbD i) h
  cases e with
  | source =>
    change ((d.source &&& 0xFF00) ||| (v &&& 0xF0).toUInt16).toBitVec.getLsbD i = _
    interval_cases i <;> simp_all [confine, word, Dma.place]
  | destination =>
    change (vramDestination ((d.destination &&& 0x1F00) ||| v.toUInt16)).toBitVec.getLsbD i = _
    interval_cases i <;> simp_all [confine, word, Dma.place, vramDestination]

theorem confine_confine (e : CopyEnd) (w : UInt16) : e.confine (e.confine w) = e.confine w := by
  apply eq_of_bits
  intro i hi
  cases e <;> interval_cases i <;> simp [confine]

end Dma

end Handheld
