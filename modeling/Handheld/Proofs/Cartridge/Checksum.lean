import Mathlib.Algebra.BigOperators.Group.List.Basic
import Mathlib.Data.UInt
import Handheld.Proofs.Cartridge.Window

/-!
The checksum of a header. It holds exactly if the bytes it covers, its own among them, come to zero
with one more for each of the covered ones, so that every byte of the header counts alike: each has
exactly one value for which the checksum holds, and the rest of the image counts for nothing.
-/

namespace Handheld.Header
variable {rom : ByteArray}

/-- A checksum is what brings its bytes and their count to zero. -/
theorem foldl_checksum (start : UInt8) (bytes : List UInt8) :
    bytes.foldl (fun acc b => acc - b - 1) start + bytes.sum + UInt8.ofNat bytes.length =
      start := by
  induction bytes generalizing start with
  | nil => simp
  | cons b rest ih =>
    have hrest := ih (start - b - 1)
    rw [List.foldl_cons, List.sum_cons, List.length_cons, UInt8.ofNat_add]
    grind

/-- The bytes of the header that the checksum is about, its own the last. -/
def guarded (rom : ByteArray) : List UInt8 := (List.range 26).map fun i => field rom (0x134 + i)

theorem guarded_eq (rom : ByteArray) : guarded rom = checksummed rom ++ [field rom 0x14D] := by
  simp [guarded, checksummed, List.range_succ]

theorem checksumOk_iff (h : endAddress ≤ rom.size) :
    checksumOk rom ↔ (guarded rom).sum + 25 = 0 := by
  have hsum := foldl_checksum 0 (checksummed rom)
  have hlength : UInt8.ofNat (checksummed rom).length = 25 := by simp [checksummed]
  rw [hlength] at hsum
  rw [checksumOk, decide_eq_true h, Bool.true_and, beq_iff_eq, guarded_eq, List.sum_append,
    List.sum_singleton, checksum]
  grind

theorem guarded_congr {rom' : ByteArray}
    (h : ∀ i, 0x134 ≤ i → i ≤ 0x14D → field rom' i = field rom i) : guarded rom' = guarded rom := by
  refine List.map_congr_left fun i hi => ?_
  have hlast := List.mem_range.mp hi
  exact h _ (by omega) (by omega)

theorem guarded_setByte (h : endAddress ≤ rom.size) {k : Nat} (hk : k < 26) (b : UInt8) :
    guarded (setByte rom (0x134 + k) b) = (guarded rom).set k b := by
  have hplace : 0x134 + k < rom.size := by simp only [endAddress] at h; omega
  refine List.ext_getElem (by simp [guarded]) fun i hi hi' => ?_
  rw [List.getElem_set]
  simp only [guarded, List.getElem_map, List.getElem_range, field, byteAt_setByte rom hplace]
  simp only [Nat.add_left_cancel_iff]

theorem sum_guarded_setByte (h : endAddress ≤ rom.size) {i : Nat} (hfirst : 0x134 ≤ i)
    (hlast : i ≤ 0x14D) (b : UInt8) :
    (guarded (setByte rom i b)).sum = (guarded rom).sum + (b - field rom i) := by
  obtain ⟨k, rfl⟩ := Nat.exists_eq_add_of_le hfirst
  have hk : k < (guarded rom).length := by simp [guarded]; omega
  have hold : (guarded rom)[k] = field rom (0x134 + k) := by simp [guarded]
  rw [guarded_setByte h (by omega), List.sum_set', dif_pos hk, hold]
  grind

theorem checksumOk_setByte_iff (h : endAddress ≤ rom.size) {i : Nat} (hfirst : 0x134 ≤ i)
    (hlast : i ≤ 0x14D) (b : UInt8) :
    checksumOk (setByte rom i b) ↔ (guarded rom).sum + (b - field rom i) + 25 = 0 := by
  rw [checksumOk_iff ((size_setByte rom i b).symm ▸ h), sum_guarded_setByte h hfirst hlast]

/-- Exactly one value of any byte of the header, its checksum among them, makes the checksum hold.
So no single byte of a header whose checksum holds can be changed unnoticed, while the rest of the
image can be changed at will. -/
theorem checksum_guards_header (h : endAddress ≤ rom.size) :
    (∀ i, 0x134 ≤ i → i ≤ 0x14D → ∃! b, checksumOk (setByte rom i b)) ∧
    (checksumOk rom → ∀ i, 0x134 ≤ i → i ≤ 0x14D → ∀ b, b ≠ field rom i →
      checksumOk (setByte rom i b) = false) ∧
    ∀ rom' : ByteArray, rom'.size = rom.size →
      (∀ i, 0x134 ≤ i → i ≤ 0x14D → field rom' i = field rom i) →
      checksumOk rom' = checksumOk rom := by
  refine ⟨fun i hfirst hlast => ?unique, fun hok i hfirst hlast b hb => ?noticed,
    fun rom' hsize hsame => ?elsewhere⟩
  case unique =>
    simp only [checksumOk_setByte_iff h hfirst hlast]
    refine ⟨field rom i - (guarded rom).sum - 25, ?_, fun b hb => ?_⟩
    · grind
    · grind
  case noticed =>
    have hsum := (checksumOk_iff h).mp hok
    rw [← Bool.not_eq_true, checksumOk_setByte_iff h hfirst hlast]
    intro hchanged
    have hsame : b = field rom i := by grind
    exact hb hsame
  case elsewhere =>
    rw [Bool.eq_iff_iff, checksumOk_iff h, checksumOk_iff (hsize ▸ h), guarded_congr hsame]

def blankHeader : ByteArray := setByte ⟨Array.replicate 0x150 0⟩ 0x14D 0xE7

theorem blankHeader_guarded :
    endAddress ≤ blankHeader.size ∧ checksumOk blankHeader ∧
      (∃! b, checksumOk (setByte blankHeader 0x14D b)) ∧
      checksumOk (setByte blankHeader 0x13C 1) = false ∧
      checksumOk (setByte blankHeader 0x14E 1) = checksumOk blankHeader := by
  have hsize : endAddress ≤ blankHeader.size := by decide +kernel
  have hok : checksumOk blankHeader := by decide +kernel
  obtain ⟨hunique, hnoticed, helsewhere⟩ := checksum_guards_header hsize
  refine ⟨hsize, hok, hunique 0x14D (by decide) (by decide),
    hnoticed hok 0x13C (by decide) (by decide) 1 (by decide +kernel),
    helsewhere _ (size_setByte ..) fun i _ hlast => ?_⟩
  rw [field, byteAt_setByte blankHeader (by decide +kernel), if_neg (by omega), field]

end Handheld.Header
