import Handheld.Proofs.Ppu.Accesses

/-!
The sprites that a search selects. They are the first ten eligible entries of the attribute table,
in its order, and the mask of a column has a bit for each of them whose columns take it in.
-/

namespace Handheld

namespace LineSprites

/-- Whether a line may select an entry of the table: its rows, the first of which is 16 lines above
its Y, take in the line, and its X is between 1 and 167. -/
def Eligible (oam : Oam) (ly height : UInt8) (i : Nat) : Prop :=
  let top : Int := (oam.read (4 * i)).toNat - 16
  let x := (oam.read (4 * i + 1)).toNat
  (top ≤ ly.toNat ∧ ly.toNat < top + height.toNat) ∧ 1 ≤ x ∧ x ≤ 167

instance (oam : Oam) (ly height : UInt8) (i : Nat) : Decidable (Eligible oam ly height i) :=
  inferInstanceAs (Decidable (_ ∧ _))

def entrySlot (oam : Oam) (i : Nat) : SpriteSlot := { index := i, sprite := .ofOam oam i }

theorem eligible_iff (oam : Oam) (ly height : UInt8) (i : Nat) : Eligible oam ly height i ↔
    ((Sprite.ofOam oam i).coversLine ly height && (Sprite.ofOam oam i).selectableX) := by
  simp only [Sprite.coversLine, Sprite.selectableX, Bool.and_eq_true, decide_eq_true_eq]
  simp only [Eligible, Sprite.ofOam, UInt8.le_iff_toNat_le, UInt8.lt_iff_toNat_lt,
    UInt8.reduceToNat]
  omega

theorem scan_eq_take (oam : Oam) (ly height : UInt8) (room : Nat) (entries : List Nat) :
    scan oam ly height room entries =
      ((entries.filter (Eligible oam ly height)).take room).map (entrySlot oam) := by
  fun_induction scan oam ly height room entries with
  | case1 => rfl
  | case2 => simp
  | case3 room i rest sprite hselected ih =>
    have heligible := (eligible_iff oam ly height i).mpr hselected
    rw [List.filter_cons_of_pos (by simpa using heligible), List.take_succ_cons, List.map_cons, ih]
    rfl
  | case4 room i rest sprite hpassed ih =>
    have hnot : ¬Eligible oam ly height i := mt (eligible_iff oam ly height i).mp hpassed
    rw [List.filter_cons_of_neg (by simpa using hnot), ih]

theorem search_slots (oam : Oam) (ly height : UInt8) : (search oam ly height).slots =
    ((entries.filter (Eligible oam ly height)).take limit).map (entrySlot oam) :=
  scan_eq_take ..

theorem search_sorted (oam : Oam) (ly height : UInt8) :
    (search oam ly height).slots.Pairwise (fun s t => s.index < t.index) ∧
      ∀ s ∈ (search oam ly height).slots, s.sprite.coversLine ly height := by
  rw [search_slots]
  refine ⟨?_, fun s hs => ?_⟩
  · have hrange : entries.Pairwise (· < ·) := List.pairwise_lt_range
    exact ((hrange.filter _).sublist (List.take_sublist ..)).map (entrySlot oam) fun _ _ => id
  · obtain ⟨i, hi, rfl⟩ := List.mem_map.mp hs
    have heligible := (List.mem_filter.mp (List.mem_of_mem_take hi)).2
    exact (Bool.and_eq_true_iff.mp
      ((eligible_iff oam ly height i).mp (of_decide_eq_true heligible))).1

theorem coversColumn_iff (s : Sprite) (x : Nat) : s.coversColumn x ↔
    (s.x.toNat : Int) - 8 ≤ x ∧ x < s.x.toNat ∧ x < screenWidth := by
  simp only [Sprite.coversColumn, Bool.and_eq_true, decide_eq_true_eq]
  simp only [Sprite.firstColumn, Sprite.endColumn, screenWidth]
  omega

theorem columnMask_eq_zero (line : LineSprites) {x : Nat} (hx : screenWidth ≤ x) :
    line.columnMask x = 0 := by
  refine Nat.eq_of_testBit_eq fun i => ?_
  have hout : ∀ s : SpriteSlot, s.sprite.coversColumn x = false := fun s =>
    Bool.eq_false_iff.mpr fun hcovers => by
      have hinside := ((coversColumn_iff s.sprite x).mp hcovers).2.2
      omega
  rw [Checked.testBit_columnMask, Nat.zero_testBit]
  simp [hout]

/-- A search of the table selects the first ten of the eligible entries in their order, or all of
them where there are fewer. A bit of a column's mask is set just if the slot of its number is taken
by a sprite whose columns take the column in; past the screen no bit is. The table of columns that
is filled in along with the slots holds these masks. -/
theorem search_selects_first_ten (oam : Oam) (ly height : UInt8) :
    let line := search oam ly height
    line.slots =
      (((List.range 40).filter (Eligible oam ly height)).take 10).map (entrySlot oam) ∧
    line.height = height ∧
    (∀ x i, (line.columnMask x).testBit i ↔ ∃ s, line.get? i = some s ∧
      (s.sprite.x.toNat : Int) - 8 ≤ x ∧ x < s.sprite.x.toNat ∧ x < 160) ∧
    (∀ x, 160 ≤ x → line.columnMask x = 0) ∧
    ∃ table, Checked.search oam ly height = some (line, table) ∧
      ∀ x (hx : x < 160), table[x] = line.columnMask x := by
  intro line
  refine ⟨search_slots oam ly height, rfl, fun x i => ?_, fun x hx => line.columnMask_eq_zero hx,
    Checked.search_eq oam ly height⟩
  rw [Checked.testBit_columnMask, Option.any_eq_true]
  exact exists_congr fun s => and_congr_right fun _ => coversColumn_iff s.sprite x

end LineSprites
end Handheld
