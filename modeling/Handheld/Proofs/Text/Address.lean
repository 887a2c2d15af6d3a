import Mathlib.Data.List.Forall2
import Mathlib.Data.List.TakeWhile
import Mathlib.Data.Nat.Digits.Defs
import Handheld.Text.Address

/-!
What can be typed for an address. `Spells` says it without reading it: marks of the base in their
order, a sign, and digits. `parse?` accepts the strings that spell a number of 16 bits, and no
others.
-/

namespace Handheld

namespace Hexadecimal

/-- A character is the digit of a number below sixteen, in either case. -/
def IsDigit (c : Char) (d : Nat) : Prop :=
  d < 16 ∧ (c = Nat.digitChar d ∨ c = (Nat.digitChar d).toUpper)

theorem isDigit_of_value? {c : Char} {d : Nat} (h : value? c = some d) : IsDigit c d := by
  have hall : ∀ n < 103, (value? (Char.ofNat n)).all fun d =>
      d < 16 ∧ (Char.ofNat n = Nat.digitChar d ∨ Char.ofNat n = (Nat.digitChar d).toUpper) := by
    decide
  have hc : c.toNat < 103 := by
    simp only [value?, Char.le_def, UInt32.le_iff_toNat_le] at h
    have hval : c.val.toNat = c.toNat := rfl
    split at h
    · simp_all; omega
    · split at h
      · simp_all; omega
      · split at h
        · simp_all; omega
        · cases h
  have hdigit := hall c.toNat hc
  rw [Char.ofNat_toNat, h] at hdigit
  simpa [IsDigit] using hdigit

theorem IsDigit.value? {c : Char} {d : Nat} (h : IsDigit c d) : value? c = some d := by
  have hall : ∀ d < 16, Hexadecimal.value? (Nat.digitChar d) = some d ∧
      Hexadecimal.value? (Nat.digitChar d).toUpper = some d := by decide
  obtain ⟨hd, rfl | rfl⟩ := h
  · exact (hall d hd).1
  · exact (hall d hd).2

/-- Digits, most significant first, as the numbers they stand for. -/
abbrev AreDigits : List Char → List Nat → Prop := List.Forall₂ IsDigit

theorem AreDigits.not_mem {cs : List Char} {ds : List Nat} (h : AreDigits cs ds) {c : Char}
    (hc : Hexadecimal.value? c = none) : c ∉ cs := by
  induction h with
  | nil => exact List.not_mem_nil
  | cons hd _ ih =>
    rintro (_ | ⟨_, hmem⟩)
    · rw [hd.value?] at hc
      cases hc
    · exact ih hmem

theorem valueFrom?_eq_some_iff {cs : List Char} {acc n : Nat} :
    valueFrom? acc cs = some n ↔
      ∃ ds, AreDigits cs ds ∧ n = Nat.ofDigits 16 ds.reverse + 16 ^ ds.length * acc := by
  induction cs generalizing acc with
  | nil => simp [valueFrom?, AreDigits, eq_comm]
  | cons c rest ih =>
    rw [valueFrom?, Option.bind_eq_some_iff]
    constructor
    · rintro ⟨d, hd, hrest⟩
      obtain ⟨ds, hds, rfl⟩ := ih.mp hrest
      refine ⟨d :: ds, .cons (isDigit_of_value? hd) hds, ?_⟩
      rw [List.reverse_cons, Nat.ofDigits_append, Nat.ofDigits_singleton, List.length_reverse,
        List.length_cons]
      ring
    · rintro ⟨_ | ⟨d, ds⟩, hds, rfl⟩
      · cases hds
      · obtain ⟨hd, hds⟩ := List.forall₂_cons.mp hds
        refine ⟨d, hd.value?, ih.mpr ⟨ds, hds, ?_⟩⟩
        rw [List.reverse_cons, Nat.ofDigits_append, Nat.ofDigits_singleton, List.length_reverse,
          List.length_cons]
        ring

end Hexadecimal

namespace Address
open Hexadecimal

def pairs (n : Nat) (a b : Char) : List Char := (List.replicate n [a, b]).flatten

theorem pairs_succ (n : Nat) (a b : Char) : pairs (n + 1) a b = a :: b :: pairs n a b := rfl

theorem dropPairs_pairs (a b : Char) (n : Nat) (cs : List Char) :
    dropPairs a b (pairs n a b ++ cs) = dropPairs a b cs := by
  induction n with
  | zero => rfl
  | succ n ih =>
    rw [pairs_succ, List.cons_append, List.cons_append, dropPairs, if_pos ⟨rfl, rfl⟩, ih]

theorem dropPairs_of_not_mem (a : Char) {b : Char} {cs : List Char} (h : b ∉ cs) :
    dropPairs a b cs = cs := by
  unfold dropPairs
  split
  · rw [if_neg fun hboth => h (by simp [hboth.2])]
  · rfl

theorem exists_pairs (a b : Char) (cs : List Char) : ∃ n, cs = pairs n a b ++ dropPairs a b cs := by
  fun_induction dropPairs a b cs with
  | case1 c d rest heq ih =>
    obtain ⟨n, hn⟩ := ih
    obtain ⟨rfl, rfl⟩ := heq
    exact ⟨n + 1, by rw [pairs_succ, List.cons_append, List.cons_append, ← hn]⟩
  | case2 => exact ⟨0, rfl⟩
  | case3 => exact ⟨0, rfl⟩

/-- A string spells a number: any count of `0x`, then of `0X`, then of `$`, a plus sign or none, and
digits, one at least. -/
def Spells (s : String) (n : Nat) : Prop :=
  ∃ (small large dollars : Nat) (sign digits : List Char) (ds : List Nat),
    s.toList = pairs small '0' 'x' ++ (pairs large '0' 'X' ++
      (List.replicate dollars '$' ++ (sign ++ digits))) ∧
    (sign = [] ∨ sign = ['+']) ∧ digits ≠ [] ∧ AreDigits digits ds ∧
    n = Nat.ofDigits 16 ds.reverse

theorem dropWhile_dollars (n : Nat) {cs : List Char} (h : '$' ∉ cs) :
    (List.replicate n '$' ++ cs).dropWhile (· == '$') = cs := by
  rw [List.dropWhile_append_of_pos (by simp), List.dropWhile_eq_self_iff]
  intro hpos hfirst
  exact h (beq_iff_eq.mp hfirst ▸ List.getElem_mem hpos)

theorem exists_dollars (cs : List Char) :
    ∃ n, cs = List.replicate n '$' ++ cs.dropWhile (· == '$') := by
  have hall : ∀ c ∈ cs.takeWhile (· == '$'), c = '$' := fun c hc =>
    beq_iff_eq.mp (List.mem_takeWhile_imp (p := (· == '$')) hc)
  refine ⟨(cs.takeWhile (· == '$')).length, ?_⟩
  rw [← List.eq_replicate_of_mem hall, List.takeWhile_append_dropWhile]

theorem dropSign_append {sign digits : List Char} (hsign : sign = [] ∨ sign = ['+'])
    (h : '+' ∉ digits) : dropSign (sign ++ digits) = digits := by
  rcases hsign with rfl | rfl
  · unfold dropSign
    split
    case h_1 hcons =>
      rw [List.nil_append] at hcons
      exact absurd (hcons ▸ List.mem_cons_self) h
    case h_2 => rfl
  · rfl

theorem exists_sign (cs : List Char) :
    ∃ sign, (sign = [] ∨ sign = ['+']) ∧ cs = sign ++ dropSign cs := by
  unfold dropSign
  split
  · exact ⟨['+'], .inr rfl, rfl⟩
  · exact ⟨[], .inl rfl, rfl⟩

theorem ofDigits?_eq_some_iff {digits : List Char} {w : UInt16} :
    ofDigits? digits = some w ↔
      digits ≠ [] ∧ ∃ ds, AreDigits digits ds ∧ w.toNat = Nat.ofDigits 16 ds.reverse := by
  unfold ofDigits?
  split
  case isTrue hempty => simp [List.isEmpty_iff.mp hempty]
  case isFalse hsome =>
    rw [Option.bind_eq_some_iff]
    constructor
    · rintro ⟨n, hn, hw⟩
      obtain ⟨ds, hds, rfl⟩ := valueFrom?_eq_some_iff.mp hn
      split at hw
      case isTrue hlt =>
        obtain rfl := Option.some.inj hw
        refine ⟨fun hnil => hsome (List.isEmpty_iff.mpr hnil), ds, hds, ?_⟩
        rw [UInt16.toNat_ofNat', Nat.mod_eq_of_lt hlt, Nat.mul_zero, Nat.add_zero]
      case isFalse => cases hw
    · rintro ⟨-, ds, hds, hw⟩
      refine ⟨w.toNat, valueFrom?_eq_some_iff.mpr ⟨ds, hds, hw⟩, ?_⟩
      rw [if_pos w.toNat_lt, UInt16.ofNat_toNat]

theorem mem_pairs {n : Nat} {a b c : Char} (h : c ∈ pairs n a b) : c = a ∨ c = b := by
  obtain ⟨pair, hpair, hc⟩ := List.mem_flatten.mp h
  obtain rfl := List.eq_of_mem_replicate hpair
  simpa using hc

/-- The marks are dropped in their order, and nothing of what stands behind them is taken for one. -/
theorem dropMarks_of_spelled {sign digits : List Char} {ds : List Nat} (small large dollars : Nat)
    (hsign : sign = [] ∨ sign = ['+']) (h : AreDigits digits ds) :
    dropMarks (pairs small '0' 'x' ++ (pairs large '0' 'X' ++
      (List.replicate dollars '$' ++ (sign ++ digits)))) = sign ++ digits := by
  have hrest {c : Char} (hc : value? c = none) (hplus : c ≠ '+') : c ∉ sign ++ digits := by
    have hdigits := h.not_mem hc
    rcases hsign with rfl | rfl <;> simp [hplus, hdigits]
  have hdollars {c : Char} (hc : value? c = none) (hplus : c ≠ '+') (hdollar : c ≠ '$') :
      c ∉ List.replicate dollars '$' ++ (sign ++ digits) := fun hmem =>
    (List.mem_append.mp hmem).elim (fun hmem => hdollar (List.eq_of_mem_replicate hmem))
      (hrest hc hplus)
  have hlarge : 'x' ∉ pairs large '0' 'X' ++ (List.replicate dollars '$' ++ (sign ++ digits)) :=
    fun hmem => (List.mem_append.mp hmem).elim
      (fun hmem => absurd (mem_pairs hmem) (by decide))
      (hdollars (by decide) (by decide) (by decide))
  rw [dropMarks, dropPairs_pairs, dropPairs_of_not_mem _ hlarge, dropPairs_pairs,
    dropPairs_of_not_mem _ (hdollars (by decide) (by decide) (by decide)),
    dropWhile_dollars _ (hrest (by decide) (by decide))]

theorem parse?_of_spells {s : String} {w : UInt16} (h : Spells s w.toNat) : parse? s = some w := by
  obtain ⟨small, large, dollars, sign, digits, ds, hs, hsign, hsome, hds, hw⟩ := h
  rw [parse?, hs, dropMarks_of_spelled small large dollars hsign hds,
    dropSign_append hsign (hds.not_mem (by decide))]
  exact ofDigits?_eq_some_iff.mpr ⟨hsome, ds, hds, hw⟩

theorem spells_of_parse? {s : String} {w : UInt16} (h : parse? s = some w) : Spells s w.toNat := by
  obtain ⟨hsome, ds, hds, hw⟩ := ofDigits?_eq_some_iff.mp h
  obtain ⟨small, hsmall⟩ := exists_pairs '0' 'x' s.toList
  obtain ⟨large, hlarge⟩ := exists_pairs '0' 'X' (dropPairs '0' 'x' s.toList)
  obtain ⟨dollars, hdollars⟩ := exists_dollars (dropPairs '0' 'X' (dropPairs '0' 'x' s.toList))
  obtain ⟨sign, hsign, hdigits⟩ := exists_sign (dropMarks s.toList)
  refine ⟨small, large, dollars, sign, dropSign (dropMarks s.toList), ds, ?_, hsign, hsome, hds,
    hw⟩
  rw [← hdigits, dropMarks, ← hdollars, ← hlarge, ← hsmall]

/-- An address is read exactly from the strings that spell a number of at most 65535, as that
number, and every other string is refused. -/
theorem address_spelled (s : String) :
    (∀ w, parse? s = some w ↔ Spells s w.toNat) ∧
      (parse? s = none ↔ ∀ n ≤ 65535, ¬Spells s n) := by
  have hread (w : UInt16) : parse? s = some w ↔ Spells s w.toNat :=
    ⟨spells_of_parse?, parse?_of_spells⟩
  refine ⟨hread, fun hnone n hn hspelled => ?_, fun hnot => ?_⟩
  · have hw : (UInt16.ofNat n).toNat = n := by
      rw [UInt16.toNat_ofNat', Nat.mod_eq_of_lt (by omega)]
    rw [(hread (UInt16.ofNat n)).mpr (hw.symm ▸ hspelled)] at hnone
    cases hnone
  · cases hparse : parse? s with
    | none => rfl
    | some w => exact absurd ((hread w).mp hparse) (hnot _ (Nat.le_of_lt_succ w.toNat_lt))

example : parse? "0x0x0X$$+000fF80" = some 0xFF80 := by decide +kernel

example : parse? "0X0x150" = none := by decide +kernel

end Address
end Handheld
