import Mathlib.Data.Nat.Digits.Defs
import Handheld.Text.Hexadecimal

/-!
Numbers that are written in hexadecimal and read again.
-/

namespace Handheld.Hexadecimal

theorem value?_digit {d : Nat} (h : d < 16) : value? (Nat.digitChar d).toUpper = some d := by
  have hall : ∀ d < 16, value? (Nat.digitChar d).toUpper = some d := by decide
  exact hall d h

theorem valueFrom?_append (acc : Nat) (first second : List Char) :
    valueFrom? acc (first ++ second) =
      (valueFrom? acc first).bind fun n => valueFrom? n second := by
  induction first generalizing acc with
  | nil => rfl
  | cons c rest ih =>
    rw [List.cons_append, valueFrom?, valueFrom?]
    cases value? c with
    | none => rfl
    | some d => exact ih _

theorem valueFrom?_toDigits (n : Nat) :
    valueFrom? 0 ((Nat.toDigits 16 n).map Char.toUpper) = some n := by
  induction n using Nat.strongRecOn with
  | ind n ih =>
    have hlast (acc d : Nat) (hd : d < 16) :
        valueFrom? acc [(Nat.digitChar d).toUpper] = some (16 * acc + d) := by
      simp [valueFrom?, value?_digit hd]
    rw [Nat.toDigits_eq_if (by decide)]
    split
    case isTrue hsmall => simpa using hlast 0 n hsmall
    case isFalse hlarge =>
      rw [List.map_append, valueFrom?_append, ih (n / 16) (by omega), Option.bind_some,
        List.map_singleton, hlast _ _ (Nat.mod_lt n (by decide)), Nat.div_add_mod]

theorem valueFrom?_zeros (k : Nat) (cs : List Char) :
    valueFrom? 0 (List.replicate k '0' ++ cs) = valueFrom? 0 cs := by
  induction k with
  | zero => rfl
  | succ k ih => exact ih

theorem valueFrom?_digits (width n : Nat) : valueFrom? 0 (digits width n) = some n :=
  (valueFrom?_zeros _ _).trans (valueFrom?_toDigits n)

theorem digits_length {width n : Nat} (hwidth : 0 < width) (h : n < 16 ^ width) :
    (digits width n).length = width := by
  have hle := Nat.toDigits_length 16 n width hwidth h
  simp only [digits, List.length_append, List.length_replicate, List.length_map]
  exact Nat.sub_add_cancel hle

theorem word_digits (w : UInt16) :
    (word w).toList.length = 4 ∧ valueFrom? 0 (word w).toList = some w.toNat := by
  have hlist : (word w).toList = digits 4 w.toNat := String.toList_ofList
  rw [hlist]
  exact ⟨digits_length (by decide) w.toNat_lt, valueFrom?_digits 4 w.toNat⟩

end Handheld.Hexadecimal
