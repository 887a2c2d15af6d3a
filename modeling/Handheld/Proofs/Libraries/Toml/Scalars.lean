import Mathlib.Data.List.TakeDrop
import Handheld.Libraries.Toml.Scalars

/-!
Booleans and integers are read back from their text. An integer is taken for neither a date nor a
time, because behind its first character all are digits.
-/

namespace Handheld.Toml

theorem isDigit_of_mem_toDigits {n : Nat} {c : Char} (h : c ∈ Nat.toDigits 10 n) : isDigit c := by
  have hdigit := Nat.isDigit_of_mem_toDigits (by decide) (by decide) h
  simpa [isDigit, Char.isDigit, Char.le_def] using hdigit

theorem isDigit_ne {c d : Char} (h : isDigit c) (hd : isDigit d = false) : c ≠ d := by
  rintro rfl
  rw [h] at hd
  cases hd

theorem takeDigits_of_digits {ds : List Char} (h : ∀ c ∈ ds, isDigit c) :
    takeDigits isDigit ds = (ds, []) := by
  induction ds with
  | nil => rfl
  | cons c ds ih =>
    have hc := h c List.mem_cons_self
    have hds := ih fun d hd => h d (List.mem_cons_of_mem _ hd)
    have hmark : ∀ d rest, ds ≠ '_' :: d :: rest := by
      rintro d rest rfl
      exact absurd (h '_' (by simp)) (by decide)
    simp [takeDigits, hc, hds]

theorem toDigits_ne_zero_cons {n : Nat} (h : 0 < n) (ds : List Char) :
    Nat.toDigits 10 n ≠ '0' :: ds := by
  induction n using Nat.strongRecOn generalizing ds with
  | ind n ih =>
    rw [Nat.toDigits_eq_if (by decide)]
    split
    case isTrue hsmall =>
      have hall : ∀ m < 10, 0 < m → Nat.digitChar m ≠ '0' := by decide
      exact fun heq => hall n hsmall h (List.cons.inj heq).1
    case isFalse hlarge =>
      have hfront := ih (n / 10) (by omega) (by omega)
      cases hdigits : Nat.toDigits 10 (n / 10) with
      | nil => exact absurd hdigits Nat.toDigits_ne_nil
      | cons c rest =>
        rw [List.cons_append]
        rintro heq
        obtain ⟨rfl, -⟩ := List.cons.inj heq
        exact hfront rest hdigits

theorem leadOk_toDigits (n : Nat) : leadOk (Nat.toDigits 10 n) := by
  rcases Nat.eq_zero_or_pos n with rfl | hpos
  · rfl
  · unfold leadOk
    split
    case h_1 heq => exact absurd heq (toDigits_ne_zero_cons hpos _)
    case h_2 => rfl

theorem decimal?_toDigits (n : Nat) : decimal? (Nat.toDigits 10 n) = some n := by
  have hdigits := takeDigits_of_digits fun c (hc : c ∈ Nat.toDigits 10 n) =>
    isDigit_of_mem_toDigits hc
  have hvalue : decimalValue (Nat.toDigits 10 n) = n := Nat.ofDigitChars_ten_toDigits
  have honly : onlyDigits? isDigit (Nat.toDigits 10 n) = some (Nat.toDigits 10 n) := by
    rw [onlyDigits?, hdigits]
    cases hcons : Nat.toDigits 10 n with
    | nil => exact absurd hcons Nat.toDigits_ne_nil
    | cons => rfl
  simp [decimal?, honly, leadOk_toDigits, hvalue]

theorem toString_cases (n : Int) :
    (∃ m : Nat, n = m ∧ (toString n).toList = Nat.toDigits 10 m) ∨
      ∃ m : Nat, n = -m ∧ (toString n).toList = '-' :: Nat.toDigits 10 m := by
  cases n with
  | ofNat m =>
    refine .inl ⟨m, rfl, ?_⟩
    rw [show toString (Int.ofNat m) = toString m from rfl, Nat.toString_eq_ofList_toDigits,
      String.toList_ofList]
  | negSucc m =>
    refine .inr ⟨m + 1, rfl, ?_⟩
    rw [show toString (Int.negSucc m) = "-" ++ toString (m + 1) from rfl,
      Nat.toString_eq_ofList_toDigits, String.toList_append, String.toList_ofList]
    simp

theorem tail_toString (n : Int) : ∀ c ∈ (toString n).toList.tail, isDigit c := by
  rcases toString_cases n with ⟨m, -, htext⟩ | ⟨m, -, htext⟩ <;> rw [htext]
  · exact fun c hc => isDigit_of_mem_toDigits (List.mem_of_mem_tail hc)
  · exact fun c hc => isDigit_of_mem_toDigits hc

theorem natural?_toDigits (m : Nat) : natural? (Nat.toDigits 10 m) = none := by
  have hdigits (c : Char) : c ∈ Nat.toDigits 10 m → isDigit c := isDigit_of_mem_toDigits
  unfold natural?
  split
  case h_4 => rfl
  all_goals
    rename_i heq
    rw [heq] at hdigits
    exact absurd (hdigits _ (List.mem_cons_of_mem _ List.mem_cons_self)) (by decide)

theorem integerOf?_toString (n : Int) : integerOf? (toString n).toList = some n := by
  rcases toString_cases n with ⟨m, rfl, htext⟩ | ⟨m, rfl, htext⟩ <;> rw [htext]
  · have hdigits (c : Char) : c ∈ Nat.toDigits 10 m → isDigit c := isDigit_of_mem_toDigits
    unfold integerOf?
    split
    case h_3 => simp [natural?_toDigits, decimal?_toDigits]
    all_goals
      rename_i heq
      rw [heq] at hdigits
      exact absurd (hdigits _ List.mem_cons_self) (by decide)
  · simp [integerOf?, decimal?_toDigits]

theorem integer?_toString {n : Int} (h : integerInRange n) :
    integer? (toString n).toList = some (.integer n) := by
  have hbase : ¬((toString n).toList = ['0', 'x'] ∨ (toString n).toList = ['0', 'o'] ∨
      (toString n).toList = ['0', 'b']) := by
    have htail := tail_toString n
    rintro (heq | heq | heq) <;> rw [heq] at htail <;>
      exact absurd (htail _ List.mem_cons_self) (by decide)
  rw [integer?, if_neg hbase, integerOf?_toString, Option.map_some, if_pos h]

theorem dash_of_dropDate? {cs rest : List Char} (h : dropDate? cs = some rest) :
    cs[4]? = some '-' := by
  unfold dropDate? at h
  split at h
  · rfl
  · cases h

theorem colon_of_dropTime? {cs rest : List Char} (h : dropTime? cs = some rest) :
    cs[2]? = some ':' := by
  unfold dropTime? at h
  split at h
  · rfl
  · cases h

theorem getElem?_succ_of_digits {cs : List Char} (h : ∀ c ∈ cs.tail, isDigit c) (i : Nat)
    {c : Char} (hc : isDigit c = false) : cs[i + 1]? ≠ some c := by
  intro heq
  rw [← List.getElem?_tail] at heq
  rw [h c (List.mem_of_getElem? heq)] at hc
  cases hc

theorem not_moment_of_digits {cs : List Char} (h : ∀ c ∈ cs.tail, isDigit c) :
    isDate cs = false ∧ isTime cs = false ∧ isDateTime cs = false := by
  have hdate : dropDate? cs = none := Option.eq_none_iff_forall_ne_some.mpr fun rest hrest =>
    getElem?_succ_of_digits h 3 (by decide) (dash_of_dropDate? hrest)
  have htime : dropTime? cs = none := Option.eq_none_iff_forall_ne_some.mpr fun rest hrest =>
    getElem?_succ_of_digits h 1 (by decide) (colon_of_dropTime? hrest)
  refine ⟨?_, ?_, ?_⟩
  · rw [isDate, hdate]
    rfl
  · rw [isTime, htime]
    rfl
  · rw [isDateTime, hdate]

theorem scalarOf?_toString {n : Int} (h : integerInRange n) :
    scalarOf? (toString n).toList = some (.integer n) := by
  have htail := tail_toString n
  obtain ⟨hdate, htime, hboth⟩ := not_moment_of_digits htail
  have hnot {c d : Char} {cs : List Char} (hd : isDigit d = false) :
      (toString n).toList ≠ c :: d :: cs := by
    intro heq
    rw [heq] at htail
    exact isDigit_ne (htail d List.mem_cons_self) hd rfl
  rw [scalarOf?, if_neg (hnot (by decide)), if_neg (hnot (by decide)), hdate, htime, hboth,
    integer?_toString h]
  rfl

theorem not_endsScalar_of_isDigit {c : Char} (h : isDigit c) : endsScalar c = false := by
  have hne (d : Char) (hd : isDigit d = false) : c ≠ d := isDigit_ne h hd
  simp [endsScalar, hne ' ' (by decide), hne '\t' (by decide), hne '\n' (by decide),
    hne '\r' (by decide), hne '#' (by decide), hne ',' (by decide), hne ']' (by decide),
    hne '\x7d' (by decide)]

theorem readScalar_append (word rest : List Char) {next : Char}
    (hword : ∀ c ∈ word, endsScalar c = false) (hnext : endsScalar next) (hblank : next ≠ ' ') :
    readScalar (word ++ next :: rest) = (scalarOf? word).map (·, next :: rest) := by
  have htake : takeScalar (word ++ next :: rest) = (word, next :: rest) := by
    rw [takeScalar, List.span_eq_takeWhile_dropWhile,
      List.takeWhile_append_of_pos (by simpa using hword),
      List.dropWhile_append_of_pos (by simpa using hword)]
    simp [hnext]
  rw [readScalar, htake]
  split
  case h_1 heq => exact absurd (List.cons.inj (Prod.mk.inj heq).2).1 hblank
  case h_2 heq =>
    obtain ⟨rfl, rfl⟩ := Prod.mk.inj heq
    rfl

theorem readScalar_toString {n : Int} (h : integerInRange n) {next : Char}
    (hnext : endsScalar next) (hblank : next ≠ ' ') (rest : List Char) :
    readScalar ((toString n).toList ++ next :: rest) = some (.integer n, next :: rest) := by
  have hword : ∀ c ∈ (toString n).toList, endsScalar c = false := by
    rcases toString_cases n with ⟨m, -, htext⟩ | ⟨m, -, htext⟩ <;> rw [htext]
    · exact fun c hc => not_endsScalar_of_isDigit (isDigit_of_mem_toDigits hc)
    · rintro c (_ | ⟨_, hc⟩)
      · decide
      · exact not_endsScalar_of_isDigit (isDigit_of_mem_toDigits hc)
  rw [readScalar_append _ rest hword hnext hblank, scalarOf?_toString h, Option.map_some]

theorem readScalar_boolean (b : Bool) {next : Char} (hnext : endsScalar next)
    (hblank : next ≠ ' ') (rest : List Char) :
    readScalar ((if b then "true" else "false").toList ++ next :: rest) =
      some (.boolean b, next :: rest) := by
  cases b
  · exact readScalar_append ['f', 'a', 'l', 's', 'e'] rest (by simp [endsScalar]) hnext hblank
  · exact readScalar_append ['t', 'r', 'u', 'e'] rest (by simp [endsScalar]) hnext hblank

end Handheld.Toml
