import Handheld.Proofs.Libraries.Toml.Scalars
import Handheld.Proofs.Libraries.Toml.Strings
import Handheld.Libraries.Toml.Library

/-!
Values are read back from their text: strings, booleans, integers that are held, and arrays of such
values, nested as deep as the reader goes. Behind a value stands the end of its line or a comma.
-/

namespace Handheld.Toml

/-- A value that can be written and nests arrays at most so deep. -/
inductive Storable : Nat → Value → Prop
  | string {depth : Nat} (s : String) : Storable depth (.string s)
  | boolean {depth : Nat} (b : Bool) : Storable depth (.boolean b)
  | integer {depth : Nat} {n : Int} (h : integerInRange n) : Storable depth (.integer n)
  | array {depth : Nat} {vs : List Value} (h : ∀ v ∈ vs, Storable depth v) :
    Storable (depth + 1) (.array vs)

theorem storable_of_eq_true {depth : Nat} {v : Value} (h : v.storable depth) :
    Storable depth v := by
  induction depth generalizing v with
  | zero =>
    cases v with
    | string s => exact .string s
    | boolean b => exact .boolean b
    | integer n => exact .integer h
    | _ => cases h
  | succ depth ih =>
    cases v with
    | string s => exact .string s
    | boolean b => exact .boolean b
    | integer n => exact .integer h
    | array vs => exact .array fun v hv => ih (List.all_eq_true.mp h v hv)
    | _ => cases h

/-- A character that opens a value: no blank, no comment and no end of an array. -/
abbrev Opens (c : Char) : Prop :=
  c ≠ ' ' ∧ c ≠ '\t' ∧ c ≠ '\n' ∧ c ≠ '\r' ∧ c ≠ '#' ∧ c ≠ ']'

theorem opens_of_isDigit {c : Char} (h : isDigit c) : Opens c :=
  ⟨isDigit_ne h (by decide), isDigit_ne h (by decide), isDigit_ne h (by decide),
    isDigit_ne h (by decide), isDigit_ne h (by decide), isDigit_ne h (by decide)⟩

theorem toString_head (n : Int) :
    ∃ c cs, (toString n).toList = c :: cs ∧ (isDigit c ∨ c = '-') := by
  rcases toString_cases n with ⟨m, -, htext⟩ | ⟨m, -, htext⟩
  · cases hdigits : Nat.toDigits 10 m with
    | nil => exact absurd hdigits Nat.toDigits_ne_nil
    | cons c cs =>
      have hc := isDigit_of_mem_toDigits (hdigits ▸ List.mem_cons_self : c ∈ Nat.toDigits 10 m)
      exact ⟨c, cs, htext.trans hdigits, .inl hc⟩
  · exact ⟨'-', _, htext, .inr rfl⟩

theorem Storable.head {depth : Nat} {v : Value} (h : Storable depth v) :
    ∃ c cs, v.write = c :: cs ∧ Opens c := by
  cases h with
  | string s =>
    obtain ⟨tail, htail | htail⟩ := writeString_head s.toList
    · exact ⟨'"', tail, htail, by decide⟩
    · exact ⟨'\'', tail, htail, by decide⟩
  | boolean b =>
    cases b
    · exact ⟨'f', _, rfl, by decide⟩
    · exact ⟨'t', _, rfl, by decide⟩
  | @integer _ n =>
    obtain ⟨c, cs, htext, hc⟩ := toString_head n
    refine ⟨c, cs, htext, ?_⟩
    rcases hc with hc | rfl
    · exact opens_of_isDigit hc
    · decide
  | @array _ vs =>
    cases vs with
    | nil => exact ⟨'[', _, rfl, by decide⟩
    | cons => exact ⟨'[', _, rfl, by decide⟩

theorem readValue_of_scalar {c : Char} {cs : List Char} (depth : Nat) (hquote : c ≠ '"')
    (hmark : c ≠ '\'') (hbracket : c ≠ '[') (hbrace : c ≠ '\x7b') :
    readValue depth (c :: cs) = readScalar (c :: cs) := by
  simp [readValue, hquote, hmark, hbracket, hbrace]

theorem skipLines_of_opens {c : Char} (h : Opens c) (cs : List Char) :
    skipLines false (c :: cs) = some (c :: cs) := by
  obtain ⟨hblank, htab, hline, hreturn, hcomment, -⟩ := h
  simp [skipLines, hblank, htab, hline, hreturn, hcomment]

inductive Closes : Char → Prop
  | comma : Closes ','
  | line : Closes '\n'

theorem Closes.endsScalar {next : Char} (h : Closes next) : endsScalar next ∧ next ≠ ' ' := by
  cases h <;> decide

variable {next : Char} {rest : List Char}

theorem readValue_string (depth : Nat) (s : String) (hnext : Closes next) :
    readValue depth (writeString s.toList ++ next :: rest) = some (.string s, next :: rest) := by
  have hread :
      readString (writeString s.toList ++ next :: rest) = some (s.toList, next :: rest) := by
    cases hnext <;> exact readString_writeString _ (by decide) (by decide)
  obtain ⟨tail, htail | htail⟩ := writeString_head s.toList
  all_goals
    rw [htail, List.cons_append] at hread ⊢
    simp [readValue, hread]

theorem readItems_writeItems {value : ValueReader} {vs : List Value}
    (hopens : ∀ v ∈ vs, ∃ c cs, v.write = c :: cs ∧ Opens c)
    (hvalue : ∀ v ∈ vs, ∀ rest, value (v.write ++ ',' :: rest) = some (v, ',' :: rest))
    {count : Nat} (hcount : vs.length < count) (rest : List Char) :
    readItems value count ('\n' :: (Value.writeItems vs ++ ']' :: rest)) = some (vs, rest) := by
  induction vs generalizing count with
  | nil =>
    obtain ⟨count, rfl⟩ := Nat.exists_eq_add_one_of_ne_zero (by omega : count ≠ 0)
    rfl
  | cons v vs ih =>
    obtain ⟨count, rfl⟩ := Nat.exists_eq_add_one_of_ne_zero (by omega : count ≠ 0)
    have hfewer : vs.length < count := by simpa using hcount
    have hrest := ih (fun v hv => hopens v (List.mem_cons_of_mem _ hv))
      (fun v hv => hvalue v (List.mem_cons_of_mem _ hv)) hfewer
    have hfirst := hvalue v List.mem_cons_self
    obtain ⟨c, cs, hwrite, hc⟩ := hopens v List.mem_cons_self
    have hlines (cs : List Char) : skipLines false ('\n' :: ' ' :: ' ' :: ' ' :: ' ' :: cs) =
        skipLines false cs := rfl
    have hcomma (cs : List Char) : skipLines false (',' :: cs) = some (',' :: cs) := rfl
    have hbracket : c ≠ ']' := hc.2.2.2.2.2
    have hread := hfirst ('\n' :: (Value.writeItems vs ++ ']' :: rest))
    rw [Value.writeItems]
    simp only [List.cons_append, List.append_assoc, List.nil_append]
    rw [hwrite, List.cons_append] at hread ⊢
    rw [readItems, hlines, skipLines_of_opens hc, Option.bind_eq_bind, Option.bind_some]
    split
    case h_1 heq => exact absurd (List.cons.inj heq).1 hbracket
    case h_2 => simp [hread, hcomma, hrest]

theorem write_array {vs : List Value} (h : vs ≠ []) :
    Value.write (.array vs) = '[' :: '\n' :: (Value.writeItems vs ++ [']']) := by
  cases vs with
  | nil => exact absurd rfl h
  | cons => rw [Value.write]; rfl

theorem length_le_writeItems (vs : List Value) : vs.length ≤ (Value.writeItems vs).length := by
  induction vs with
  | nil => exact Nat.le_refl 0
  | cons v vs ih =>
    simp only [Value.writeItems, List.length_append, List.length_cons, List.length_nil]
    omega

theorem readValue_write {depth : Nat} {v : Value} (h : Storable depth v) (hnext : Closes next)
    (rest : List Char) : readValue depth (v.write ++ next :: rest) = some (v, next :: rest) := by
  induction h generalizing next rest with
  | string s => exact readValue_string _ s hnext
  | @boolean depth b =>
    obtain ⟨hends, hblank⟩ := hnext.endsScalar
    have hread := readScalar_boolean b hends hblank rest
    rw [Value.write]
    cases b
    · exact (readValue_of_scalar depth (by decide) (by decide) (by decide) (by decide)).trans hread
    · exact (readValue_of_scalar depth (by decide) (by decide) (by decide) (by decide)).trans hread
  | @integer depth n hn =>
    obtain ⟨hends, hblank⟩ := hnext.endsScalar
    have hread := readScalar_toString hn hends hblank rest
    obtain ⟨c, cs, htext, hc⟩ := toString_head n
    have hne (d : Char) (hd : isDigit d = false) (hminus : d ≠ '-') : c ≠ d := by
      rcases hc with hc | rfl
      · exact isDigit_ne hc hd
      · exact hminus.symm
    rw [Value.write]
    rw [htext, List.cons_append] at hread ⊢
    rw [readValue_of_scalar depth (hne _ (by decide) (by decide)) (hne _ (by decide) (by decide))
      (hne _ (by decide) (by decide)) (hne _ (by decide) (by decide)), hread]
  | @array depth vs hvs ih =>
    by_cases hempty : vs = []
    · subst hempty
      rfl
    · let text := '\n' :: (Value.writeItems vs ++ ']' :: next :: rest)
      have hcount : vs.length < text.length + 1 := by
        have hlength := length_le_writeItems vs
        simp only [text, List.length_cons, List.length_append]
        omega
      have hitems : readItems (readValue depth) (text.length + 1) text = some (vs, next :: rest) :=
        readItems_writeItems (fun v hv => (hvs v hv).head) (fun v hv rest => ih v hv .comma rest)
          hcount (next :: rest)
      rw [write_array hempty]
      simp only [List.cons_append, List.append_assoc, List.nil_append]
      rw [readValue, hitems, Option.map_some]

end Handheld.Toml
