import Handheld.Proofs.Text.Hexadecimal
import Handheld.Libraries.Toml.Strings

/-!
Every string is read back from the form it is written in, whatever it holds: `readString` undoes
`writeString`. Behind the string may stand anything but a further mark of its own kind.
-/

namespace Handheld.Toml

theorem lt_of_needsEscape {c : Char} (h : needsEscape c) : c.toNat < 128 := by
  simp only [needsEscape, Char.lt_def, UInt32.lt_iff_toNat_lt, Bool.or_eq_true, Bool.and_eq_true,
    decide_eq_true_eq, beq_iff_eq] at h
  have hspace : ' '.val.toNat = 32 := rfl
  have hval : c.val.toNat = c.toNat := rfl
  rcases h with ⟨⟨hlow, -⟩, -⟩ | rfl
  · omega
  · decide

theorem plainChar_of_not_needsEscape {c : Char} (h : needsEscape c = false) (hline : c ≠ '\n') :
    plainChar c := by
  simp only [needsEscape, plainChar, Char.lt_def, Char.le_def, UInt32.lt_iff_toNat_lt,
    UInt32.le_iff_toNat_le] at *
  by_cases htab : c = '\t'
  · simp [htab]
  · simp_all

inductive Written (c : Char) : List Char → Prop
  | plain (hplain : plainChar c) (hquote : c ≠ '"') (hbackslash : c ≠ '\\') (hreturn : c ≠ '\r') :
    Written c [c]
  | letter {l : Char} (h : escaped? l = some c) : Written c ['\\', l]
  | code {a b d e : Char} (h : coded? [a, b, d, e] = some c) : Written c ['\\', 'u', a, b, d, e]

theorem written_code {c : Char} (h : c.toNat < 128) :
    Written c ('\\' :: 'u' :: Hexadecimal.digits 4 c.toNat) := by
  have hlength : (Hexadecimal.digits 4 c.toNat).length = 4 :=
    Hexadecimal.digits_length (by decide) (by omega)
  have hread : coded? (Hexadecimal.digits 4 c.toNat) = some c := by
    have hvalid : c.toNat.isValidChar := c.valid
    rw [coded?, Hexadecimal.valueFrom?_digits, Option.bind_some, scalar?, if_pos hvalid,
      Char.ofNat_toNat]
  match hdigits : Hexadecimal.digits 4 c.toNat, hlength with
  | [a, b, d, e], _ => exact .code (hdigits ▸ hread)

theorem written_escapeChar (c : Char) : Written c (escapeChar c) := by
  unfold escapeChar
  split
  case h_8 hquote hbackslash =>
    split
    case isTrue hcode => exact written_code (lt_of_needsEscape hcode)
    case isFalse hplain =>
      rw [Bool.not_eq_true] at hplain
      exact .plain (plainChar_of_not_needsEscape hplain ‹_›) hquote hbackslash ‹_›
  all_goals exact .letter rfl

theorem Written.append_ne {c : Char} {cs : List Char} (h : Written c cs) (rest tail : List Char) :
    cs ++ rest ≠ '"' :: tail := by
  cases h with
  | plain _ hquote => exact fun heq => hquote (List.cons.inj heq).1
  | letter | code => exact nofun

theorem consRead_some (c : Char) (s rest : List Char) :
    consRead (some c) (some (s, rest)) = some (c :: s, rest) := rfl

theorem readBasic_written {c : Char} {cs : List Char} (h : Written c cs) (rest : List Char) :
    readBasic (cs ++ rest) = consRead (some c) (readBasic rest) := by
  cases h with
  | plain hplain _ hbackslash => simp [readBasic, hplain, hbackslash]
  | letter h =>
    unfold escaped? at h
    split at h
    case h_9 => cases h
    all_goals
      cases h
      rfl
  | code h =>
    rw [← h]
    rfl

theorem readBasic_flatMap (s rest : List Char) :
    readBasic (s.flatMap escapeChar ++ '"' :: rest) = some (s, rest) := by
  induction s with
  | nil => rfl
  | cons c s ih =>
    rw [List.flatMap_cons, List.append_assoc, readBasic_written (written_escapeChar c), ih,
      consRead_some]

theorem readString_of_one {body : List Char} (h : ∀ tail, body ≠ '"' :: tail) :
    readString ('"' :: body) = readBasic body := by
  simp [readString, h]

variable {next : Char} {rest : List Char}

theorem readString_writeBasic (s : List Char) (hnext : next ≠ '"') :
    readString (writeBasic s ++ next :: rest) = some (s, next :: rest) := by
  have hbody := readBasic_flatMap s (next :: rest)
  rw [writeBasic, List.cons_append, List.cons_append, List.append_assoc, List.singleton_append]
  cases s with
  | nil => simp [readString, readBasic, hnext]
  | cons c s =>
    rw [List.flatMap_cons, List.append_assoc] at hbody ⊢
    rw [readString_of_one ((written_escapeChar c).append_ne _), hbody]

theorem readLines_written {c : Char} {cs : List Char} (h : Written c cs) (hline : c ≠ '\n')
    (rest : List Char) :
    readLines false (cs ++ rest) = consRead (some c) (readLines false rest) := by
  cases h with
  | plain hplain hquote hbackslash hreturn =>
    simp [readLines, hplain, hquote, hbackslash, hreturn]
  | letter h =>
    unfold escaped? at h
    split at h
    case h_9 => cases h
    all_goals
      cases h
      rfl
  | code h =>
    rw [← h]
    rfl

theorem readLines_quote {cs : List Char} (h : ∀ tail, cs ≠ '"' :: '"' :: tail) :
    readLines false ('"' :: cs) = consRead (some '"') (readLines false cs) := by
  have hplain : plainChar '"' := by decide
  simp [readLines, h, hplain]

theorem escapeLines_other {c : Char} (hline : c ≠ '\n') (hquote : c ≠ '"') (quotes : Nat)
    (s : List Char) : escapeLines quotes (c :: s) = escapeChar c ++ escapeLines 0 s := by
  simp [escapeLines]

theorem escapeLines_two {s rest tail : List Char} (h : escapeLines 2 s ++ rest = '"' :: tail) :
    s = [] := by
  cases s with
  | nil => rfl
  | cons c s =>
    by_cases hline : c = '\n'
    · subst hline
      exact absurd h nofun
    by_cases hquote : c = '"'
    · subst hquote
      exact absurd h nofun
    · rw [escapeLines_other hline hquote, List.append_assoc] at h
      exact absurd h ((written_escapeChar c).append_ne _ _)

theorem escapeLines_quotes {quotes : Nat} (hfew : quotes < 2) {s rest tail : List Char}
    (h : escapeLines (quotes + 1) s ++ rest = '"' :: '"' :: tail) :
    s = [] ∨ s = ['"'] ∧ quotes = 0 := by
  cases s with
  | nil => exact .inl rfl
  | cons c s =>
    by_cases hline : c = '\n'
    · subst hline
      exact absurd h nofun
    by_cases hquote : c = '"'
    · subst hquote
      rw [escapeLines] at h
      split at h
      case isTrue hzero =>
        obtain rfl : quotes = 0 := by omega
        obtain rfl := escapeLines_two (List.cons.inj h).2
        exact .inr ⟨rfl, rfl⟩
      case isFalse => exact absurd h nofun
    · rw [escapeLines_other hline hquote, List.append_assoc] at h
      exact absurd h ((written_escapeChar c).append_ne _ _)

theorem readLines_escapeLines (s : List Char) (quotes : Nat) (hnext : next ≠ '"') :
    readLines false (escapeLines quotes s ++ '"' :: '"' :: '"' :: next :: rest) =
      some (s, next :: rest) := by
  induction s generalizing quotes with
  | nil => simp [escapeLines, readLines, hnext]
  | cons c s ih =>
    by_cases hline : c = '\n'
    · subst hline
      exact congrArg (consRead (some '\n')) (ih 0)
    by_cases hquote : c = '"'
    · subst hquote
      rw [escapeLines]
      split
      case isTrue hfew =>
        -- The mark takes two quotes in front of it at most: a string ending in them is read at once.
        by_cases hend : ∃ tail, escapeLines (quotes + 1) s ++ '"' :: '"' :: '"' :: next :: rest =
            '"' :: '"' :: tail
        · obtain ⟨tail, htail⟩ := hend
          rcases escapeLines_quotes hfew htail with rfl | ⟨rfl, rfl⟩
          · simp [escapeLines, readLines, hnext]
          · simp [escapeLines, readLines]
        · rw [List.cons_append, readLines_quote fun tail htail => hend ⟨tail, htail⟩, ih,
            consRead_some]
      case isFalse => exact congrArg (consRead (some '"')) (ih 0)
    · rw [escapeLines_other hline hquote, List.append_assoc,
        readLines_written (written_escapeChar c) hline, ih, consRead_some]

theorem dropLineEnd_of_head {c : Char} (cs : List Char) (hline : c ≠ '\n') (hreturn : c ≠ '\r') :
    dropLineEnd (c :: cs) = c :: cs := by
  simp [dropLineEnd, hline, hreturn]

theorem Written.dropLineEnd {c : Char} {cs : List Char} (h : Written c cs) (hline : c ≠ '\n')
    (rest : List Char) : dropLineEnd (cs ++ rest) = cs ++ rest := by
  cases h with
  | plain _ _ _ hreturn => exact dropLineEnd_of_head rest hline hreturn
  | letter | code => rfl

theorem dropLineEnd_escapeLines {s : List Char} (h : '\n' ∉ s) (rest : List Char) :
    dropLineEnd (escapeLines 0 s ++ '"' :: rest) = escapeLines 0 s ++ '"' :: rest := by
  cases s with
  | nil => rfl
  | cons c s =>
    have hline : c ≠ '\n' := fun heq => h (heq ▸ List.mem_cons_self)
    by_cases hquote : c = '"'
    · subst hquote
      rfl
    · rw [escapeLines_other hline hquote, List.append_assoc,
        (written_escapeChar c).dropLineEnd hline]

theorem readString_writeLines (s : List Char) (hnext : next ≠ '"') :
    readString (writeLines s ++ next :: rest) = some (s, next :: rest) := by
  have hbody : readLines false (escapeLines 0 s ++ '"' :: '"' :: '"' :: next :: rest) =
      some (s, next :: rest) := readLines_escapeLines s 0 hnext
  have hread (cs : List Char) :
      readString ('"' :: '"' :: '"' :: cs) = readLines false (dropLineEnd cs) := rfl
  simp only [writeLines, List.append_assoc, List.cons_append, List.nil_append, hread]
  split
  case isTrue => exact hbody
  case isFalse hlines =>
    have hlines : '\n' ∉ s := by simpa using hlines
    rw [List.nil_append, dropLineEnd_escapeLines hlines, hbody]

def countRun (mark : Char) : Nat × Nat → Char → Nat × Nat := fun (run, longest) c =>
  let run := if c == mark then run + 1 else 0
  (run, max longest run)

theorem longestRun_eq (mark : Char) (s : List Char) :
    longestRun mark s = (s.foldl (countRun mark) (0, 0)).2 := rfl

theorem countRun_le (mark : Char) (s : List Char) (counts : Nat × Nat) :
    counts.2 ≤ (s.foldl (countRun mark) counts).2 ∧
      (counts.1 ≤ counts.2 →
        (s.foldl (countRun mark) counts).1 ≤ (s.foldl (countRun mark) counts).2) := by
  induction s generalizing counts with
  | nil => exact ⟨Nat.le_refl _, id⟩
  | cons c s ih =>
    obtain ⟨hlongest, hrun⟩ := ih (countRun mark counts c)
    exact ⟨(Nat.le_max_left ..).trans hlongest, fun _ => hrun (Nat.le_max_right ..)⟩

theorem countRun_replicate (mark : Char) (n : Nat) {counts : Nat × Nat} (h : counts.1 ≤ counts.2) :
    counts.1 + n ≤ ((List.replicate n mark).foldl (countRun mark) counts).2 := by
  induction n generalizing counts with
  | zero => exact h
  | succ n ih =>
    have hle : (countRun mark counts mark).1 ≤ (countRun mark counts mark).2 := Nat.le_max_right ..
    have hrest := ih hle
    have hrun : (countRun mark counts mark).1 = counts.1 + 1 := by simp [countRun]
    rw [List.replicate_succ, List.foldl_cons]
    omega

theorem le_longestRun {mark : Char} {n : Nat} {s : List Char}
    (h : List.replicate n mark <:+: s) : n ≤ longestRun mark s := by
  obtain ⟨before, after, rfl⟩ := h
  rw [longestRun_eq, List.foldl_append, List.foldl_append]
  have hbefore := (countRun_le mark before (0, 0)).2 (Nat.le_refl 0)
  have hrun := countRun_replicate mark n hbefore
  have hafter := (countRun_le mark after
    ((List.replicate n mark).foldl (countRun mark) (before.foldl (countRun mark) (0, 0)))).1
  omega

theorem not_mem_of_longestRun {mark : Char} {s : List Char} (h : longestRun mark s = 0) :
    mark ∉ s := fun hmem => by
  obtain ⟨before, after, rfl⟩ := List.append_of_mem hmem
  have hrun : 1 ≤ longestRun mark (before ++ mark :: after) :=
    le_longestRun ⟨before, after, by simp⟩
  omega

theorem readLiteral_append {s : List Char} (hplain : ∀ c ∈ s, plainChar c) (hmark : '\'' ∉ s)
    (rest : List Char) : readLiteral (s ++ '\'' :: rest) = some (s, rest) := by
  induction s with
  | nil => rfl
  | cons c s ih =>
    have hc : c ≠ '\'' := fun heq => hmark (heq ▸ List.mem_cons_self)
    have hrest := ih (fun c hc => hplain c (List.mem_cons_of_mem _ hc))
      fun hmem => hmark (List.mem_cons_of_mem _ hmem)
    have hfirst := hplain c List.mem_cons_self
    simp [readLiteral, hfirst, hrest, consRead_some]

theorem readString_writeLiteral {s : List Char} (hplain : ∀ c ∈ s, plainChar c)
    (hmark : '\'' ∉ s) (hnext : next ≠ '\'') :
    readString (writeLiteral s ++ next :: rest) = some (s, next :: rest) := by
  have hbody := readLiteral_append hplain hmark (next :: rest)
  rw [writeLiteral, List.cons_append, List.cons_append, List.append_assoc, List.singleton_append]
  cases s with
  | nil => simp [readString, readLiteral, hnext]
  | cons c s =>
    have hc : c ≠ '\'' := fun heq => hmark (heq ▸ List.mem_cons_self)
    simp only [List.cons_append] at hbody ⊢
    simp [readString, hc, hbody]

theorem readLiteralLines_other {c : Char} (hplain : needsEscape c = false) (hmark : c ≠ '\'')
    (cs : List Char) : readLiteralLines (c :: cs) = consRead (some c) (readLiteralLines cs) := by
  by_cases hline : c = '\n'
  · subst hline
    rfl
  · have hreturn : c ≠ '\r' := by
      rintro rfl
      exact absurd hplain (by decide)
    have hplain := plainChar_of_not_needsEscape hplain hline
    simp [readLiteralLines, hplain, hreturn, hmark]

theorem readLiteralLines_mark {cs : List Char} (h : ∀ tail, cs ≠ '\'' :: '\'' :: tail) :
    readLiteralLines ('\'' :: cs) = consRead (some '\'') (readLiteralLines cs) := by
  have hplain : plainChar '\'' := by decide
  simp [readLiteralLines, h, hplain]

theorem marks_of_append {mark : Char} {s rest tail : List Char}
    (hmarks : ¬List.replicate 3 mark <:+: mark :: s) (h : s ++ rest = mark :: mark :: tail) :
    s = [] ∨ s = [mark] := by
  match s with
  | [] => exact .inl rfl
  | [d] =>
    obtain rfl := (List.cons.inj h).1
    exact .inr rfl
  | d :: e :: s =>
    obtain ⟨rfl, htail⟩ := List.cons.inj h
    obtain ⟨rfl, -⟩ := List.cons.inj htail
    exact absurd ⟨[], s, rfl⟩ hmarks

theorem readLiteralLines_append {s : List Char} (hplain : ∀ c ∈ s, needsEscape c = false)
    (hmarks : ¬List.replicate 3 '\'' <:+: s) (hnext : next ≠ '\'') :
    readLiteralLines (s ++ '\'' :: '\'' :: '\'' :: next :: rest) = some (s, next :: rest) := by
  induction s with
  | nil => simp [readLiteralLines, hnext]
  | cons c s ih =>
    have hrest := ih (fun c hc => hplain c (List.mem_cons_of_mem _ hc))
      fun hinfix => hmarks (List.infix_cons hinfix)
    by_cases hmark : c = '\''
    · subst hmark
      by_cases hend : ∃ tail, s ++ '\'' :: '\'' :: '\'' :: next :: rest = '\'' :: '\'' :: tail
      · obtain ⟨tail, htail⟩ := hend
        rcases marks_of_append hmarks htail with rfl | rfl
        · simp [readLiteralLines, hnext]
        · simp [readLiteralLines]
      · rw [List.cons_append, readLiteralLines_mark fun tail htail => hend ⟨tail, htail⟩, hrest,
          consRead_some]
    · rw [List.cons_append, readLiteralLines_other (hplain c List.mem_cons_self) hmark, hrest,
        consRead_some]

theorem readString_writeLiteralLines {s : List Char} (hplain : ∀ c ∈ s, needsEscape c = false)
    (hmarks : ¬List.replicate 3 '\'' <:+: s) (hnext : next ≠ '\'') :
    readString (writeLiteralLines s ++ next :: rest) = some (s, next :: rest) := by
  have hbody : readLiteralLines (s ++ '\'' :: '\'' :: '\'' :: next :: rest) =
      some (s, next :: rest) := readLiteralLines_append hplain hmarks hnext
  have hread (cs : List Char) :
      readString ('\'' :: '\'' :: '\'' :: cs) = readLiteralLines (dropLineEnd cs) := rfl
  simp only [writeLiteralLines, List.append_assoc, List.cons_append, List.nil_append, hread]
  split
  case isTrue => exact hbody
  case isFalse hlines =>
    cases s with
    | nil => exact hbody
    | cons c s =>
      have hline : c ≠ '\n' := by
        rintro rfl
        simp at hlines
      have hreturn : c ≠ '\r' := by
        rintro rfl
        exact absurd (hplain _ List.mem_cons_self) (by decide)
      exact (congrArg _ (dropLineEnd_of_head _ hline hreturn)).trans hbody

/-- A string is read back from the form that is chosen for it. -/
theorem readString_writeString (s : List Char) (hquote : next ≠ '"') (hmark : next ≠ '\'') :
    readString (writeString s ++ next :: rest) = some (s, next :: rest) := by
  have hplain (h : s.any needsEscape = false) : ∀ c ∈ s, needsEscape c = false := by
    simpa using h
  simp only [writeString]
  split
  · exact readString_writeBasic s hquote
  · split
    case isTrue h =>
      simp only [Bool.and_eq_true, Bool.not_eq_true', decide_eq_true_eq] at h
      obtain ⟨⟨hcoded, hlines⟩, hrun⟩ := h
      refine readString_writeLiteral (fun c hc => ?_) (not_mem_of_longestRun hrun) hmark
      refine plainChar_of_not_needsEscape (hplain hcoded c hc) ?_
      rintro rfl
      simp [hc] at hlines
    case isFalse =>
      split
      · exact readString_writeLines s hquote
      · split
        case isTrue h =>
          simp only [Bool.and_eq_true, Bool.not_eq_true', decide_eq_true_eq] at h
          refine readString_writeLiteralLines (hplain h.1) (fun hinfix => ?_) hmark
          have hrun := le_longestRun hinfix
          omega
        case isFalse =>
          split
          · exact readString_writeLines s hquote
          · exact readString_writeBasic s hquote

theorem writeString_head (s : List Char) :
    ∃ tail, writeString s = '"' :: tail ∨ writeString s = '\'' :: tail := by
  have hquote (tail : List Char) : ∃ t, '"' :: tail = '"' :: t ∨ '"' :: tail = '\'' :: t :=
    ⟨tail, .inl rfl⟩
  have hmark (tail : List Char) : ∃ t, '\'' :: tail = '"' :: t ∨ '\'' :: tail = '\'' :: t :=
    ⟨tail, .inr rfl⟩
  simp only [writeString]
  split
  · exact hquote _
  · split
    · exact hmark _
    · split
      · exact hquote _
      · split
        · exact hmark _
        · split <;> exact hquote _

example :
    let s := ['a', '\n', '\'', '\'', '\'', '"', '"', '"', '\\', '\r', '\x00', '"', '"']
    readString (writeString s ++ ['\n']) = some (s, ['\n']) := by decide

end Handheld.Toml
