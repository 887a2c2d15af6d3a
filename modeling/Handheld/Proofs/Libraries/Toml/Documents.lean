import Mathlib.Data.List.TakeDrop
import Handheld.Proofs.Libraries.Toml.Values

/-!
A document of named tables is read back from its text: `parse?` undoes `writeTables`, for tables of
any storable values under keys that need no quotes. So the library is a lawful one.
-/

namespace Handheld.Toml

theorem Bare.all {key : String} (h : Bare key) : ∀ c ∈ key.toList, isBare c :=
  List.all_eq_true.mp h.2

theorem isBare_ne {c d : Char} (h : isBare c) (hd : isBare d = false) : c ≠ d := by
  rintro rfl
  rw [h] at hd
  cases hd

theorem Bare.head {key : String} (h : Bare key) :
    ∃ c cs, key.toList = c :: cs ∧ isBare c := by
  cases hlist : key.toList with
  | nil => exact absurd (String.toList_eq_nil_iff.mp hlist) h.1
  | cons c cs => exact ⟨c, cs, rfl, h.all c (hlist ▸ List.mem_cons_self)⟩

theorem readKey_append {key : String} (h : Bare key) {next : Char} (hnext : isBare next = false)
    (rest : List Char) :
    readKey (key.toList ++ next :: rest) = some (key, next :: rest) := by
  have hspan : (key.toList ++ next :: rest).span isBare = (key.toList, next :: rest) := by
    rw [List.span_eq_takeWhile_dropWhile, List.takeWhile_append_of_pos h.all,
      List.dropWhile_append_of_pos h.all]
    simp [hnext]
  obtain ⟨c, cs, hlist, hc⟩ := h.head
  have hquote : c ≠ '"' := isBare_ne hc (by decide)
  have hmark : c ≠ '\'' := isBare_ne hc (by decide)
  have hkey : String.ofList (c :: cs) = key := by rw [← hlist, String.ofList_toList]
  rw [hlist, List.cons_append] at hspan ⊢
  unfold readKey
  split
  case h_1 heq => exact absurd (List.cons.inj heq).1 hquote
  case h_2 heq => exact absurd (List.cons.inj heq).1 hmark
  case h_3 =>
    rw [hspan]
    exact congrArg some (Prod.ext hkey rfl)

theorem readKeys_append {key : String} (h : Bare key) {next : Char} (hnext : isBare next = false)
    (rest : List Char) (hdot : ∀ tail, skipBlanks (next :: rest) ≠ '.' :: tail) (n : Nat) :
    readKeys (n + 1) (key.toList ++ next :: rest) = some ([key], skipBlanks (next :: rest)) := by
  simp [readKeys, readKey_append h hnext rest]

theorem readDotted_append {key : String} (h : Bare key) {next : Char}
    (hnext : isBare next = false) (rest : List Char)
    (hdot : ∀ tail, skipBlanks (next :: rest) ≠ '.' :: tail) :
    readDotted (key.toList ++ next :: rest) = some ([key], skipBlanks (next :: rest)) :=
  readKeys_append h hnext rest hdot 79

theorem readPair_writeEntry {key : String} {v : Value} (hkey : Bare key)
    (hv : Storable nestingLimit v) (rest : List Char) :
    readPair (some ∘ skipBlanks) (readValue nestingLimit) (writeEntry (key, v) ++ rest) =
      some (([key], v), '\n' :: rest) := by
  have hvalue := readValue_write hv .line rest
  obtain ⟨c, cs, hwrite, hc⟩ := hv.head
  have htext : writeEntry (key, v) ++ rest =
      key.toList ++ ' ' :: '=' :: ' ' :: (v.write ++ '\n' :: rest) := by simp [writeEntry]
  have hdotted := readDotted_append hkey (show isBare ' ' = false by decide)
    ('=' :: ' ' :: (v.write ++ '\n' :: rest)) nofun
  have hsign (cs : List Char) : skipBlanks (' ' :: '=' :: cs) = '=' :: cs := rfl
  have hafter (cs : List Char) : skipBlanks ('=' :: cs) = '=' :: cs := rfl
  have hblank : skipBlanks (' ' :: (v.write ++ '\n' :: rest)) = v.write ++ '\n' :: rest := by
    rw [hwrite]
    simp [skipBlanks, isBlank, hc.1, hc.2.1]
  rw [htext, readPair, hdotted]
  simp [hsign, hafter, hblank, hvalue]

theorem skipBlanks_of_bare {c : Char} (h : isBare c) (cs : List Char) :
    skipBlanks (c :: cs) = c :: cs := by
  simp [skipBlanks, isBlank, isBare_ne h (show isBare ' ' = false by decide),
    isBare_ne h (show isBare '\t' = false by decide)]

theorem readLine_writeEntry {key : String} {v : Value} (hkey : Bare key)
    (hv : Storable nestingLimit v) (rest : List Char) :
    readLine (writeEntry (key, v) ++ rest) = some (.entry [key] v, '\n' :: rest) := by
  have hpair := readPair_writeEntry hkey hv rest
  obtain ⟨c, cs, hlist, hc⟩ := hkey.head
  obtain ⟨tail, htail⟩ : ∃ tail, writeEntry (key, v) ++ rest = c :: tail :=
    ⟨_, by rw [writeEntry, hlist]; rfl⟩
  have hne (d : Char) (hd : isBare d = false) : c ≠ d := isBare_ne hc hd
  rw [htail] at hpair ⊢
  rw [readLine, skipBlanks_of_bare hc]
  split
  case h_1 heq => exact absurd (List.cons.inj heq).1 (hne _ (by decide))
  case h_2 heq => exact absurd (List.cons.inj heq).1 (hne _ (by decide))
  case h_3 heq => cases heq
  case h_4 heq =>
    obtain ⟨rfl, rfl⟩ := List.cons.inj heq
    simp [hpair, hne '#' (by decide), hne '\n' (by decide), hne '\r' (by decide)]

theorem readLine_header {name : String} (h : Bare name) (rest : List Char) :
    readLine ('[' :: (name.toList ++ ']' :: '\n' :: rest)) =
      some (.header [name], '\n' :: rest) := by
  obtain ⟨c, cs, hlist, hc⟩ := h.head
  have hdotted := readDotted_append h (show isBare ']' = false by decide) ('\n' :: rest) nofun
  have hheader : readHeader [']'] (name.toList ++ ']' :: '\n' :: rest) =
      some ([name], '\n' :: rest) := by
    rw [readHeader]
    rw [hlist, List.cons_append] at hdotted ⊢
    rw [skipBlanks_of_bare hc, hdotted]
    rfl
  have hfirst : c ≠ '[' := isBare_ne hc (by decide)
  have hskip (cs : List Char) : skipBlanks ('[' :: cs) = '[' :: cs := rfl
  rw [readLine, hskip]
  rw [hlist, List.cons_append] at hheader ⊢
  simp [hfirst, hheader]

namespace Entries

theorem get?_eq_none_iff {t : Entries} {key : String} : t.get? key = none ↔ key ∉ t.keys := by
  rw [get?, List.lookup_eq_none_iff, keys, List.mem_map]
  constructor
  · rintro h ⟨e, he, rfl⟩
    exact absurd (h e he) (by simp)
  · intro h e he
    rw [bne_iff_ne]
    exact fun heq => h ⟨e, he, heq.symm⟩

theorem get?_cons (k key : String) (v : Value) (t : Entries) :
    get? ((k, v) :: t) key = if key = k then some v else t.get? key := by
  rw [get?, List.lookup_cons]
  by_cases h : key = k
  · rw [if_pos h, beq_iff_eq.mpr h]
  · rw [if_neg h, beq_false_of_ne h]
    rfl

theorem get?_append (t t' : Entries) (key : String) :
    get? (t ++ t') key = (t.get? key).or (t'.get? key) := List.lookup_append

theorem get?_append_self {t : Entries} {key : String} (h : key ∉ t.keys) (v : Value) :
    get? (t ++ [(key, v)]) key = some v := by
  rw [get?_append, get?_eq_none_iff.mpr h, Option.none_or, get?_cons, if_pos rfl]

theorem insert?_of_not_mem {t : Entries} {key : String} (h : key ∉ t.keys) (v : Value) :
    t.insert? key v = some (t ++ [(key, v)]) := by
  rw [insert?, get?_eq_none_iff.mpr h]

theorem replace_append_self {t : Entries} {key : String} (h : key ∉ t.keys) (old new : Value) :
    replace (t ++ [(key, old)]) key new = t ++ [(key, new)] := by
  have hkept : replace t key new = t := by
    refine (List.map_congr_left fun e he => ?_).trans t.map_id
    have hne : e.1 ≠ key := fun heq => h (heq ▸ List.mem_map_of_mem he)
    simp [hne]
  rw [replace, List.map_append, ← replace, hkept]
  simp

end Entries

def underHeader (g : String × Entries) : String × Value := (g.1, .table .header g.2)

namespace Draft

def opened (before : Entries) (name : String) (t : Entries) : Draft where
  root := before ++ [(name, .table .header t)]
  current := [name]

theorem add_header {d : Draft} {name : String} (h : name ∉ d.root.keys) :
    d.add (.header [name]) = some (opened d.root name []) := by
  have hopen : openTable [name] .header d.root = some (d.root ++ [(name, .table .header [])]) := by
    simp [openTable, splitLast, editAt, Entries.get?_eq_none_iff.mpr h,
      Entries.insert?_of_not_mem h]
  rw [add, hopen]
  rfl

theorem add_entry {before t : Entries} {name key : String} (hname : name ∉ before.keys)
    (hkey : key ∉ t.keys) (v : Value) :
    (opened before name t).add (.entry [key] v) = some (opened before name (t ++ [(key, v)])) := by
  have hget := Entries.get?_append_self hname (.table .header t)
  have hassign : assign [key] v .header t = some (t ++ [(key, v)]) := by
    simp [assign, splitLast, editAt, Entries.insert?_of_not_mem hkey]
  have hreplace := Entries.replace_append_self hname (.table .header t)
    (.table .header (t ++ [(key, v)]))
  simp [add, opened, editAt, hget, hassign, hreplace, TableKind.passable]

/-- A text is read to a root table when the draft is continued with it. -/
def Reads (d : Draft) (cs : List Char) (root : Entries) : Prop :=
  ∀ count, cs.length < count → (addLines count d cs).map (·.root) = some root

theorem reads_nil (d : Draft) : d.Reads [] d.root := by
  rintro (_ | count) hcount
  · cases hcount
  · rfl

theorem Reads.line {d d' : Draft} {cs after rest : List Char} {line : Line} {root : Entries}
    (hrest : d'.Reads rest root) (hread : readLine cs = some (line, after))
    (hadd : d.add line = some d') (hend : endLine after = some rest)
    (hless : rest.length < cs.length) : d.Reads cs root := by
  rintro (_ | count) hcount
  · cases hcount
  · have hstep := hrest count (by omega)
    cases cs with
    | nil => cases hless
    | cons c cs => simpa [addLines, hread, hadd, hend] using hstep

theorem Reads.blank {d : Draft} {rest : List Char} {root : Entries} (h : d.Reads rest root) :
    d.Reads ('\n' :: rest) root :=
  h.line (rfl : readLine _ = some (.blank, _)) rfl rfl (Nat.lt_succ_self _)

theorem reads_entries {before done t root : Entries} {name : String} {rest : List Char}
    (hname : name ∉ before.keys) (ht : Entries.Writable (done ++ t))
    (hrest : (opened before name (done ++ t)).Reads rest root) :
    (opened before name done).Reads (t.flatMap writeEntry ++ rest) root := by
  induction t generalizing done with
  | nil => simpa using hrest
  | cons e t ih =>
    obtain ⟨key, v⟩ := e
    have hmem : (key, v) ∈ done ++ (key, v) :: t := by simp
    have hkey : key ∉ done.keys := by
      have hdistinct := ht.distinct
      rw [Entries.keys, List.map_append, List.nodup_append] at hdistinct
      exact fun hdone => hdistinct.2.2 key hdone key (by simp) rfl
    have hnext : (opened before name (done ++ [(key, v)])).Reads (t.flatMap writeEntry ++ rest)
        root := ih (by simpa using ht) (by simpa using hrest)
    have hless : (t.flatMap writeEntry ++ rest).length <
        (writeEntry (key, v) ++ (t.flatMap writeEntry ++ rest)).length := by
      simp only [writeEntry, List.length_append, List.length_cons]
      omega
    rw [List.flatMap_cons, List.append_assoc]
    exact hnext.line (readLine_writeEntry (ht.bare key (List.mem_map_of_mem hmem))
      (storable_of_eq_true (ht.storable _ hmem)) _) (add_entry hname hkey v) rfl hless

theorem reads_table {d : Draft} {t root : Entries} {name : String} {rest : List Char}
    (hname : name ∉ d.root.keys) (hbare : Bare name) (ht : t.Writable)
    (hrest : (opened d.root name t).Reads rest root) :
    d.Reads (writeTable name t ++ rest) root := by
  have hentries : (opened d.root name []).Reads (t.flatMap writeEntry ++ rest) root :=
    reads_entries hname ht hrest
  have htext : writeTable name t ++ rest =
      '[' :: (name.toList ++ ']' :: '\n' :: (t.flatMap writeEntry ++ rest)) := by simp [writeTable]
  rw [htext]
  refine hentries.line (readLine_header hbare _) (add_header hname) rfl ?_
  simp only [List.length_cons, List.length_append]
  omega

theorem reads_tables {d : Draft} {groups : List (String × Entries)}
    (hdistinct : (d.root.keys ++ groups.map Prod.fst).Nodup)
    (hbare : ∀ g ∈ groups, Bare g.1) (ht : ∀ g ∈ groups, g.2.Writable) :
    d.Reads (writeTables groups) (d.root ++ groups.map underHeader) := by
  induction groups generalizing d with
  | nil => simpa [writeTables] using reads_nil d
  | cons g groups ih =>
    obtain ⟨name, t⟩ := g
    have hname : name ∉ d.root.keys := fun hmem =>
      (List.nodup_append.mp hdistinct).2.2 name hmem name (by simp) rfl
    have hrest := ih (d := opened d.root name t) (by simpa [opened, Entries.keys] using hdistinct)
      (fun g hg => hbare g (List.mem_cons_of_mem _ hg))
      fun g hg => ht g (List.mem_cons_of_mem _ hg)
    have htable (rest : List Char)
        (h : (opened d.root name t).Reads rest
          ((opened d.root name t).root ++ groups.map underHeader)) :
        d.Reads (writeTable name t ++ rest) (d.root ++ ((name, t) :: groups).map underHeader) := by
      refine reads_table hname (hbare _ List.mem_cons_self) (ht _ List.mem_cons_self) ?_
      simpa [opened, underHeader] using h
    cases groups with
    | nil => simpa [writeTables] using htable [] (by simpa [writeTables] using hrest)
    | cons => exact htable _ hrest.blank

end Draft

/-- A document of tables is read back: each under its name, opened by its header. -/
theorem parse?_writeTables {groups : List (String × Entries)}
    (hdistinct : (groups.map Prod.fst).Nodup) (hbare : ∀ g ∈ groups, Bare g.1)
    (ht : ∀ g ∈ groups, g.2.Writable) :
    parse? (String.ofList (writeTables groups)) = some (groups.map underHeader) := by
  have hmark : dropMark (writeTables groups) = writeTables groups := by
    match groups with
    | [] => rfl
    | [_] => rfl
    | _ :: _ :: _ => rfl
  have hreads := Draft.reads_tables (d := {}) (by simpa [Entries.keys] using hdistinct) hbare ht
  simp only [parse?, String.toList_ofList, hmark]
  exact hreads _ (Nat.lt_succ_self _)

theorem underHeader_openedTable? {e : String × Value} {g : String × Entries}
    (h : openedTable? e = some g) : underHeader g = e := by
  unfold openedTable? at h
  split at h
  · cases h
    rfl
  · cases h

theorem map_underHeader_of_mapM {root : Entries} {groups : List (String × Entries)}
    (h : root.mapM openedTable? = some groups) : groups.map underHeader = root := by
  induction root generalizing groups with
  | nil =>
    cases h
    rfl
  | cons e root ih =>
    rw [List.mapM_cons] at h
    obtain ⟨g, hg, h⟩ := Option.bind_eq_some_iff.mp h
    obtain ⟨rest, hrest, h⟩ := Option.bind_eq_some_iff.mp h
    cases h
    rw [List.map_cons, ih hrest, underHeader_openedTable? hg]

theorem parse?_of_print {document : Value} {text : String} (h : print document = .ok text) :
    library.parse? text = some document := by
  unfold print at h
  split at h
  case h_2 => cases h
  case h_1 groups hgroups =>
    cases h
    unfold groups? at hgroups
    split at hgroups
    case h_2 => cases hgroups
    case h_1 root =>
      obtain ⟨found, hfound, hchecked⟩ := Option.bind_eq_some_iff.mp hgroups
      split at hchecked
      case isFalse => cases hchecked
      case isTrue hwritable =>
        cases hchecked
        obtain ⟨hdistinct, hall⟩ := hwritable
        have hparse := parse?_writeTables hdistinct (fun g hg => (hall g hg).1)
          fun g hg => (hall g hg).2
        exact (congrArg (Option.map _) hparse).trans
          (congrArg (fun root => some (Value.table .header root)) (map_underHeader_of_mapM hfound))

theorem library_lawful : library.Lawful where
  parse?_of_print := parse?_of_print
  boolean?_eq_some_iff {v b} := by cases v <;> simp [library]
  number?_eq_some_iff {limit n v} := by
    cases v with
    | integer i =>
      simp only [library, Option.ite_none_right_eq_some, Option.some.injEq, Value.integer.injEq]
      omega
    | _ => simp [library]
  text?_eq_some_iff {v s} := by cases v <;> simp [library]
  name?_ofText h := by simp [library, writtenName?, h]
  items?_ofItems items := by simp [library, takeItems?, items?]
  fields?_ofFields {names t} h := by
    have hothers : othersHeld names t :=
      List.all_eq_true.mpr fun e he => by simp [h e he]
    simp [library, group?, hothers]

end Handheld.Toml
