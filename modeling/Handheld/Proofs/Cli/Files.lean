import Mathlib.Data.String.Basic
import Mathlib.Tactic.SplitIfs
import Handheld.Cli.MemoryHost

/-!
Files kept in memory: what is written at a path is read there again, unless the path leads to the
file that keeps nothing.
-/

namespace Handheld

theorem splitOnAux_slash (s : String) (b i : String.Pos.Raw) (r : List String) :
    String.splitOnAux s "/" b i 0 r = String.splitAux s (· == '/') b i r := by
  induction b, i, r using String.splitAux.induct s (· == '/') with
  | case1 b i r hend =>
    rw [String.splitOnAux, String.splitAux, if_pos hend, dif_pos hend]
  | case2 b i r hend _ hslash i' ih =>
    have hc : i.get s = '/' := beq_iff_eq.mp hslash
    have hback : (i.next s).unoffsetBy (String.Pos.Raw.next "/" 0) = i := by
      rw [String.Pos.Raw.next, hc]
      ext
      exact Nat.add_sub_cancel i.byteIdx 1
    have hdone : (String.Pos.Raw.next "/" 0).atEnd "/" := by decide
    rw [String.splitOnAux, String.splitAux, if_neg hend, dif_neg hend]
    simp only [hc, hback, hdone, if_true]
    exact ih
  | case3 b i r hend _ hc ih =>
    have hne : ¬(i.get s == String.Pos.Raw.get "/" 0) := hc
    have hback : i.unoffsetBy 0 = i := rfl
    rw [String.splitOnAux, String.splitAux, if_neg hend, dif_neg hend, if_neg hne, hback]
    simp only [if_neg hc]
    exact ih

theorem splitOn_slash (s : String) :
    s.splitOn "/" = (s.toList.splitOnP (· == '/')).map String.ofList := by
  rw [← String.splitToList_of_valid, String.splitToList, ← splitOnAux_slash]
  rfl

/-- A place takes a file, which then has these names from the root on. -/
inductive Place.Takes : Place → List String → Prop
  | file (names : List String) (f : StoredFile) : Place.Takes (.file names f) names
  | free (names : List String) : Place.Takes (.free names) names

namespace MemoryHost

def leftOf (names : List String) (f : StoredFile) : StoredFile :=
  if names = sink then .bytes ByteArray.empty else f

theorem file?_store (h : MemoryHost) (names : List String) (f : StoredFile) :
    (h.store names f).file? names = some (leftOf names f) := by
  rw [file?, store, List.lookup_cons_self, leftOf]
  split <;> rfl

theorem isDirectory_store (h : MemoryHost) (names here : List String) (f : StoredFile) :
    (h.store names f).isDirectory here = h.isDirectory here := rfl

theorem follow_store {h : MemoryHost} {here parts names : List String} (f : StoredFile)
    (htakes : (h.follow here parts).Takes names) :
    (h.store names f).follow here parts = .file names (leftOf names f) := by
  induction parts generalizing here with
  | nil => cases htakes
  | cons part rest ih =>
    rw [follow.eq_def] at htakes ⊢
    dsimp only at htakes ⊢
    rw [isDirectory_store]
    split_ifs at htakes ⊢ with hstays hup hlong hdirectory
    · exact ih htakes
    · exact ih htakes
    · cases htakes
    · exact ih htakes
    · cases rest with
      | nil =>
        have hnames : here ++ [part] = names := by
          cases hfile : h.file? (here ++ [part]) with
          | none =>
            rw [hfile] at htakes
            cases htakes
            rfl
          | some old =>
            rw [hfile] at htakes
            cases htakes
            rfl
        subst hnames
        rw [file?_store]
      | cons next rest =>
        -- A file on the way, or nothing, takes no file further down.
        cases hfile : h.file? (here ++ [part]) <;> rw [hfile] at htakes <;> cases htakes

theorem place_store {h : MemoryHost} {path : String} {names : List String} (f : StoredFile)
    (htakes : (h.place path).Takes names) :
    (h.store names f).place path = .file names (leftOf names f) := by
  unfold place at htakes ⊢
  split_ifs at htakes ⊢ with hempty hlong
  · cases htakes
  · cases htakes
  · exact follow_store f htakes

/-- A file is only written where its path leads to a place for it. -/
theorem place_of_write {h h' : MemoryHost} {path : String} {f : StoredFile}
    (hwrite : h.write path f = (none, h')) :
    ∃ names, h'.place path = .file names (leftOf names f) := by
  obtain ⟨names, htakes, rfl⟩ : ∃ names, (h.place path).Takes names ∧ h' = h.store names f := by
    unfold write at hwrite
    split at hwrite
    case h_1 names old hplace =>
      cases hwrite
      exact ⟨names, hplace ▸ .file names old, rfl⟩
    case h_2 names hplace =>
      cases hwrite
      exact ⟨names, hplace ▸ .free names, rfl⟩
    case h_3 => cases hwrite
  exact ⟨names, place_store f htakes⟩

def Keeps (h : MemoryHost) (path : String) : Prop := ∀ f, h.place path ≠ .file sink f

theorem read_of_write {h h' : MemoryHost} {path : String} {bytes : ByteArray}
    (hwrite : h.write path (.bytes bytes) = (none, h')) (hkeeps : h'.Keeps path) :
    h'.read path = .contents bytes := by
  obtain ⟨names, hplace⟩ := place_of_write hwrite
  have hnames : names ≠ sink := by
    rintro rfl
    exact hkeeps _ hplace
  rw [read, hplace, leftOf, if_neg hnames]

end MemoryHost
end Handheld
