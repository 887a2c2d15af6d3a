import Handheld.Cli.Run
import Handheld.Proofs.Cli.Files
import Handheld.Proofs.Configuration.Omissions
import Handheld.Proofs.Configuration.Typing
import Handheld.Proofs.Libraries.Toml.Documents

/-!
Settings in a file: saved at a path and loaded from it again, loaded from a file that leaves some of
them out, and not loaded at all from a file that is no document or that has a known field with a
value of another kind. All of it holds over any lawful library for documents.
-/

namespace Handheld.Configuration

variable {V : Type} (library : DocumentLibrary V)

def loadedFrom (h : MemoryHost) (path : String) : ProgramSettings :=
  library.readSettingsFile (Cli.textOf (h.read path))

/-- Settings are saved at a path without a complaint, which changes the system. -/
def Saves (path : String) (s : ProgramSettings) (h h' : MemoryHost) : Prop :=
  (Cli.storeSettings (m := StateM MemoryHost) library path s).run h = (.ok (), h')

theorem run_bind {α β : Type} (x : Cli.Action (StateM MemoryHost) α)
    (f : α → Cli.Action (StateM MemoryHost) β) (h : MemoryHost) :
    (x >>= f).run h =
      match x.run h with
      | (.ok a, h₁) => (f a).run h₁
      | (.error c, h₁) => (.error c, h₁) := by
  have hbind : (x >>= f).run h =
      (match x.run h with | (r, h₁) => (ExceptT.bindCont f r : StateM MemoryHost _) h₁) := rfl
  rw [hbind]
  rcases x.run h with ⟨_ | _, h₁⟩ <;> rfl

theorem run_checked (reason : StateM MemoryHost (Option String)) (h : MemoryHost) :
    (Cli.checked reason).run h =
      match reason h with
      | (some words, h₁) => (.error (.system words), h₁)
      | (none, h₁) => (.ok (), h₁) := by
  have hlift : (liftM reason : Cli.Action (StateM MemoryHost) _).run h =
      (.ok (reason h).1, (reason h).2) := rfl
  rw [Cli.checked, run_bind, hlift]
  rcases reason h with ⟨_ | words, h₁⟩ <;> rfl

variable {library}

theorem saves_iff {path : String} {s : ProgramSettings} {h h' : MemoryHost} :
    Saves library path s h h' ↔ ∃ h₁ text, h.makeWay path = (none, h₁) ∧
      library.writeSettings s = .ok text ∧ h₁.write path (.bytes text.toUTF8) = (none, h') := by
  have hway : (Host.makeWay path : StateM MemoryHost _) h = h.makeWay path := rfl
  have hwrite (h₁ : MemoryHost) (text : String) :
      (Host.writeFile path text.toUTF8 : StateM MemoryHost _) h₁ =
        h₁.write path (.bytes text.toUTF8) := rfl
  rw [Saves, Cli.storeSettings, run_bind, run_checked, hway]
  constructor
  · intro hrun
    rcases hmade : h.makeWay path with ⟨_ | words, h₁⟩
    · cases hprint : library.writeSettings s with
      | error words =>
        simp only [hmade, hprint] at hrun
        cases hrun
      | ok text =>
        refine ⟨h₁, text, rfl, rfl, ?_⟩
        simp only [hmade, hprint, run_checked, hwrite] at hrun
        rcases hwritten : h₁.write path (.bytes text.toUTF8) with ⟨_ | words, h₂⟩
        · rw [hwritten] at hrun
          cases hrun
          rfl
        · rw [hwritten] at hrun
          cases hrun
    · rw [hmade] at hrun
      cases hrun
  · rintro ⟨h₁, text, hmade, hprint, hwritten⟩
    simp only [hmade, hprint, run_checked, hwrite, hwritten]

theorem textOf_toUTF8 (text : String) : Cli.textOf (.contents text.toUTF8) = some text := by
  have hvalid : text.toUTF8.IsValidUTF8 := text.isValidUTF8
  rw [Cli.textOf, FileRead.bytes?, Option.bind_some, String.fromUTF8?, dif_pos hvalid]
  rfl

theorem loadedFrom_of_text {h : MemoryHost} {path text : String}
    (hread : h.read path = .contents text.toUTF8) :
    loadedFrom library h path = library.readSettings text := by
  rw [loadedFrom, hread, textOf_toUTF8]
  rfl

theorem Saves.read {path : String} {s : ProgramSettings} {h h' : MemoryHost}
    (hsave : Saves library path s h h') (hkeeps : h'.Keeps path) :
    ∃ text, library.writeSettings s = .ok text ∧ h'.read path = .contents text.toUTF8 := by
  obtain ⟨h₁, text, -, hprint, hwrite⟩ := saves_iff.mp hsave
  exact ⟨text, hprint, MemoryHost.read_of_write hwrite hkeeps⟩

/-- What was saved is loaded again. A file without a text is loaded as all defaults. A file that
leaves out tables or keys of what was saved is loaded with their defaults. A file that is no
document, or in which a known table or key has a value of another kind, is loaded as all defaults,
never in part; any other file is loaded field by field. -/
theorem settings_loaded_from_file (hlawful : library.Lawful) :
    (∀ path s h h', s.InRange → Saves library path s h h' → h'.Keeps path →
        loadedFrom library h' path = s) ∧
      ∀ path h, (Cli.textOf (h.read path) = none → loadedFrom library h path = {}) ∧
        ∀ text, h.read path = .contents text.toUTF8 →
          (∀ kept s, s.InRange → library.print (library.keptSettings kept s) = .ok text →
            loadedFrom library h path = s.only kept) ∧
          (library.parse? text = none → loadedFrom library h path = {}) ∧
          ∀ document, library.parse? text = some document →
            (¬library.WellTyped document → loadedFrom library h path = {}) ∧
            (library.WellTyped document →
              library.IsSettings document (loadedFrom library h path)) := by
  refine ⟨fun path s h h' hs hsave hkeeps => ?_,
    fun path h => ⟨fun hnone => ?_, fun text hread => ?_⟩⟩
  · obtain ⟨text, hwrite, hread⟩ := hsave.read hkeeps
    rw [loadedFrom_of_text hread, hlawful.readSettings_of_write hs hwrite]
  · rw [loadedFrom, hnone]
    rfl
  · rw [loadedFrom_of_text hread]
    exact ⟨fun kept s hs hprint => hlawful.readSettings_of_kept kept hs hprint,
      DocumentLibrary.readSettings_of_refused, fun document hparse =>
        ⟨hlawful.readSettings_of_mistyped hparse, hlawful.readSettings_of_wellTyped hparse⟩⟩

def sampleSettings : ProgramSettings where
  machine := { model := .forceMonochrome, shades := some {}, sampleRate := 48000 }
  run := { frames := 30, screenshot := some "the \"last\"\nframe.png" }

def emptyHost : MemoryHost where
  failure := "refused"

def samplePath : String := "settings.toml"

def holding (text : String) : MemoryHost :=
  emptyHost.store ["home", samplePath] (.bytes text.toUTF8)

theorem splitOn_samplePath : samplePath.splitOn "/" = [samplePath] := by
  rw [splitOn_slash]
  decide

theorem place_emptyHost : emptyHost.place samplePath = .free ["home", samplePath] := by
  have horigin : MemoryHost.origin samplePath = MemoryHost.home := by decide +kernel
  rw [MemoryHost.place, splitOn_samplePath, horigin, if_neg (by decide), if_neg (by decide)]
  rfl

theorem place_holding (text : String) :
    (holding text).place samplePath = .file ["home", samplePath] (.bytes text.toUTF8) :=
  MemoryHost.place_store _ (place_emptyHost ▸ .free _)

theorem read_holding (text : String) : (holding text).read samplePath = .contents text.toUTF8 := by
  rw [MemoryHost.read, place_holding]

def written (document : Toml.Value) : String := (Toml.print document).toOption.getD ""

def savedText : String := written (Toml.library.ofSettings sampleSettings)

theorem saves_sampleSettings :
    Saves Toml.library samplePath sampleSettings emptyHost (holding savedText) := by
  have hparent : parentOf samplePath = "" := by
    rw [parentOf, splitOn_samplePath]
    decide +kernel
  refine saves_iff.mpr ⟨emptyHost, savedText, ?_, by decide +kernel, ?_⟩
  · rw [MemoryHost.makeWay, hparent, splitOn_slash, if_neg (by decide)]
    rfl
  · rw [MemoryHost.write, place_emptyHost]
    rfl

def rateOnly : Kept := ⟨(· == "emulator"), fun _ key => key == "sample_rate"⟩

def rateText : String := written (Toml.library.keptSettings rateOnly sampleSettings)

def partialText : String := "[emulator]\nmodel = \"force-cgb\"\n\n[run]\nframes = 30\n"

def mistypedText : String := "[emulator]\nsample_rate = 48000\n\n[run]\nframes = true\n"

def brokenText : String := "[emulator]\nsample_rate = 48000\n\n[run\n"

theorem sampleSettings_loaded :
    Toml.library.Lawful ∧
      (sampleSettings.InRange ∧
        Saves Toml.library samplePath sampleSettings emptyHost (holding savedText) ∧
        (holding savedText).Keeps samplePath ∧
        loadedFrom Toml.library (holding savedText) samplePath = sampleSettings) ∧
      (Toml.library.print (Toml.library.keptSettings rateOnly sampleSettings) = .ok rateText ∧
        loadedFrom Toml.library (holding rateText) samplePath =
          { machine := { sampleRate := 48000 } }) ∧
      (Toml.library.parse? brokenText = none ∧
        loadedFrom Toml.library (holding brokenText) samplePath = {}) ∧
      (∃ v, Toml.library.parse? mistypedText = some v ∧ ¬Toml.library.WellTyped v ∧
        loadedFrom Toml.library (holding mistypedText) samplePath = {}) ∧
      ∃ v, Toml.library.parse? partialText = some v ∧ Toml.library.WellTyped v ∧
        Toml.library.IsSettings v (loadedFrom Toml.library (holding partialText) samplePath) := by
  have hlawful := Toml.library_lawful
  obtain ⟨hsaved, hloaded⟩ := settings_loaded_from_file hlawful
  have hs : sampleSettings.InRange := ⟨by decide, by decide, by decide⟩
  have hkeeps : (holding savedText).Keeps samplePath := by
    intro f hf
    rw [place_holding] at hf
    injection hf with hnames
    exact absurd hnames (by decide)
  have hrate : Toml.library.print (Toml.library.keptSettings rateOnly sampleSettings) =
      .ok rateText := by decide +kernel
  obtain ⟨hkept, -, -⟩ := (hloaded samplePath _).2 _ (read_holding rateText)
  obtain ⟨-, hbroken, -⟩ := (hloaded samplePath _).2 _ (read_holding brokenText)
  obtain ⟨-, -, hmistyped⟩ := (hloaded samplePath _).2 _ (read_holding mistypedText)
  obtain ⟨-, -, hpartial⟩ := (hloaded samplePath _).2 _ (read_holding partialText)
  have hnone : Toml.library.parse? brokenText = none :=
    Option.isNone_iff_eq_none.mp (by decide +kernel)
  obtain ⟨v, hv⟩ : ∃ v, Toml.library.parse? mistypedText = some v :=
    Option.isSome_iff_exists.mp (by decide +kernel)
  obtain ⟨v', hv'⟩ : ∃ v, Toml.library.parse? partialText = some v :=
    Option.isSome_iff_exists.mp (by decide +kernel)
  have hnot : ¬Toml.library.WellTyped v := by
    have hrefused :
        ¬((Toml.library.parse? mistypedText).bind Toml.library.settings?).isSome := by
      decide +kernel
    rwa [hv, Option.bind_some, hlawful.isSome_settings?] at hrefused
  have htyped : Toml.library.WellTyped v' := by
    have htaken : ((Toml.library.parse? partialText).bind Toml.library.settings?).isSome := by
      decide +kernel
    rwa [hv', Option.bind_some, hlawful.isSome_settings?] at htaken
  exact ⟨hlawful,
    ⟨hs, saves_sampleSettings, hkeeps, hsaved _ _ _ _ hs saves_sampleSettings hkeeps⟩,
    ⟨hrate, hkept rateOnly sampleSettings hs hrate⟩, ⟨hnone, hbroken hnone⟩,
    ⟨v, hv, hnot, (hmistyped v hv).1 hnot⟩, v', hv', htyped, (hpartial v' hv').2 htyped⟩

def sinkPath : String := "/dev/null"

theorem splitOn_sinkPath : sinkPath.splitOn "/" = ["", "dev", "null"] := by
  rw [splitOn_slash]
  decide

theorem origin_sinkPath : MemoryHost.origin sinkPath = [] := by decide +kernel

theorem place_sinkPath :
    emptyHost.place sinkPath = .file MemoryHost.sink (.bytes ByteArray.empty) := by
  rw [MemoryHost.place, splitOn_sinkPath, origin_sinkPath, if_neg (by decide), if_neg (by decide)]
  rfl

theorem saves_sinkPath :
    Saves Toml.library sinkPath sampleSettings emptyHost
      (emptyHost.store MemoryHost.sink (.bytes savedText.toUTF8)) := by
  have hparent : parentOf sinkPath = "/dev" := by
    rw [parentOf, splitOn_sinkPath]
    decide +kernel
  have hdirectory : "/dev".splitOn "/" = ["", "dev"] := by
    rw [splitOn_slash]
    decide
  refine saves_iff.mpr ⟨emptyHost, savedText, ?_, by decide +kernel, ?_⟩
  · rw [MemoryHost.makeWay, hparent, hdirectory, origin_sinkPath, if_neg (by decide)]
    rfl
  · rw [MemoryHost.write, place_sinkPath]

theorem loadedFrom_sinkPath (f : StoredFile) :
    loadedFrom Toml.library (emptyHost.store MemoryHost.sink f) sinkPath = {} := by
  have hread : (emptyHost.store MemoryHost.sink f).read sinkPath = .contents "".toUTF8 := by
    rw [MemoryHost.read, MemoryHost.place_store f (place_sinkPath ▸ .file _ _)]
    rfl
  rw [loadedFrom_of_text hread]
  decide +kernel

/-- Nothing is kept of what is saved where nothing is kept. And a file is loaded in spite of a date
or an array in place of a known table, a table in place of a model, a fifth shade, or something that
is no value behind the items that count. -/
theorem otherSettings_loaded :
    Toml.library.Lawful ∧
      (∃ h, Saves Toml.library sinkPath sampleSettings emptyHost h ∧
        loadedFrom Toml.library h sinkPath = {} ∧ sampleSettings ≠ {}) ∧
      Toml.library.readSettings
          "run = 1979-05-27T07:32:00Z\nemulator = \x7bsample_rate = 9\x7d\n" =
        { machine := { sampleRate := 9 } } ∧
      Toml.library.readSettings "run = [1]\n" = { run := { frames := 1 } } ∧
      Toml.library.readSettings
          "[emulator]\nmodel = \x7b\"force-cgb\" = []\x7d\n[run]\nframes=5\n" =
        { machine := { model := .forceColor }, run := { frames := 5 } } ∧
      Toml.library.readSettings
          ("[emulator]\nshades = [[1,2,3],[1,2,3],[1,2,3],[1,2,3],[1,2,3]]\n" ++
            "[run]\nframes=5\n") =
        { machine := { shades := some ⟨⟨1, 2, 3⟩, ⟨1, 2, 3⟩, ⟨1, 2, 3⟩, ⟨1, 2, 3⟩⟩ }
          run := { frames := 5 } } ∧
      Toml.library.readSettings "run = [1, 2, \"a\", true, true, 0x]\n" =
        { run := ⟨1, 2, some "a", true, true⟩ } := by
  refine ⟨Toml.library_lawful, ⟨_, saves_sinkPath, loadedFrom_sinkPath _, by decide⟩, ?_⟩
  decide +kernel

end Handheld.Configuration
