import Handheld.Proofs.Configuration.Decoding

/-!
When a document gives settings at all: what is found for each known field of it must be a value of
its kind. Anything else refuses the whole document, whatever the rest of it says.
-/

namespace Handheld
namespace Configuration

inductive Kind where
  | boolean
  | number (limit : Nat)
  | text
  | shades
  | model

abbrev Schema := List (String × Kind)

namespace Schema

def names (schema : Schema) : List String := schema.map Prod.fst

def machine : Schema :=
  [("model", .model), ("frame_limit", .boolean), ("break_on_fault", .boolean),
    ("shades", .shades), ("sample_rate", .number (2 ^ 32))]

def run : Schema :=
  [("frames", .number (2 ^ 64)), ("timeout_secs", .number (2 ^ 64)), ("screenshot", .text),
    ("serial", .boolean), ("audio_report", .boolean)]

def groups : List (String × Schema) := [("emulator", machine), ("run", run)]

end Schema

variable {V α : Type}

theorem Gives.takes {t : List (String × V)} {name : String} {Means : V → α → Prop} {default x : α}
    {v : V} (h : Gives t name Means default x) (hlookup : t.lookup name = some v) :
    ∃ x, Means v x := by
  cases h with
  | given hgiven hmeans =>
    rw [hlookup] at hgiven
    cases hgiven
    exact ⟨x, hmeans⟩
  | omitted homitted =>
    rw [lookup_eq_none_iff.mpr homitted] at hlookup
    cases hlookup

theorem exists_gives {t : List (String × V)} {name : String} {Means : V → α → Prop} {default : α}
    (h : ∀ v, t.lookup name = some v → ∃ x, Means v x) : ∃ x, Gives t name Means default x := by
  cases hlookup : t.lookup name with
  | none => exact ⟨default, .omitted (lookup_eq_none_iff.mp hlookup)⟩
  | some v =>
    obtain ⟨x, hmeans⟩ := h v hlookup
    exact ⟨x, .given hlookup hmeans⟩

theorem exists_isOptional_iff {Means : V → α → Prop} {v : V} :
    (∃ x, IsOptional Means v x) ↔ ∃ x, Means v x := by
  constructor
  · rintro ⟨_ | x, h⟩
    · cases h
    · exact ⟨x, h⟩
  · rintro ⟨x, h⟩
    exact ⟨some x, h⟩

end Configuration

namespace DocumentLibrary
open Handheld.Configuration

variable {V : Type} (library : DocumentLibrary V)

def Takes : Kind → V → Prop
  | .boolean, v => ∃ b, library.IsBoolean v b
  | .number limit, v => ∃ n, library.IsNumber limit v n
  | .text, v => ∃ s, library.IsText v s
  | .shades, v => ∃ s, library.IsShades v s
  | .model, v => ∃ p, library.IsModel v p

def Fits (schema : Schema) (t : List (String × V)) : Prop :=
  ∀ name kind v, (name, kind) ∈ schema → t.lookup name = some v → library.Takes kind v

/-- A document has fields, every known one of which has fields in turn, and every known one of these
a value of its kind. -/
def WellTyped (document : V) : Prop :=
  ∃ t, library.fields? groupNames document = some t ∧
    ∀ name schema v, (name, schema) ∈ Schema.groups → t.lookup name = some v →
      ∃ g, library.fields? schema.names v = some g ∧ library.Fits schema g

variable {library}

theorem exists_machineGiven_iff {t : List (String × V)} :
    (∃ s, library.MachineGiven t s) ↔ library.Fits Schema.machine t := by
  constructor
  · rintro ⟨s, h⟩ name kind v hmem hlookup
    simp only [Schema.machine, List.mem_cons, Prod.mk.injEq, List.not_mem_nil, or_false] at hmem
    rcases hmem with ⟨rfl, rfl⟩ | ⟨rfl, rfl⟩ | ⟨rfl, rfl⟩ | ⟨rfl, rfl⟩ | ⟨rfl, rfl⟩
    · exact h.model.takes hlookup
    · exact h.frameLimit.takes hlookup
    · exact h.breakOnFault.takes hlookup
    · exact exists_isOptional_iff.mp (h.shades.takes hlookup)
    · exact h.sampleRate.takes hlookup
  · intro hfits
    obtain ⟨model, hmodel⟩ := exists_gives (hfits "model" .model · (by simp [Schema.machine]))
    obtain ⟨limit, hlimit⟩ :=
      exists_gives (hfits "frame_limit" .boolean · (by simp [Schema.machine]))
    obtain ⟨fault, hfault⟩ :=
      exists_gives (hfits "break_on_fault" .boolean · (by simp [Schema.machine]))
    obtain ⟨shades, hshades⟩ := exists_gives fun v hlookup =>
      exists_isOptional_iff.mpr (hfits "shades" .shades v (by simp [Schema.machine]) hlookup)
    obtain ⟨rate, hrate⟩ :=
      exists_gives (hfits "sample_rate" (.number (2 ^ 32)) · (by simp [Schema.machine]))
    exact ⟨⟨model, limit, fault, shades, rate⟩, hmodel, hlimit, hfault, hshades, hrate⟩

theorem exists_runGiven_iff {t : List (String × V)} :
    (∃ s, library.RunGiven t s) ↔ library.Fits Schema.run t := by
  constructor
  · rintro ⟨s, h⟩ name kind v hmem hlookup
    simp only [Schema.run, List.mem_cons, Prod.mk.injEq, List.not_mem_nil, or_false] at hmem
    rcases hmem with ⟨rfl, rfl⟩ | ⟨rfl, rfl⟩ | ⟨rfl, rfl⟩ | ⟨rfl, rfl⟩ | ⟨rfl, rfl⟩
    · exact h.frames.takes hlookup
    · exact h.timeoutSeconds.takes hlookup
    · exact exists_isOptional_iff.mp (h.screenshot.takes hlookup)
    · exact h.serial.takes hlookup
    · exact h.audioReport.takes hlookup
  · intro hfits
    obtain ⟨frames, hframes⟩ :=
      exists_gives (hfits "frames" (.number (2 ^ 64)) · (by simp [Schema.run]))
    obtain ⟨seconds, hseconds⟩ :=
      exists_gives (hfits "timeout_secs" (.number (2 ^ 64)) · (by simp [Schema.run]))
    obtain ⟨screenshot, hscreenshot⟩ := exists_gives fun v hlookup =>
      exists_isOptional_iff.mpr (hfits "screenshot" .text v (by simp [Schema.run]) hlookup)
    obtain ⟨serial, hserial⟩ := exists_gives (hfits "serial" .boolean · (by simp [Schema.run]))
    obtain ⟨report, hreport⟩ :=
      exists_gives (hfits "audio_report" .boolean · (by simp [Schema.run]))
    exact ⟨⟨frames, seconds, screenshot, serial, report⟩, hframes, hseconds, hscreenshot, hserial,
      hreport⟩

theorem exists_isSettings_iff {document : V} :
    (∃ s, library.IsSettings document s) ↔ library.WellTyped document := by
  constructor
  · rintro ⟨s, t, ht, h⟩
    refine ⟨t, ht, fun name schema v hmem hlookup => ?_⟩
    simp only [Schema.groups, List.mem_cons, Prod.mk.injEq, List.not_mem_nil, or_false] at hmem
    rcases hmem with ⟨rfl, rfl⟩ | ⟨rfl, rfl⟩
    · obtain ⟨machine, g, hg, hgiven⟩ := h.machine.takes hlookup
      exact ⟨g, hg, exists_machineGiven_iff.mp ⟨machine, hgiven⟩⟩
    · obtain ⟨run, g, hg, hgiven⟩ := h.run.takes hlookup
      exact ⟨g, hg, exists_runGiven_iff.mp ⟨run, hgiven⟩⟩
  · rintro ⟨t, ht, hgroups⟩
    obtain ⟨machine, hmachine⟩ : ∃ s, Gives t "emulator" library.IsMachine {} s := by
      refine exists_gives fun v hlookup => ?_
      obtain ⟨g, hg, hfits⟩ := hgroups "emulator" .machine v (by simp [Schema.groups]) hlookup
      obtain ⟨s, hs⟩ := exists_machineGiven_iff.mpr hfits
      exact ⟨s, g, hg, hs⟩
    obtain ⟨run, hrun⟩ : ∃ s, Gives t "run" library.IsRun {} s := by
      refine exists_gives fun v hlookup => ?_
      obtain ⟨g, hg, hfits⟩ := hgroups "run" .run v (by simp [Schema.groups]) hlookup
      obtain ⟨s, hs⟩ := exists_runGiven_iff.mpr hfits
      exact ⟨s, g, hg, hs⟩
    exact ⟨⟨machine, run⟩, t, ht, hmachine, hrun⟩

theorem Lawful.isSome_settings? (h : library.Lawful) {document : V} :
    (library.settings? document).isSome ↔ library.WellTyped document := by
  rw [Option.isSome_iff_exists, ← exists_isSettings_iff]
  exact exists_congr fun s => h.settings?_decides document s

theorem Lawful.readSettings_of_wellTyped (h : library.Lawful) {text : String} {document : V}
    (hparse : library.parse? text = some document) (htyped : library.WellTyped document) :
    library.IsSettings document (library.readSettings text) := by
  obtain ⟨s, hs⟩ := exists_isSettings_iff.mpr htyped
  rwa [h.readSettings_of_given hparse hs]

/-- One field with a value of another kind, and a document is read as nothing given. -/
theorem Lawful.readSettings_of_mistyped (h : library.Lawful) {text : String} {document : V}
    (hparse : library.parse? text = some document) (hnot : ¬library.WellTyped document) :
    library.readSettings text = {} := by
  refine h.readSettings_of_not_given fun other s hother hs => hnot ?_
  cases Option.some.inj (hparse.symm.trans hother)
  exact exists_isSettings_iff.mp ⟨s, hs⟩

theorem readSettings_of_refused {text : String} (hparse : library.parse? text = none) :
    library.readSettings text = {} := by
  rw [readSettings, hparse]
  rfl

end DocumentLibrary
end Handheld
