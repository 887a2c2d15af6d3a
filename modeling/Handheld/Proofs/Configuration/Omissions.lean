import Handheld.Proofs.Configuration.Decoding

/-!
Settings are read back from the document that is made of them, and from what is left of it when
tables and keys are taken out: what was taken out has its default, and the rest is as it was.
-/

namespace Handheld

/-- Which tables of a settings file are kept, and which keys in a table. -/
structure Kept where
  group : String → Bool
  key : String → String → Bool

def Kept.all : Kept := ⟨fun _ => true, fun _ _ => true⟩

def MachineSettings.only (kept : String → Bool) (s : MachineSettings) : MachineSettings where
  model := if kept "model" then s.model else .auto
  frameLimit := if kept "frame_limit" then s.frameLimit else true
  breakOnFault := if kept "break_on_fault" then s.breakOnFault else false
  shades := if kept "shades" then s.shades else none
  sampleRate := if kept "sample_rate" then s.sampleRate else 44100

def RunSettings.only (kept : String → Bool) (s : RunSettings) : RunSettings where
  frames := if kept "frames" then s.frames else 600
  timeoutSeconds := if kept "timeout_secs" then s.timeoutSeconds else 60
  screenshot := if kept "screenshot" then s.screenshot else none
  serial := if kept "serial" then s.serial else false
  audioReport := if kept "audio_report" then s.audioReport else false

def ProgramSettings.only (kept : Kept) (s : ProgramSettings) : ProgramSettings where
  machine := if kept.group "emulator" then s.machine.only (kept.key "emulator") else {}
  run := if kept.group "run" then s.run.only (kept.key "run") else {}

structure ProgramSettings.InRange (s : ProgramSettings) : Prop where
  sampleRate : s.machine.sampleRate < 2 ^ 32
  frames : s.run.frames < 2 ^ 64
  timeoutSeconds : s.run.timeoutSeconds < 2 ^ 64

namespace Configuration

variable {V α : Type}

theorem lookup_filter (t : List (String × V)) (kept : String → Bool) (name : String) :
    (t.filter fun e => kept e.1).lookup name = if kept name then t.lookup name else none := by
  induction t with
  | nil => simp
  | cons e t ih =>
    obtain ⟨key, v⟩ := e
    by_cases hkey : name = key
    · subst hkey
      by_cases hkept : kept name <;> simp [hkept, ih]
    · have hother : (name == key) = false := beq_false_of_ne hkey
      by_cases hkept : kept key <;> simp [hkept, List.lookup_cons, hother, ih]

theorem lookup_optionalField (name key : String) (v? : Option V) :
    (optionalField name v?).lookup key = if key = name then v? else none := by
  cases v? with
  | none => simp [optionalField]
  | some v =>
    by_cases h : key = name
    · simp [optionalField, h]
    · simp [optionalField, List.lookup_cons, h, beq_false_of_ne h]

theorem mem_optionalField {name : String} {v? : Option V} {e : String × V}
    (h : e ∈ optionalField name v?) : e.1 = name := by
  cases v? with
  | none => cases h
  | some v =>
    cases List.mem_singleton.mp h
    rfl

theorem Gives.filter {t : List (String × V)} {name : String} {Means : V → α → Prop}
    {default x : α} (h : Gives t name Means default x) (kept : String → Bool) :
    Gives (t.filter fun e => kept e.1) name Means default (if kept name then x else default) := by
  by_cases hkept : kept name
  · rw [if_pos hkept]
    cases h with
    | given hlookup hmeans => exact .given (by rw [lookup_filter, if_pos hkept, hlookup]) hmeans
    | omitted homitted => exact .omitted fun e he => homitted e (List.mem_filter.mp he).1
  · rw [if_neg hkept]
    exact .omitted (lookup_eq_none_iff.mp (by rw [lookup_filter, if_neg hkept]))

theorem gives_optional {t : List (String × V)} {name : String} {Means : V → α → Prop}
    {x? : Option α} {value : α → V} (hlookup : t.lookup name = x?.map value)
    (hmeans : ∀ x, Means (value x) x) : Gives t name (IsOptional Means) none x? := by
  cases x? with
  | none => exact .omitted (lookup_eq_none_iff.mp hlookup)
  | some x => exact .given hlookup (hmeans x)

end Configuration

namespace DocumentLibrary
open Handheld.Configuration

variable {V : Type} {library : DocumentLibrary V}

theorem MachineGiven.filter {t : List (String × V)} {s : MachineSettings}
    (h : library.MachineGiven t s) (kept : String → Bool) :
    library.MachineGiven (t.filter fun e => kept e.1) (s.only kept) where
  model := h.model.filter kept
  frameLimit := h.frameLimit.filter kept
  breakOnFault := h.breakOnFault.filter kept
  shades := h.shades.filter kept
  sampleRate := h.sampleRate.filter kept

theorem RunGiven.filter {t : List (String × V)} {s : RunSettings}
    (h : library.RunGiven t s) (kept : String → Bool) :
    library.RunGiven (t.filter fun e => kept e.1) (s.only kept) where
  frames := h.frames.filter kept
  timeoutSeconds := h.timeoutSeconds.filter kept
  screenshot := h.screenshot.filter kept
  serial := h.serial.filter kept
  audioReport := h.audioReport.filter kept

theorem SettingsGiven.filter {t : List (String × V)} {s : ProgramSettings}
    (h : library.SettingsGiven t s) (kept : String → Bool) :
    library.SettingsGiven (t.filter fun e => kept e.1)
      { machine := if kept "emulator" then s.machine else {}
        run := if kept "run" then s.run else {} } where
  machine := h.machine.filter kept
  run := h.run.filter kept

theorem mem_machineFields {s : MachineSettings} {e : String × V}
    (h : e ∈ library.machineFields s) : e.1 ∈ machineNames := by
  simp only [machineFields, List.mem_append, List.mem_cons, List.not_mem_nil, or_false] at h
  rcases h with ((rfl | rfl | rfl) | hshades) | rfl
  case inl.inr => simp [mem_optionalField hshades, machineNames]
  all_goals simp [machineNames]

theorem mem_runFields {s : RunSettings} {e : String × V} (h : e ∈ library.runFields s) :
    e.1 ∈ runNames := by
  simp only [runFields, List.mem_append, List.mem_cons, List.not_mem_nil, or_false] at h
  rcases h with ((rfl | rfl) | hscreenshot) | rfl | rfl
  case inl.inr => simp [mem_optionalField hscreenshot, runNames]
  all_goals simp [runNames]

def trimmedTables (library : DocumentLibrary V) (kept : Kept) (s : ProgramSettings) :
    List (String × V) :=
  [("emulator", library.ofFields
      ((library.machineFields s.machine).filter fun e => kept.key "emulator" e.1)),
    ("run", library.ofFields ((library.runFields s.run).filter fun e => kept.key "run" e.1))]

/-- The document of settings with only the tables and keys that are kept. -/
def keptSettings (library : DocumentLibrary V) (kept : Kept) (s : ProgramSettings) : V :=
  library.ofFields ((library.trimmedTables kept s).filter fun e => kept.group e.1)

theorem keptSettings_all (s : ProgramSettings) :
    library.keptSettings .all s = library.ofSettings s := by
  have hall (t : List (String × V)) : t.filter (fun _ => true) = t :=
    List.filter_eq_self.mpr fun _ _ => rfl
  simp only [keptSettings, trimmedTables, Kept.all, hall, ofSettings]

variable (h : library.Lawful)
include h

theorem Lawful.isColor_ofColor (c : Rgb) : library.IsColor (library.ofColor c) c :=
  ⟨_, _, _, h.items?_ofItems [_, _, _], rfl, rfl, rfl⟩

theorem Lawful.isShades_ofShades (s : Shades) : library.IsShades (library.ofShades s) s :=
  ⟨_, _, _, _, h.items?_ofItems [_, _, _, _], h.isColor_ofColor _, h.isColor_ofColor _,
    h.isColor_ofColor _, h.isColor_ofColor _⟩

theorem Lawful.isModel_ofText (p : ModelPreference) :
    library.IsModel (library.ofText (modelName p)) p :=
  h.name?_ofText (by cases p <;> decide)

theorem Lawful.machineGiven_machineFields {s : MachineSettings} (hrate : s.sampleRate < 2 ^ 32) :
    library.MachineGiven (library.machineFields s) s :=
  have hshades : (library.machineFields s).lookup "shades" = s.shades.map library.ofShades := by
    simp [machineFields, List.lookup_append, List.lookup_cons, lookup_optionalField]
  have hsampleRate : (library.machineFields s).lookup "sample_rate" =
      some (library.ofNumber s.sampleRate) := by
    simp [machineFields, List.lookup_append, List.lookup_cons, lookup_optionalField]
  { model := .given rfl (h.isModel_ofText _)
    frameLimit := .given rfl rfl
    breakOnFault := .given rfl rfl
    shades := gives_optional hshades h.isShades_ofShades
    sampleRate := .given hsampleRate ⟨rfl, hrate⟩ }

omit h in
theorem runGiven_runFields {s : RunSettings} (hframes : s.frames < 2 ^ 64)
    (hseconds : s.timeoutSeconds < 2 ^ 64) : library.RunGiven (library.runFields s) s :=
  have hscreenshot : (library.runFields s).lookup "screenshot" =
      s.screenshot.map library.ofText := by
    simp [runFields, List.lookup_append, List.lookup_cons, lookup_optionalField]
  have hserial : (library.runFields s).lookup "serial" = some (library.ofBoolean s.serial) := by
    simp [runFields, List.lookup_append, List.lookup_cons, lookup_optionalField]
  have hreport : (library.runFields s).lookup "audio_report" =
      some (library.ofBoolean s.audioReport) := by
    simp [runFields, List.lookup_append, List.lookup_cons, lookup_optionalField]
  { frames := .given rfl ⟨rfl, hframes⟩
    timeoutSeconds := .given rfl ⟨rfl, hseconds⟩
    screenshot := gives_optional hscreenshot fun _ => rfl
    serial := .given hserial rfl
    audioReport := .given hreport rfl }

/-- What is left of the document of settings gives these, with defaults for what was taken out. -/
theorem Lawful.isSettings_keptSettings (kept : Kept) {s : ProgramSettings} (hs : s.InRange) :
    library.IsSettings (library.keptSettings kept s) (s.only kept) := by
  have hmachine := (h.machineGiven_machineFields hs.sampleRate).filter (kept.key "emulator")
  have hall : library.RunGiven (library.runFields s.run) s.run :=
    runGiven_runFields hs.frames hs.timeoutSeconds
  have hrun := hall.filter (kept.key "run")
  have hfound : library.SettingsGiven (library.trimmedTables kept s)
      { machine := s.machine.only (kept.key "emulator"), run := s.run.only (kept.key "run") } :=
    { machine := .given rfl ⟨_, h.fields?_ofFields fun e he =>
        mem_machineFields (List.mem_filter.mp he).1, hmachine⟩
      run := .given rfl ⟨_, h.fields?_ofFields fun e he =>
        mem_runFields (List.mem_filter.mp he).1, hrun⟩ }
  refine ⟨_, h.fields?_ofFields fun e he => ?_, hfound.filter kept.group⟩
  have hmem := (List.mem_filter.mp he).1
  simp only [trimmedTables, List.mem_cons, List.not_mem_nil, or_false] at hmem
  rcases hmem with rfl | rfl <;> simp [groupNames]

theorem Lawful.readSettings_of_kept (kept : Kept) {s : ProgramSettings} (hs : s.InRange)
    {text : String} (hprint : library.print (library.keptSettings kept s) = .ok text) :
    library.readSettings text = s.only kept :=
  h.readSettings_of_given (h.parse?_of_print hprint) (h.isSettings_keptSettings kept hs)

theorem Lawful.readSettings_of_write {s : ProgramSettings} (hs : s.InRange) {text : String}
    (hwrite : library.writeSettings s = .ok text) : library.readSettings text = s := by
  rw [writeSettings, ← keptSettings_all] at hwrite
  exact h.readSettings_of_kept .all hs hwrite

end DocumentLibrary
end Handheld
