import Mathlib.Algebra.Group.Nat.Defs
import Handheld.Configuration

/-!
What the values of a settings file mean, told apart from how they are taken: the settings of a
document are found field by field, each by what is found under its name or as its default.
-/

namespace Handheld
namespace Configuration

variable {V α : Type}

/-- A decoder takes exactly the values that mean something, for what they mean. -/
def Decides (decode : V → Option α) (Means : V → α → Prop) : Prop :=
  ∀ v x, decode v = some x ↔ Means v x

def IsOptional (Means : V → α → Prop) (v : V) : Option α → Prop
  | none => False
  | some x => Means v x

/-- The value of a field: what is found under its name, or the default where nothing is. -/
inductive Gives (t : List (String × V)) (name : String) (Means : V → α → Prop) (default : α) :
    α → Prop
  | given {v : V} {x : α} (h : t.lookup name = some v) (hmeans : Means v x) :
    Gives t name Means default x
  | omitted (h : ∀ e ∈ t, e.1 ≠ name) : Gives t name Means default default

theorem lookup_eq_none_iff {t : List (String × V)} {name : String} :
    t.lookup name = none ↔ ∀ e ∈ t, e.1 ≠ name := by
  simp only [List.lookup_eq_none_iff, bne_iff_ne]
  exact forall₂_congr fun e _ => ne_comm

theorem optional_decides {decode : V → Option α} {Means : V → α → Prop}
    (h : Decides decode Means) : Decides (optional decode) (IsOptional Means) := by
  intro v x
  cases x with
  | none => simp [optional, IsOptional]
  | some x => simp [optional, IsOptional, h v x]

theorem field_eq_some_iff {decode : V → Option α} {Means : V → α → Prop} (h : Decides decode Means)
    {t : List (String × V)} {name : String} {default x : α} :
    field t name decode default = some x ↔ Gives t name Means default x := by
  unfold field
  cases hlookup : t.lookup name with
  | none =>
    constructor
    · rintro ⟨rfl⟩
      exact .omitted (lookup_eq_none_iff.mp hlookup)
    · rintro (⟨hgiven, -⟩ | -)
      · rw [hlookup] at hgiven
        cases hgiven
      · rfl
  | some v =>
    constructor
    · intro hv
      exact .given hlookup ((h v x).mp hv)
    · rintro (⟨hgiven, hmeans⟩ | homitted)
      · rw [hlookup] at hgiven
        cases hgiven
        exact (h _ x).mpr hmeans
      · rw [lookup_eq_none_iff.mpr homitted] at hlookup
        cases hlookup

theorem modelNamed?_eq_some_iff {name : String} {p : ModelPreference} :
    modelNamed? name = some p ↔ name = modelName p := by
  constructor
  · intro h
    have hname := List.find?_some (p := fun p => modelName p == name) h
    exact (beq_iff_eq.mp hname).symm
  · rintro rfl
    exact modelNamed?_modelName p

end Configuration

namespace DocumentLibrary
open Handheld.Configuration

variable {V : Type} (library : DocumentLibrary V)

def IsBoolean (v : V) (b : Bool) : Prop := v = library.ofBoolean b

def IsText (v : V) (s : String) : Prop := v = library.ofText s

def IsNumber (limit : Nat) (v : V) (n : Nat) : Prop := v = library.ofNumber n ∧ n < limit

def IsByte (v : V) (b : UInt8) : Prop := v = library.ofNumber b.toNat

def IsColor (v : V) (c : Rgb) : Prop :=
  ∃ r g b, library.items? 3 v = some [r, g, b] ∧
    library.IsByte r c.red ∧ library.IsByte g c.green ∧ library.IsByte b c.blue

def IsShades (v : V) (s : Shades) : Prop :=
  ∃ a b c d, library.items? 4 v = some [a, b, c, d] ∧
    library.IsColor a s.lightest ∧ library.IsColor b s.light ∧
    library.IsColor c s.dark ∧ library.IsColor d s.darkest

def IsModel (v : V) (p : ModelPreference) : Prop :=
  library.name? (models.map modelName) v = some (modelName p)

structure MachineGiven (t : List (String × V)) (s : MachineSettings) : Prop where
  model : Gives t "model" library.IsModel .auto s.model
  frameLimit : Gives t "frame_limit" library.IsBoolean true s.frameLimit
  breakOnFault : Gives t "break_on_fault" library.IsBoolean false s.breakOnFault
  shades : Gives t "shades" (IsOptional library.IsShades) none s.shades
  sampleRate : Gives t "sample_rate" (library.IsNumber (2 ^ 32)) 44100 s.sampleRate

structure RunGiven (t : List (String × V)) (s : RunSettings) : Prop where
  frames : Gives t "frames" (library.IsNumber (2 ^ 64)) 600 s.frames
  timeoutSeconds : Gives t "timeout_secs" (library.IsNumber (2 ^ 64)) 60 s.timeoutSeconds
  screenshot : Gives t "screenshot" (IsOptional library.IsText) none s.screenshot
  serial : Gives t "serial" library.IsBoolean false s.serial
  audioReport : Gives t "audio_report" library.IsBoolean false s.audioReport

def IsMachine (v : V) (s : MachineSettings) : Prop :=
  ∃ t, library.fields? machineNames v = some t ∧ library.MachineGiven t s

def IsRun (v : V) (s : RunSettings) : Prop :=
  ∃ t, library.fields? runNames v = some t ∧ library.RunGiven t s

structure SettingsGiven (t : List (String × V)) (s : ProgramSettings) : Prop where
  machine : Gives t "emulator" library.IsMachine {} s.machine
  run : Gives t "run" library.IsRun {} s.run

def IsSettings (v : V) (s : ProgramSettings) : Prop :=
  ∃ t, library.fields? groupNames v = some t ∧ library.SettingsGiven t s

variable {library} (h : library.Lawful)
include h

theorem Lawful.boolean?_decides : Decides library.boolean? library.IsBoolean :=
  fun _ _ => h.boolean?_eq_some_iff

theorem Lawful.text?_decides : Decides library.text? library.IsText :=
  fun _ _ => h.text?_eq_some_iff

theorem Lawful.number?_decides (limit : Nat) :
    Decides (library.number? limit) (library.IsNumber limit) := fun _ _ => h.number?_eq_some_iff

theorem Lawful.byte?_decides : Decides library.byte? library.IsByte := by
  intro v b
  simp only [byte?, Option.map_eq_some_iff, h.number?_eq_some_iff, IsByte]
  constructor
  · rintro ⟨n, ⟨rfl, hn⟩, rfl⟩
    rw [UInt8.toNat_ofNat_of_lt' hn]
  · rintro rfl
    exact ⟨b.toNat, ⟨rfl, b.toNat_lt⟩, UInt8.ofNat_toNat⟩

theorem Lawful.color?_decides : Decides library.color? library.IsColor := by
  intro v c
  constructor
  · intro hv
    obtain ⟨items, hitems, hv⟩ := Option.bind_eq_some_iff.mp hv
    match items, hitems, hv with
    | [r, g, b], hitems, hv =>
      obtain ⟨red, hred, hv⟩ := Option.bind_eq_some_iff.mp hv
      obtain ⟨green, hgreen, hv⟩ := Option.bind_eq_some_iff.mp hv
      obtain ⟨blue, hblue, hv⟩ := Option.bind_eq_some_iff.mp hv
      cases hv
      exact ⟨r, g, b, hitems, (h.byte?_decides _ _).mp hred, (h.byte?_decides _ _).mp hgreen,
        (h.byte?_decides _ _).mp hblue⟩
  · rintro ⟨r, g, b, hitems, hred, hgreen, hblue⟩
    simp [color?, hitems, (h.byte?_decides _ _).mpr hred, (h.byte?_decides _ _).mpr hgreen,
      (h.byte?_decides _ _).mpr hblue]

theorem Lawful.shades?_decides : Decides library.shades? library.IsShades := by
  intro v s
  constructor
  · intro hv
    obtain ⟨items, hitems, hv⟩ := Option.bind_eq_some_iff.mp hv
    match items, hitems, hv with
    | [a, b, c, d], hitems, hv =>
      obtain ⟨lightest, ha, hv⟩ := Option.bind_eq_some_iff.mp hv
      obtain ⟨light, hb, hv⟩ := Option.bind_eq_some_iff.mp hv
      obtain ⟨dark, hc, hv⟩ := Option.bind_eq_some_iff.mp hv
      obtain ⟨darkest, hd, hv⟩ := Option.bind_eq_some_iff.mp hv
      cases hv
      exact ⟨a, b, c, d, hitems, (h.color?_decides _ _).mp ha, (h.color?_decides _ _).mp hb,
        (h.color?_decides _ _).mp hc, (h.color?_decides _ _).mp hd⟩
  · rintro ⟨a, b, c, d, hitems, ha, hb, hc, hd⟩
    simp [shades?, hitems, (h.color?_decides _ _).mpr ha, (h.color?_decides _ _).mpr hb,
      (h.color?_decides _ _).mpr hc, (h.color?_decides _ _).mpr hd]

omit h in
theorem model?_decides : Decides library.model? library.IsModel := by
  intro v p
  simp only [model?, Option.bind_eq_some_iff, modelNamed?_eq_some_iff, exists_eq_right, IsModel]

theorem Lawful.machine?_decides : Decides library.machine? library.IsMachine := by
  intro v s
  constructor
  · intro hv
    obtain ⟨t, ht, hv⟩ := Option.bind_eq_some_iff.mp hv
    obtain ⟨model, hmodel, hv⟩ := Option.bind_eq_some_iff.mp hv
    obtain ⟨limit, hlimit, hv⟩ := Option.bind_eq_some_iff.mp hv
    obtain ⟨fault, hfault, hv⟩ := Option.bind_eq_some_iff.mp hv
    obtain ⟨shades, hshades, hv⟩ := Option.bind_eq_some_iff.mp hv
    obtain ⟨rate, hrate, hv⟩ := Option.bind_eq_some_iff.mp hv
    cases hv
    exact ⟨t, ht, {
      model := (field_eq_some_iff model?_decides).mp hmodel
      frameLimit := (field_eq_some_iff h.boolean?_decides).mp hlimit
      breakOnFault := (field_eq_some_iff h.boolean?_decides).mp hfault
      shades := (field_eq_some_iff (optional_decides h.shades?_decides)).mp hshades
      sampleRate := (field_eq_some_iff (h.number?_decides _)).mp hrate }⟩
  · rintro ⟨t, ht, hmodel, hlimit, hfault, hshades, hrate⟩
    simp only [machine?, ht, (field_eq_some_iff model?_decides).mpr hmodel,
      (field_eq_some_iff h.boolean?_decides).mpr hlimit,
      (field_eq_some_iff h.boolean?_decides).mpr hfault,
      (field_eq_some_iff (optional_decides h.shades?_decides)).mpr hshades,
      (field_eq_some_iff (h.number?_decides (1 <<< 32))).mpr hrate, Option.bind_eq_bind,
      Option.bind_some, Option.pure_def]

theorem Lawful.run?_decides : Decides library.run? library.IsRun := by
  intro v s
  constructor
  · intro hv
    obtain ⟨t, ht, hv⟩ := Option.bind_eq_some_iff.mp hv
    obtain ⟨frames, hframes, hv⟩ := Option.bind_eq_some_iff.mp hv
    obtain ⟨seconds, hseconds, hv⟩ := Option.bind_eq_some_iff.mp hv
    obtain ⟨screenshot, hscreenshot, hv⟩ := Option.bind_eq_some_iff.mp hv
    obtain ⟨serial, hserial, hv⟩ := Option.bind_eq_some_iff.mp hv
    obtain ⟨report, hreport, hv⟩ := Option.bind_eq_some_iff.mp hv
    cases hv
    exact ⟨t, ht, {
      frames := (field_eq_some_iff (h.number?_decides _)).mp hframes
      timeoutSeconds := (field_eq_some_iff (h.number?_decides _)).mp hseconds
      screenshot := (field_eq_some_iff (optional_decides h.text?_decides)).mp hscreenshot
      serial := (field_eq_some_iff h.boolean?_decides).mp hserial
      audioReport := (field_eq_some_iff h.boolean?_decides).mp hreport }⟩
  · rintro ⟨t, ht, hframes, hseconds, hscreenshot, hserial, hreport⟩
    simp only [run?, ht, (field_eq_some_iff (h.number?_decides (1 <<< 64))).mpr hframes,
      (field_eq_some_iff (h.number?_decides (1 <<< 64))).mpr hseconds,
      (field_eq_some_iff (optional_decides h.text?_decides)).mpr hscreenshot,
      (field_eq_some_iff h.boolean?_decides).mpr hserial,
      (field_eq_some_iff h.boolean?_decides).mpr hreport, Option.bind_eq_bind, Option.bind_some,
      Option.pure_def]

theorem Lawful.settings?_decides : Decides library.settings? library.IsSettings := by
  intro v s
  constructor
  · intro hv
    obtain ⟨t, ht, hv⟩ := Option.bind_eq_some_iff.mp hv
    obtain ⟨machine, hmachine, hv⟩ := Option.bind_eq_some_iff.mp hv
    obtain ⟨run, hrun, hv⟩ := Option.bind_eq_some_iff.mp hv
    cases hv
    exact ⟨t, ht, {
      machine := (field_eq_some_iff h.machine?_decides).mp hmachine
      run := (field_eq_some_iff h.run?_decides).mp hrun }⟩
  · rintro ⟨t, ht, hmachine, hrun⟩
    simp only [settings?, ht, (field_eq_some_iff h.machine?_decides).mpr hmachine,
      (field_eq_some_iff h.run?_decides).mpr hrun, Option.bind_eq_bind, Option.bind_some,
      Option.pure_def]

theorem Lawful.readSettings_of_given {text : String} {v : V} {s : ProgramSettings}
    (hparse : library.parse? text = some v) (hv : library.IsSettings v s) :
    library.readSettings text = s := by
  rw [readSettings, hparse, Option.bind_some, (h.settings?_decides v s).mpr hv, Option.getD_some]

/-- A text is read as nothing given, unless it is a document that gives settings. -/
theorem Lawful.readSettings_of_not_given {text : String}
    (hnone : ∀ v s, library.parse? text = some v → ¬library.IsSettings v s) :
    library.readSettings text = {} := by
  rw [readSettings]
  cases hread : (library.parse? text).bind library.settings? with
  | none => rfl
  | some s =>
    obtain ⟨v, hparse, hv⟩ := Option.bind_eq_some_iff.mp hread
    exact absurd ((h.settings?_decides v s).mp hv) (hnone v s hparse)

end DocumentLibrary
end Handheld
