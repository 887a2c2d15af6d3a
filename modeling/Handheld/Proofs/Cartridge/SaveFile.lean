import Handheld.Proofs.Cartridge.Window

/-!
A store kept in a file, through every use of it. Once it is closed without a fault a new store on
the same file holds its bytes; the file is written only if a byte was changed, and a closing that
cannot write loses nothing.
-/

namespace Handheld

@[simp] theorem size_overlay (contents data : ByteArray) :
    (overlay contents data).size = data.size := by
  rw [overlay, ByteArray.size_append, ByteArray.size_extract, ByteArray.size_extract]
  omega

theorem getElem_overlay (contents data : ByteArray) {i : Nat} (h : i < data.size)
    (h' : i < (overlay contents data).size) :
    (overlay contents data)[i] = if hc : i < contents.size then contents[i] else data[i] := by
  unfold overlay at h' ⊢
  by_cases hc : i < contents.size
  · rw [dif_pos hc, ByteArray.getElem_append_left (by rw [ByteArray.size_extract]; omega),
      ByteArray.getElem_extract]
    simp only [Nat.zero_add]
  · have hfront : (contents.extract 0 data.size).size = contents.size := by
      rw [ByteArray.size_extract]
      omega
    rw [dif_neg hc, ByteArray.getElem_append_right (by omega), ByteArray.getElem_extract]
    congr 1
    omega

theorem overlay_overlay (contents data : ByteArray) :
    overlay contents (overlay contents data) = overlay contents data := by
  refine ByteArray.ext_getElem (size_overlay ..) fun i h h' => ?_
  have hi : i < data.size := size_overlay contents data ▸ h'
  rw [getElem_overlay contents _ h' h, getElem_overlay contents data hi h']
  split <;> rfl

theorem overlay_of_size {contents data : ByteArray} (h : contents.size = data.size) :
    overlay contents data = contents := by
  refine ByteArray.ext_getElem ((size_overlay ..).trans h.symm) fun i h' hi => ?_
  rw [getElem_overlay contents data (h ▸ hi) h', dif_pos hi]

/-- The bytes of a store once those of its medium are laid over them. -/
def Medium.load : Medium → ByteArray → ByteArray
  | .file contents, data => overlay contents data
  | .readOnly contents, data => overlay contents data
  | _, data => data

namespace Medium

@[simp] theorem size_load (m : Medium) (data : ByteArray) : (m.load data).size = data.size := by
  cases m with
  | file | readOnly => exact size_overlay ..
  | missing | directory => rfl

theorem load_load (m : Medium) (data : ByteArray) : m.load (m.load data) = m.load data := by
  cases m with
  | file | readOnly => exact overlay_overlay ..
  | missing | directory => rfl

end Medium

namespace SaveFile

def sized (n : Nat) (medium : Medium) : SaveFile := ExternalMemory.setSize { medium } n

@[simp] theorem sized_size (n : Nat) (medium : Medium) : (sized n medium).data.size = n :=
  size_resize ..

variable {n : Nat} {f : SaveFile}

theorem activate_cases (f : SaveFile) :
    f.activate = ({ f with data := f.medium.load f.data, active := true }, none) ∨
      ∃ fault, f.activate = (f, some fault) := by
  unfold activate
  split
  case h_1 hmedium => exact .inl (by rw [hmedium]; rfl)
  case h_2 hmedium => exact .inl (by rw [hmedium]; rfl)
  case h_3 hmedium => exact .inl (by rw [hmedium]; rfl)
  case h_4 => exact .inr ⟨_, rfl⟩

theorem writeByte_cases (f : SaveFile) (i : Nat) (v : UInt8) :
    (f.active ∧ setByte f.data i v ≠ f.data ∧
      f.writeByte i v = { f with data := setByte f.data i v, dirty := true }) ∨
    f.writeByte i v = f := by
  unfold writeByte
  split
  case isFalse => exact .inr rfl
  case isTrue h =>
    simp only [Bool.and_eq_true, decide_eq_true_eq, bne_iff_ne] at h
    obtain ⟨⟨hactive, hi⟩, hother⟩ := h
    refine .inl ⟨hactive, fun hsame => hother ?_, rfl⟩
    have hbyte := byteAt_setByte f.data hi v i v
    rwa [hsame, if_pos rfl] at hbyte

@[simp] theorem writeByte_active (f : SaveFile) (i : Nat) (v : UInt8) :
    (f.writeByte i v).active = f.active := by
  rcases f.writeByte_cases i v with ⟨-, -, hwrite⟩ | hwrite <;> rw [hwrite]

@[simp] theorem writeByte_size (f : SaveFile) (i : Nat) (v : UInt8) :
    (f.writeByte i v).data.size = f.data.size := by
  rcases f.writeByte_cases i v with ⟨-, -, hwrite⟩ | hwrite <;> rw [hwrite]
  exact size_setByte ..

theorem readByte_writeByte (hactive : f.active) {i : Nat} (hi : i < f.data.size) (v : UInt8)
    (j : Nat) : (f.writeByte i v).readByte j = if i = j then v else f.readByte j := by
  rw [readByte, writeByte_active, if_pos hactive, readByte, if_pos hactive, writeByte]
  split
  case isTrue => exact byteAt_setByte f.data hi v j 0xFF
  case isFalse hsame =>
    have hv : f.data[i] = v := by simpa [hactive, hi, byteAt_of_lt hi] using hsame
    split
    case isTrue hij => rw [← hij, byteAt_of_lt hi, hv]
    case isFalse => rfl

theorem flush_cases (f : SaveFile) :
    f.flush = ({ f with medium := .file f.data, dirty := false }, none) ∨
      ∃ fault, f.flush = (f, some fault) := by
  unfold flush
  split
  · exact .inl rfl
  · exact .inl rfl
  · exact .inr ⟨_, rfl⟩
  · exact .inr ⟨_, rfl⟩

theorem deactivate_of_clean (h : f.dirty = false) :
    f.deactivate = ({ f with active := false }, none) := by
  rw [deactivate, h, Bool.and_false, if_neg Bool.false_ne_true]

/-- Closing a store with something unsaved writes all its bytes, or leaves it as it is. -/
theorem deactivate_of_unsaved (hactive : f.active) (hdirty : f.dirty) :
    f.deactivate =
        ({ f with medium := .file f.data, dirty := false, active := false }, none) ∨
      ∃ fault, f.deactivate = (f, some fault) := by
  unfold deactivate
  rw [hactive, hdirty, Bool.and_self, if_pos rfl]
  rcases f.flush_cases with hflush | ⟨fault, hflush⟩
  · rw [hflush]
    exact .inl rfl
  · rw [hflush]
    exact .inr ⟨fault, rfl⟩

theorem deactivate_of_writable (hactive : f.active) (hdirty : f.dirty)
    (hmedium : f.medium = .missing ∨ ∃ contents, f.medium = .file contents) :
    f.deactivate = ({ f with medium := .file f.data, dirty := false, active := false }, none) := by
  have hflush : f.flush = ({ f with medium := .file f.data, dirty := false }, none) := by
    rcases hmedium with hmissing | ⟨contents, hfile⟩
    · rw [flush, hmissing]
    · rw [flush, hfile]
  rw [deactivate, hactive, hdirty, Bool.and_self, if_pos rfl, hflush]

theorem deactivate_of_write (hactive : f.active) (hclean : f.dirty = false)
    (hmedium : f.medium = .missing ∨ ∃ contents, f.medium = .file contents) (i : Nat) (v : UInt8) :
    ∃ saved, (f.writeByte i v).deactivate = (saved, none) := by
  rcases f.writeByte_cases i v with ⟨-, -, hwrite⟩ | hwrite
  · rw [hwrite]
    exact ⟨_, deactivate_of_writable hactive rfl hmedium⟩
  · rw [hwrite]
    exact ⟨_, deactivate_of_clean hclean⟩

theorem activate_file (contents : ByteArray) : (sized contents.size (.file contents)).activate =
    ({ medium := .file contents, data := contents, active := true }, none) := by
  have hsize := sized_size contents.size (.file contents)
  have hdata : overlay contents (sized contents.size (.file contents)).data = contents :=
    overlay_of_size hsize.symm
  rw [activate]
  simp only [sized, ExternalMemory.setSize] at hdata ⊢
  rw [hdata]

/-- What is so of a store of some size as long as it is used. While nothing is unsaved a new store
on the same file comes to the same bytes, and only an open store has anything unsaved. -/
structure Kept (n : Nat) (f : SaveFile) : Prop where
  size : f.data.size = n
  saved : f.dirty = false → (sized n f.medium).activate = ({ f with active := true }, none)
  opened : f.dirty → f.active

theorem kept_of_activate {medium : Medium} (h : (sized n medium).activate = (f, none)) :
    f.Kept n := by
  rcases (sized n medium).activate_cases with hloaded | ⟨fault, hfailed⟩
  · obtain rfl := (Prod.mk.inj (hloaded.symm.trans h)).1
    exact ⟨(medium.size_load _).trans (sized_size n medium), fun _ => h, fun _ => rfl⟩
  · cases (Prod.mk.inj (hfailed.symm.trans h)).2

theorem opened_of_activate {medium : Medium} (h : (sized n medium).activate = (f, none)) :
    f.active ∧ f.dirty = false ∧ f.medium = medium := by
  rcases (sized n medium).activate_cases with hloaded | ⟨fault, hfailed⟩
  · obtain rfl := (Prod.mk.inj (hloaded.symm.trans h)).1
    exact ⟨rfl, rfl, rfl⟩
  · cases (Prod.mk.inj (hfailed.symm.trans h)).2

theorem Kept.write (h : f.Kept n) (i : Nat) (v : UInt8) : (f.writeByte i v).Kept n := by
  rcases f.writeByte_cases i v with ⟨hactive, -, hwrite⟩ | hwrite
  · rw [hwrite]
    exact ⟨(size_setByte ..).trans h.size, nofun, fun _ => hactive⟩
  · rwa [hwrite]

theorem Kept.load (h : f.Kept n) (hclean : f.dirty = false) : f.medium.load f.data = f.data := by
  have hsaved := h.saved hclean
  rcases (sized n f.medium).activate_cases with hloaded | ⟨fault, hfailed⟩
  · have hdata : f.medium.load (sized n f.medium).data = f.data :=
      congrArg (fun r => r.1.data) (hloaded.symm.trans hsaved)
    rw [← hdata, Medium.load_load]
  · cases (Prod.mk.inj (hfailed.symm.trans hsaved)).2

theorem Kept.activate (h : f.Kept n) : f.activate.1.Kept n := by
  rcases f.activate_cases with hloaded | ⟨fault, hfailed⟩
  · rw [hloaded]
    -- The file is laid over bytes that it was laid over before, unless some are unsaved.
    refine ⟨(f.medium.size_load _).trans h.size, fun hclean => ?_, fun _ => rfl⟩
    dsimp only at hclean ⊢
    rw [h.load hclean]
    exact h.saved hclean
  · rwa [hfailed]

theorem Kept.deactivate_cases (h : f.Kept n) :
    (∃ saved, f.deactivate = (saved, none) ∧ saved.Kept n ∧ saved.data = f.data ∧
      saved.dirty = false) ∨
    (f.active ∧ f.dirty ∧ ∃ fault, f.deactivate = (f, some fault)) := by
  cases hdirty : f.dirty with
  | false =>
    exact .inl ⟨_, deactivate_of_clean hdirty,
      ⟨h.size, h.saved, fun hunsaved => absurd hunsaved (by simp [hdirty])⟩, rfl, hdirty⟩
  | true =>
    have hactive := h.opened hdirty
    rcases deactivate_of_unsaved hactive hdirty with hwrote | hfailed
    · refine .inl ⟨_, hwrote, ⟨h.size, fun _ => ?_, nofun⟩, rfl, rfl⟩
      rw [← h.size]
      exact activate_file f.data
    · exact .inr ⟨hactive, rfl, hfailed⟩

inductive Event where
  | write (i : Nat) (v : UInt8)
  | activate
  | deactivate
  /-- While bytes are unsaved the place of the file may come to refuse writes or to take them again,
  or hold whatever a write that failed has left there. -/
  | disturb (left : Medium)

def perform (f : SaveFile) : Event → SaveFile
  | .write i v => f.writeByte i v
  | .activate => f.activate.1
  | .deactivate => f.deactivate.1
  | .disturb left => if f.dirty then { f with medium := left } else f

def performAll (f : SaveFile) (events : List Event) : SaveFile := events.foldl perform f

theorem performAll_append (f : SaveFile) (first second : List Event) :
    f.performAll (first ++ second) = (f.performAll first).performAll second := List.foldl_append

theorem Kept.perform (h : f.Kept n) (e : Event) : (f.perform e).Kept n := by
  cases e with
  | write i v => exact h.write i v
  | activate => exact h.activate
  | deactivate =>
    rcases h.deactivate_cases with ⟨saved, hclosed, hkept, -⟩ | ⟨-, -, fault, hfailed⟩
    · rwa [SaveFile.perform, hclosed]
    · rwa [SaveFile.perform, hfailed]
  | disturb left =>
    rw [SaveFile.perform]
    split
    case isTrue hdirty => exact ⟨h.size, fun hclean => by simp [hdirty] at hclean, h.opened⟩
    case isFalse => exact h

theorem Kept.performAll (h : f.Kept n) (events : List Event) : (f.performAll events).Kept n := by
  induction events generalizing f with
  | nil => exact h
  | cons e rest ih => exact ih (h.perform e)

def Quiet (f : SaveFile) : List Event → Prop
  | [] => True
  | e :: rest =>
    (∀ i v, e = .write i v → (f.writeByte i v).data = f.data) ∧ Quiet (f.perform e) rest

theorem medium_of_quiet {events : List Event} (hclean : f.dirty = false) (hquiet : f.Quiet events) :
    (f.performAll events).dirty = false ∧ (f.performAll events).medium = f.medium := by
  induction events generalizing f with
  | nil => exact ⟨hclean, rfl⟩
  | cons e rest ih =>
    obtain ⟨hsame, hrest⟩ := hquiet
    have hstep : (f.perform e).dirty = false ∧ (f.perform e).medium = f.medium := by
      cases e with
      | write i v =>
        rcases f.writeByte_cases i v with ⟨-, hchange, hwrite⟩ | hwrite
        · have hdata := hsame i v rfl
          rw [hwrite] at hdata
          exact absurd hdata hchange
        · rw [SaveFile.perform, hwrite]
          exact ⟨hclean, rfl⟩
      | activate =>
        rw [SaveFile.perform]
        rcases f.activate_cases with hloaded | ⟨fault, hfailed⟩
        · rw [hloaded]
          exact ⟨hclean, rfl⟩
        · rw [hfailed]
          exact ⟨hclean, rfl⟩
      | deactivate =>
        rw [SaveFile.perform, deactivate_of_clean hclean]
        exact ⟨hclean, rfl⟩
      | disturb left =>
        rw [SaveFile.perform, hclean, if_neg Bool.false_ne_true]
        exact ⟨hclean, rfl⟩
    obtain ⟨hdirty, hmedium⟩ := ih hstep.1 hrest
    exact ⟨hdirty, hmedium.trans hstep.2⟩

/-- After some events nothing is unsaved: none happened, or the last was a closing that
succeeded. -/
def ClosedAfter (f : SaveFile) (events : List Event) : Prop :=
  events = [] ∨
    ∃ before, events = before ++ [.deactivate] ∧ (f.performAll before).deactivate.2 = none

theorem Kept.clean_of_closed {events : List Event} (h : f.Kept n) (hclean : f.dirty = false)
    (hclosed : f.ClosedAfter events) : (f.performAll events).dirty = false := by
  rcases hclosed with rfl | ⟨before, rfl, hnone⟩
  · exact hclean
  · rw [performAll_append]
    rcases (h.performAll before).deactivate_cases with
      ⟨saved, hsaved, -, -, hdirty⟩ | ⟨-, -, fault, hfailed⟩
    · have hlast : (f.performAll before).performAll [.deactivate] = saved :=
        congrArg Prod.fst hsaved
      rwa [hlast]
    · rw [hfailed] at hnone
      cases hnone

/-- A store through any history of its use. Once it is closed without a fault a new store of the
same size on its file comes to exactly its bytes. Without a change of a byte since the last such
closing the file is left alone, also if there is none. A closing that cannot write leaves the store
as it was, open and with everything still to be written by the next one that can. -/
theorem bytes_outlive_closing {medium : Medium} {start : SaveFile}
    (hopen : (sized n medium).activate = (start, none)) (events : List Event) :
    let now := start.performAll events
    (∀ saved, now.deactivate = (saved, none) → ∃ again,
      (sized n saved.medium).activate = (again, none) ∧
        again = { medium := saved.medium, data := now.data, active := true } ∧
        ∀ i, again.readByte i = byteAt now.data i 0xFF) ∧
    (∀ before since, events = before ++ since → start.ClosedAfter before →
      (start.performAll before).Quiet since →
        now.medium = (start.performAll before).medium ∧
          now.deactivate = ({ now with active := false }, none)) ∧
    ∀ left fault, now.deactivate = (left, some fault) →
      left = now ∧ now.active ∧ now.dirty ∧
        ∀ place : Medium, let later := { left with medium := place }
          (place = .missing ∨ (∃ contents, place = .file contents) → later.deactivate.2 = none) ∧
            (later.deactivate.2 = none → later.deactivate.1.medium = .file now.data) := by
  intro now
  have hstart := kept_of_activate hopen
  have hkept : now.Kept n := hstart.performAll events
  refine ⟨fun saved hsaved => ?_, fun before since hevents hclosed hquiet => ?_,
    fun left fault hfailed => ?_⟩
  · rcases hkept.deactivate_cases with
      ⟨closed, hclosed, hagain, hdata, hclean⟩ | ⟨-, -, fault, hfailed⟩
    · obtain rfl := (Prod.mk.inj (hclosed.symm.trans hsaved)).1
      refine ⟨_, hagain.saved hclean, ?_, fun i => ?_⟩
      · rw [hdata, hclean]
      · rw [readByte, if_pos rfl, hdata]
    · cases (Prod.mk.inj (hfailed.symm.trans hsaved)).2
  · have hclean := hstart.clean_of_closed (opened_of_activate hopen).2.1 hclosed
    have hnow : now = (start.performAll before).performAll since := by
      rw [← performAll_append, ← hevents]
    obtain ⟨hdirty, hmedium⟩ := medium_of_quiet hclean hquiet
    rw [hnow]
    exact ⟨hmedium, deactivate_of_clean hdirty⟩
  · -- A closing that fails gives back the very store, so whatever comes of the place decides.
    rcases hkept.deactivate_cases with ⟨closed, hclosed, -⟩ | ⟨hactive, hdirty, fault', hkeeps⟩
    · cases (Prod.mk.inj (hclosed.symm.trans hfailed)).2
    · obtain rfl := (Prod.mk.inj (hfailed.symm.trans hkeeps)).1
      refine ⟨rfl, hactive, hdirty, fun place => ⟨fun hplace => ?_, fun hnone => ?_⟩⟩
      · exact congrArg Prod.snd
          (deactivate_of_writable (f := { now with medium := place }) hactive hdirty hplace)
      · rcases deactivate_of_unsaved (f := { now with medium := place }) hactive hdirty with
          hwrote | ⟨_, hagain⟩
        · rw [hwrote]
        · rw [hagain] at hnone
          cases hnone

/-- A short file keeps its bytes while none is changed. When it refuses to be written a changed one
stays unsaved, and once the file is gone all the bytes come back from a new one. -/
theorem refused_byte_outlives_closing :
    let start := (sized 4 (.file ⟨#[1, 2, 3]⟩)).activate.1
    let same : List Event := [.write 1 2, .activate]
    let refused : List Event := [.write 3 9, .disturb (.readOnly ⟨#[5]⟩)]
    let events : List Event := refused ++ [.deactivate, .disturb .missing]
    let saved := (start.performAll events).deactivate.1
    (sized 4 (.file ⟨#[1, 2, 3]⟩)).activate = (start, none) ∧
      (start.performAll same).medium = .file ⟨#[1, 2, 3]⟩ ∧
      ((start.performAll refused).deactivate.1 = start.performAll refused ∧
        (start.performAll refused).dirty) ∧
      (start.performAll events).deactivate = (saved, none) ∧
      ∃ again, (sized 4 saved.medium).activate = (again, none) ∧ again.readByte 0 = 1 ∧
        again.readByte 3 = 9 := by
  intro start same refused events saved
  have hopen : (sized 4 (.file ⟨#[1, 2, 3]⟩)).activate = (start, none) := rfl
  have hclosed : (start.performAll events).deactivate = (saved, none) := rfl
  have hquiet : start.Quiet same := by
    refine ⟨fun i v h => ?_, nofun, trivial⟩
    cases h
    rfl
  obtain ⟨hback, -, -⟩ := bytes_outlive_closing hopen events
  obtain ⟨again, hagain, -, hbytes⟩ := hback saved hclosed
  obtain ⟨hkept, -⟩ := (bytes_outlive_closing hopen same).2.1 [] same rfl (.inl rfl) hquiet
  obtain ⟨hsame, -, hdirty, -⟩ := (bytes_outlive_closing hopen refused).2.2 _ _ rfl
  refine ⟨hopen, hkept, ⟨hsame, hdirty⟩, hclosed, again, hagain, ?_, ?_⟩
  · rw [hbytes]
    decide +kernel
  · rw [hbytes]
    decide +kernel

end SaveFile
end Handheld
