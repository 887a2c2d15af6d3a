import Handheld.Proofs.Ppu.Pixels

/-!
Frames. From one entry of a vertical blank to the next, whatever is written on the way, every pixel
of the picture being drawn is put once and in order, and the picture shown does not change; the
entry then shows the pixels of that frame and no others.
-/

namespace Handheld.Ppu

theorem step_vblank {p : Ppu} (hon : p.lcdEnabled) :
    p.step.2.vblank = (p.dot == vblankDot) := by
  simp [step, hon]

/-- The frames a unit has completed and what it told its output. -/
structure Shown where
  frameCount : Nat
  video : Option VideoOutput

def shown (p : Ppu) : Shown := { frameCount := p.frameCount, video := p.video }

theorem frameCount_of_shown {p : Ppu} {s : Shown} (h : p.shown = s) :
    p.frameCount = s.frameCount := congrArg Shown.frameCount h

theorem nextDot_shown (p : Ppu) : p.nextDot.shown = p.shown := by
  unfold nextDot
  split <;> rfl

theorem step_shown {p : Ppu} (hon : p.lcdEnabled) : p.step.1.shown = p.drawDot.shown := by
  rw [step_of_on hon, nextDot_shown]
  rfl

theorem shiftOut_shown (p : Ppu) (x : Nat) : (p.shiftOut x).shown = p.shown := by
  unfold shiftOut
  dsimp only
  split <;> rfl

theorem transferCycle_shown (p : Ppu) : p.transferCycle.shown = p.shown := by
  rw [transferCycle_eq]
  split
  · rfl
  split
  · rfl
  unfold advance
  split
  · rfl
  split
  · rfl
  · exact shiftOut_shown _ _

theorem visibleDot_shown (p : Ppu) (n : Nat) : (p.visibleDot n).shown = p.shown := by
  unfold visibleDot
  split
  · rfl
  split
  · exact p.transferCycle_shown
  · rfl

theorem beginLine_shown (p : Ppu) {line : Nat} (h : line ≠ screenHeight) :
    (p.beginLine line).shown = p.shown := by
  unfold beginLine
  simp only [if_neg h]
  split <;> rfl

theorem drawDot_of_entry {p : Ppu} (hdot : p.dot = vblankDot) :
    p.drawDot = Ppu.enterVBlank { p with ly := UInt8.ofNat screenHeight } := by
  have hline : p.dot / dotsPerLine = screenHeight := by rw [hdot]; decide
  have hfirst : p.dot % dotsPerLine = 0 := by rw [hdot]; decide
  simp [drawDot, hline, hfirst, beginLine]

/-- The entry completes the picture drawn and hands it to the output. -/
theorem step_of_entry {p : Ppu} (hon : p.lcdEnabled) (hdot : p.dot = vblankDot) :
    p.step.1.frames = p.frames.promote ∧ p.step.1.shown =
      { frameCount := p.frameCount + 1
        video := p.video.map (·.tell (.frame p.step.1.frontBuffer)) } := by
  have hframes : p.step.1.frames = p.frames.promote := by
    rw [step_frames hon, drawDot_of_entry hdot]
    rfl
  refine ⟨hframes, ?_⟩
  rw [step_shown hon, drawDot_of_entry hdot, frontBuffer, hframes]
  rfl

theorem step_shown_of_other {p : Ppu} (hon : p.lcdEnabled) (hplace : p.dot ≠ vblankDot) :
    p.step.1.shown = p.shown := by
  have hbegun : (if p.dot % dotsPerLine = 0 then p.beginLine (p.dot / dotsPerLine)
      else p).shown = p.shown := by
    split
    case isTrue hfirst =>
      refine p.beginLine_shown fun hline => hplace ?_
      simp only [vblankDot, screenHeight, dotsPerLine] at hfirst hline ⊢; omega
    case isFalse => rfl
  rw [step_shown hon]
  unfold drawDot
  dsimp only
  split
  · rw [visibleDot_shown, hbegun]
  · exact hbegun

theorem perform_write_frames {p : Ppu} {a : Action} (hp : p.lcdEnabled) (h : a.keepsOn)
    (ha : a ≠ .step) : (p.perform a).frames = p.frames ∧ (p.perform a).shown = p.shown := by
  obtain ⟨_, _, _, _, _, _, hwrite, -⟩ := perform_write_changes hp h ha
  rw [hwrite]
  exact ⟨rfl, rfl⟩

theorem perform_write_drawing {p : Ppu} {a : Action} (h : p.Drawing) (hkeep : a.keepsOn)
    (ha : a ≠ .step) : (p.perform a).Drawing ∧ (p.perform a).drawn = p.drawn ∧
      (p.perform a).dot = p.dot := by
  obtain ⟨hprogress, hdot, hon⟩ := perform_write_frame h.on hkeep ha
  exact ⟨h.of_frame hprogress hdot hon, drawn_congr hprogress hdot, hdot⟩

def dotsLeft (p : Ppu) : Nat := (vblankDot + cyclesPerFrame - p.dot) % cyclesPerFrame

theorem dotsLeft_eq_zero {p : Ppu} (hdot : p.dot < cyclesPerFrame) :
    p.dotsLeft = 0 ↔ p.dot = vblankDot := by
  simp only [dotsLeft, vblankDot, cyclesPerFrame, screenHeight, dotsPerLine, linesPerFrame] at *
  omega

theorem step_dotsLeft {p : Ppu} (h : p.Drawing) (hplace : p.dot ≠ vblankDot) :
    p.step.1.dotsLeft + 1 = p.dotsLeft := by
  have hlt := h.schedule.dot_lt
  rw [dotsLeft, step_dot h.on, dotsLeft]
  by_cases hlast : p.dot + 1 = cyclesPerFrame
  · rw [if_pos hlast]
    simp only [vblankDot, cyclesPerFrame, screenHeight, dotsPerLine, linesPerFrame] at *; omega
  · rw [if_neg hlast]
    simp only [vblankDot, cyclesPerFrame, screenHeight, dotsPerLine, linesPerFrame] at *; omega

theorem step_dotsLeft_of_entry {p : Ppu} (h : p.Drawing) (hdot : p.dot = vblankDot) :
    p.step.1.dotsLeft = cyclesPerFrame - 1 := by
  rw [dotsLeft, step_dot h.on, hdot]
  decide

/-- What a run has drawn that came to no entry of a vertical blank. -/
structure Drew (p : Ppu) (actions : List Action) : Prop where
  drawing : (p.performAll actions).Drawing
  left : (p.performAll actions).dotsLeft + dotsOf actions = p.dotsLeft
  frameCount : (p.performAll actions).frameCount = p.frameCount
  frames : (p.performAll actions).frames = Put.applyAll (p.putsOver actions) p.frames
  drawn : (p.performAll actions).drawn = p.drawn + (p.putsOver actions).length
  places : (p.putsOver actions).map Put.place =
    (List.range' p.drawn (p.putsOver actions).length).map rasterPlace

theorem Drew.of_write {p : Ppu} {a : Action} {rest : List Action} (h : p.Drawing)
    (hkeep : a.keepsOn) (ha : a ≠ .step) (hrest : (p.perform a).Drew rest) :
    p.Drew (a :: rest) := by
  obtain ⟨-, hdrawn, hdot⟩ := perform_write_drawing h hkeep ha
  obtain ⟨hframes, hshown⟩ := perform_write_frames h.on hkeep ha
  have hcount : (p.perform a).frameCount = p.frameCount := frameCount_of_shown hshown
  have hleft : (p.perform a).dotsLeft = p.dotsLeft := by rw [dotsLeft, dotsLeft, hdot]
  refine ⟨hrest.drawing, ?_, hrest.frameCount.trans hcount, ?_, ?_, ?_⟩
  · rw [dotsOf_write ha, ← hleft]
    exact hrest.left
  all_goals rw [putsOver_write ha]
  · rw [← hframes]
    exact hrest.frames
  · rw [← hdrawn]
    exact hrest.drawn
  · rw [← hdrawn]
    exact hrest.places

theorem Drew.of_step {p : Ppu} {rest : List Action} (h : p.Drawing) (hplace : p.dot ≠ vblankDot)
    (hrest : p.step.1.Drew rest) : p.Drew (.step :: rest) := by
  have hleft : (p.step.1.performAll rest).dotsLeft + dotsOf (.step :: rest) = p.dotsLeft := by
    have hfirst := step_dotsLeft h hplace
    have hlater := hrest.left
    rw [dotsOf_step]
    omega
  have hcount := hrest.frameCount.trans (frameCount_of_shown (step_shown_of_other h.on hplace))
  have hputs : p.putsOver (.step :: rest) = p.nextPut?.toList ++ p.step.1.putsOver rest := rfl
  cases putStep h hplace with
  | wait hput hframes hdrawn =>
    rw [hput, Option.toList_none, List.nil_append] at hputs
    refine ⟨hrest.drawing, hleft, hcount, ?_, ?_, ?_⟩
    · rw [hputs, ← hframes]
      exact hrest.frames
    · rw [hputs, ← hdrawn]
      exact hrest.drawn
    · rw [hputs, ← hdrawn]
      exact hrest.places
  | put hput hframes hfirst hdrawn =>
    rw [hput, Option.toList_some, List.singleton_append] at hputs
    refine ⟨hrest.drawing, hleft, hcount, ?_, ?_, ?_⟩
    · rw [hputs, Put.applyAll_cons, ← hframes]
      exact hrest.frames
    · rw [hputs, List.length_cons, ← Nat.add_assoc, Nat.add_right_comm, ← hdrawn]
      exact hrest.drawn
    · rw [hputs, List.map_cons, List.length_cons, List.range'_succ, List.map_cons, hfirst, ← hdrawn,
        hrest.places]

theorem performAll_drew {p : Ppu} {actions : List Action} (h : p.Drawing)
    (hkeep : ∀ a ∈ actions, a.keepsOn) (hdots : dotsOf actions ≤ p.dotsLeft) : p.Drew actions := by
  induction actions generalizing p with
  | nil => exact ⟨h, rfl, rfl, rfl, rfl, rfl⟩
  | cons a rest ih =>
    have hkeep' : ∀ b ∈ rest, b.keepsOn := fun b hb => hkeep b (by simp [hb])
    by_cases ha : a = .step
    · subst ha
      rw [dotsOf_step] at hdots
      have hplace : p.dot ≠ vblankDot := by
        intro hentry
        rw [(dotsLeft_eq_zero h.schedule.dot_lt).mpr hentry] at hdots
        omega
      have hleft := step_dotsLeft h hplace
      exact .of_step h hplace (ih h.step hkeep' (by omega))
    · obtain ⟨hdrawing, -, hdot⟩ := perform_write_drawing h (hkeep a (by simp)) ha
      rw [dotsOf_write ha] at hdots
      have hleft : (p.perform a).dotsLeft = p.dotsLeft := by rw [dotsLeft, dotsLeft, hdot]
      exact .of_write h (hkeep a (by simp)) ha (ih hdrawing hkeep' (by omega))

theorem performAll_frameCount {p : Ppu} {actions : List Action} (h : p.Drawing)
    (hkeep : ∀ a ∈ actions, a.keepsOn) :
    (p.performAll actions).Drawing ∧ (p.performAll actions).frameCount =
      p.frameCount + (dotsOf actions + (cyclesPerFrame - 1 - p.dotsLeft)) / cyclesPerFrame := by
  induction actions generalizing p with
  | nil =>
    have hpos : 0 < cyclesPerFrame := by decide
    refine ⟨h, ?_⟩
    rw [dotsOf_nil, Nat.zero_add, Nat.div_eq_of_lt (by omega)]
    rfl
  | cons a rest ih =>
    have hkeep' : ∀ b ∈ rest, b.keepsOn := fun b hb => hkeep b (by simp [hb])
    by_cases ha : a = .step
    · subst ha
      obtain ⟨hdrawing, hcount⟩ := ih h.step hkeep'
      refine ⟨hdrawing, hcount.trans ?_⟩
      have hlt := h.schedule.dot_lt
      by_cases hplace : p.dot = vblankDot
      · have hleft := (dotsLeft_eq_zero hlt).mpr hplace
        have hfirst : p.step.1.frameCount = p.frameCount + 1 :=
          frameCount_of_shown (step_of_entry h.on hplace).2
        rw [step_dotsLeft_of_entry h hplace, hfirst, hleft, dotsOf_step]
        simp only [cyclesPerFrame, dotsPerLine, linesPerFrame]; omega
      · have hleft := step_dotsLeft h hplace
        have hmost : p.dotsLeft < cyclesPerFrame := Nat.mod_lt _ (by decide)
        have hfirst : p.step.1.frameCount = p.frameCount :=
          frameCount_of_shown (step_shown_of_other h.on hplace)
        rw [hfirst, dotsOf_step]
        congr 2
        omega
    · obtain ⟨hdrawing, -, hdot⟩ := perform_write_drawing h (hkeep a (by simp)) ha
      have hleft : (p.perform a).dotsLeft = p.dotsLeft := by rw [dotsLeft, dotsLeft, hdot]
      obtain ⟨hdrawing', hcount⟩ := ih hdrawing hkeep'
      have hfirst : (p.perform a).frameCount = p.frameCount :=
        frameCount_of_shown (perform_write_frames h.on (hkeep a (by simp)) ha).2
      rw [hfirst, hleft] at hcount
      rw [dotsOf_write ha]
      exact ⟨hdrawing', hcount⟩

/-- Dots from the start of a frame up to and with the one that enters the `k`-th vertical blank. -/
def dotsToVBlank : Nat → Nat
  | 0 => 0
  | k + 1 => vblankDot + 1 + k * cyclesPerFrame

theorem frame_start {p : Ppu} {k : Nat} (hdot : p.dot = dotsToVBlank k % cyclesPerFrame) :
    p.drawn = 0 ∧ dotsToVBlank k + p.dotsLeft + 1 = dotsToVBlank (k + 1) := by
  cases k with
  | zero =>
    have hfirst : p.dot = 0 := hdot
    rw [drawn_of_search (by omega) (by rw [hfirst]; decide), dotsLeft, hfirst]
    exact ⟨by decide, by decide⟩
  | succ k =>
    have hafter : p.dot = vblankDot + 1 := by
      rw [hdot, dotsToVBlank, Nat.add_mul_mod_self_right]
      decide
    refine ⟨drawn_of_vblank (by omega), ?_⟩
    have hleft : p.dotsLeft = cyclesPerFrame - 1 := by rw [dotsLeft, hafter]; decide
    rw [hleft, dotsToVBlank, dotsToVBlank, Nat.succ_mul]
    simp only [cyclesPerFrame, dotsPerLine, linesPerFrame]; omega

theorem frames_of_start {k : Nat} :
    (dotsToVBlank k + (cyclesPerFrame - 1 - vblankDot)) / cyclesPerFrame = k := by
  cases k with
  | zero => decide
  | succ k =>
    simp only [dotsToVBlank, vblankDot, screenHeight, cyclesPerFrame, dotsPerLine, linesPerFrame]
    omega

theorem Drew.pixels {p : Ppu} {actions : List Action} (h : p.Drew actions)
    (hstart : p.drawn = 0) (hend : (p.performAll actions).dot = vblankDot) :
    (p.putsOver actions).map Put.place = raster := by
  have hdrawn : (p.performAll actions).drawn = pixelCount := by
    rw [drawn_of_search (Nat.le_of_eq hend) (by rw [hend]; decide), hend]
    decide
  have hlength : (p.putsOver actions).length = pixelCount := by
    rw [← hdrawn, h.drawn, hstart, Nat.zero_add]
  rw [h.places, hstart, hlength, raster_eq, List.range_eq_range']

/-- Where the places put are those of a whole picture, it shows what was put and nothing else. -/
theorem shown_of_raster {puts : List Put} (hplaces : puts.map Put.place = raster)
    (f : FrameBuffers) {x y : Nat} (hx : x < screenWidth) (hy : y < screenHeight) :
    ∃ put ∈ puts, put.place = (x, y) ∧ (Put.applyAll puts f).back.get x y = put.color := by
  have hmem : (x, y) ∈ puts.map Put.place := by
    rw [hplaces]
    exact mem_raster.mpr ⟨hx, hy⟩
  obtain ⟨put, hput, hplace⟩ := List.mem_map.mp hmem
  have hscreen : ∀ put ∈ puts, put.OnScreen := by
    intro put hput
    rw [Put.OnScreen, ← hplaces]
    exact List.mem_map_of_mem hput
  have honce : (puts.map Put.place).Nodup := hplaces ▸ raster_nodup
  obtain ⟨rfl, rfl⟩ := Prod.mk.inj hplace
  exact ⟨put, hput, hplace, Put.applyAll_get hscreen honce hput f⟩

/-- From the dot on which the display is switched on, and for as long as it stays on, between the
`k`-th entry of a vertical blank (or the start) and the next, every pixel is put into the picture
being drawn exactly once, in order, while the picture shown stays what it was; the picture that the
next entry shows has at every place the color put there in this frame. -/
theorem every_frame_drawn_once {p : Ppu} (hon : p.lcdEnabled) (hdot : p.dot = 0)
    {before frame : List Action} (hkeep : ∀ a ∈ before ++ frame, a.keepsOn) {k : Nat}
    (hbefore : dotsOf before = dotsToVBlank k)
    (hframe : dotsOf before + dotsOf frame + 1 = dotsToVBlank (k + 1)) :
    let start := p.performAll before
    let done := start.performAll frame
    let puts := start.putsOver frame
    start.frameCount = p.frameCount + k ∧
    (∀ pre, pre <+: frame →
      (start.performAll pre).frameCount = start.frameCount ∧
      (start.performAll pre).frames = Put.applyAll (start.putsOver pre) start.frames ∧
      (start.performAll pre).frontBuffer = start.frontBuffer) ∧
    puts.map Put.place = raster ∧
    done.step.2.vblank ∧ done.step.1.frameCount = start.frameCount + 1 ∧
    ∀ x < screenWidth, ∀ y < screenHeight, ∃ put ∈ puts,
      put.place = (x, y) ∧ done.step.1.frontBuffer.get x y = put.color := by
  intro start done puts
  have hkeepBefore : ∀ a ∈ before, a.keepsOn := fun a ha => hkeep a (by simp [ha])
  have hkeepFrame : ∀ a ∈ frame, a.keepsOn := fun a ha => hkeep a (by simp [ha])
  have hplace : start.dot = dotsToVBlank k % cyclesPerFrame := by
    rw [← hbefore]
    simpa [hdot] using performAll_dot hon (by rw [hdot]; decide) hkeepBefore
  obtain ⟨hdrawing, hentries⟩ :=
    performAll_frameCount (drawing_of_dot_eq_zero hon hdot) hkeepBefore
  have hcount : start.frameCount = p.frameCount + k := by
    have hleft : p.dotsLeft = vblankDot := by rw [dotsLeft, hdot]; decide
    rw [hbefore, hleft, frames_of_start] at hentries
    exact hentries
  obtain ⟨hnone, hleft⟩ := frame_start hplace
  have hdrew : ∀ pre, pre <+: frame → start.Drew pre := by
    rintro pre ⟨tail, rfl⟩
    refine performAll_drew hdrawing (fun a ha => hkeepFrame a (by simp [ha])) ?_
    rw [dotsOf_append] at hframe
    omega
  have hwhole := hdrew frame List.prefix_rfl
  have hdone : done.dot = vblankDot := by
    have hlast := hwhole.left
    exact (dotsLeft_eq_zero hwhole.drawing.schedule.dot_lt).mp (by omega)
  obtain ⟨hpromoted, hshown⟩ := step_of_entry hwhole.drawing.on hdone
  have hnext : done.step.1.frameCount = done.frameCount + 1 := frameCount_of_shown hshown
  have hplaces : puts.map Put.place = raster := hwhole.pixels hnone hdone
  refine ⟨hcount,
    fun pre hpre => ⟨(hdrew pre hpre).frameCount, (hdrew pre hpre).frames, ?_⟩, hplaces,
    ?_, hnext.trans (congrArg (· + 1) hwhole.frameCount), fun x hx y hy => ?_⟩
  · rw [frontBuffer, (hdrew pre hpre).frames]
    exact Put.applyAll_front _ _
  · rw [step_vblank hwhole.drawing.on, hdone]
    rfl
  · rw [frontBuffer, hpromoted, hwhole.frames]
    exact shown_of_raster hplaces start.frames hx hy

theorem dotsOf_replicate (n : Nat) : dotsOf (List.replicate n .step) = n :=
  List.count_replicate_self

theorem keepsOn_of_steps {n : Nat} {a : Action} (h : a ∈ List.replicate n .step) : a.keepsOn := by
  rw [List.eq_of_mem_replicate h]
  rfl

def booted : Ppu := afterBoot { model := .color }

def firstFrame : List Action := List.replicate (vblankDot + 1) .step

def disturbances : List Action :=
  [.writeVram 0x9800 1, .writeOam 0 16, .writeRegister 0xFF4B 7]

/-- The frame after it, with a map cell and a sprite written and the window moved in the middle of
a line. -/
def secondFrame : List Action :=
  List.replicate 30000 .step ++ (disturbances ++ List.replicate 40223 .step)

theorem frames_keepOn : ∀ a ∈ firstFrame ++ secondFrame, a.keepsOn := by
  intro a ha
  rcases List.mem_append.mp ha with hfirst | hsecond
  · exact keepsOn_of_steps hfirst
  rcases List.mem_append.mp hsecond with hbegun | hrest
  · exact keepsOn_of_steps hbegun
  rcases List.mem_append.mp hrest with hwritten | hended
  · have hall : ∀ b ∈ disturbances, b.keepsOn := by decide
    exact hall a hwritten
  · exact keepsOn_of_steps hended

theorem dotsOf_firstFrame : dotsOf firstFrame = dotsToVBlank 1 := by
  rw [firstFrame, dotsOf_replicate]
  decide

theorem dotsOf_secondFrame : dotsOf secondFrame = 70223 := by
  have hwrites : dotsOf disturbances = 0 := by decide
  rw [secondFrame, dotsOf_append, dotsOf_append, dotsOf_replicate, dotsOf_replicate, hwrites]

theorem secondFrame_drawn_once :
    booted.lcdEnabled ∧ booted.dot = 0 ∧ (∀ a ∈ firstFrame ++ secondFrame, a.keepsOn) ∧
      dotsOf firstFrame = dotsToVBlank 1 ∧
      dotsOf firstFrame + dotsOf secondFrame + 1 = dotsToVBlank 2 ∧
      (booted.performAll firstFrame).frameCount = booted.frameCount + 1 ∧
      (∀ pre, pre <+: secondFrame →
        ((booted.performAll firstFrame).performAll pre).frontBuffer =
          (booted.performAll firstFrame).frontBuffer) ∧
      ((booted.performAll firstFrame).putsOver secondFrame).map Put.place = raster ∧
      ∀ x < screenWidth, ∀ y < screenHeight,
        ∃ put ∈ (booted.performAll firstFrame).putsOver secondFrame, put.place = (x, y) ∧
          ((booted.performAll firstFrame).performAll secondFrame).step.1.frontBuffer.get x y =
            put.color := by
  have hon : booted.lcdEnabled := by decide
  have hframe : dotsOf firstFrame + dotsOf secondFrame + 1 = dotsToVBlank 2 := by
    rw [dotsOf_firstFrame, dotsOf_secondFrame]
    decide
  obtain ⟨hcount, hinside, hplaces, -, -, hshown⟩ :=
    every_frame_drawn_once (p := booted) (k := 1) hon rfl frames_keepOn dotsOf_firstFrame hframe
  exact ⟨hon, rfl, frames_keepOn, dotsOf_firstFrame, hframe, hcount,
    fun pre hpre => (hinside pre hpre).2.2, hplaces, hshown⟩

end Handheld.Ppu
