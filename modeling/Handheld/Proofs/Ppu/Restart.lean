import Handheld.Proofs.Ppu.EveryFrame

/-!
A display that is switched off keeps nothing of the picture it was drawing. Two units in which a
program has written the same go the same way once their displays were switched off, wherever in
the frame that was; only the coincidence bit waits for the next dot of a display that is on.
-/

namespace Handheld

theorem Fetcher.tick_place (f : Fetcher) (first second : UInt8) (vram : Vram) (oam : Oam) :
    let other := (({ f with first, second } : Fetcher).tick vram oam).1
    other = { (f.tick vram oam).1 with first := other.first, second := other.second } := by
  obtain ⟨source, elapsed, _, _⟩ := f
  cases source with
  | none => rfl
  | some source =>
    unfold tick
    dsimp only
    split <;> rfl

namespace Ppu

/-- A unit with the parts of another that its own course does not depend on. -/
def leaving (p t : Ppu) : Ppu :=
  { p with
    coincidence := t.coincidence
    statLine := t.statLine
    lineSprites := { p.lineSprites with height := t.lineSprites.height }
    fetcher := { p.fetcher with first := t.fetcher.first, second := t.fetcher.second }
    lastTransferCycles := t.lastTransferCycles
    video := t.video
    frameCount := t.frameCount
    hblankCount := t.hblankCount }

/-- Two units go the same way. The height of sprites is of use while there are sprites, and the
signal of the status sources while the display is on. -/
structure Alike (p q : Ppu) : Prop where
  same : q = p.leaving q
  height : p.lineSprites.slots = [] ∨ q.lineSprites.height = p.lineSprites.height
  line : p.lcdEnabled → q.statLine = p.statLine

theorem writeControl_switchOff {p : Ppu} {v : UInt8} (hp : p.lcdEnabled)
    (hv : (v &&& 0x80 != 0) = false) :
    p.writeControl v = disableLcd { p with registers := { p.registers with lcdc := v } } := by
  have hoff : Ppu.lcdEnabled { p with registers := { p.registers with lcdc := v } } = false := hv
  simp [writeControl, hp, hoff]

namespace Alike
variable {p q : Ppu}

theorem agree {α : Type} (h : Alike p q) (f : Ppu → α) (hf : f (p.leaving q) = f p) :
    f q = f p := (congrArg f h.same).trans hf

theorem branch {c : Prop} [Decidable c] {p' q' : Ppu} (hyes : c → Alike p q)
    (hno : ¬c → Alike p' q') : Alike (if c then p else p') (if c then q else q') := by
  split
  case isTrue hc => exact hyes hc
  case isFalse hc => exact hno hc

theorem beginTransfer (h : Alike p q) : Alike p.beginTransfer q.beginTransfer := by
  obtain ⟨t, rfl⟩ : ∃ t, q = p.leaving t := ⟨q, h.same⟩
  exact ⟨rfl, .inr rfl, h.line⟩

theorem spritePixel? (h : Alike p q) (x : Nat) : q.spritePixel? x = p.spritePixel? x := by
  obtain ⟨t, rfl⟩ : ∃ t, q = p.leaving t := ⟨q, h.same⟩
  rcases h.height with hnone | hheight
  · have hnone' : (p.leaving t).lineSprites.slots = [] := hnone
    rw [Ppu.spritePixel?, Ppu.spritePixel?, hnone, hnone']
    rfl
  · have haddress (s : Sprite) : (p.leaving t).spriteAddress s = p.spriteAddress s := by
      unfold spriteAddress spriteTile spriteRow
      rw [hheight]
      rfl
    unfold Ppu.spritePixel? spriteNumber
    simp only [haddress]
    rfl

theorem drawPixel (h : Alike p q) (x : Nat) : Alike (p.drawPixel x) (q.drawPixel x) := by
  have hsprite := h.spritePixel? x
  obtain ⟨t, rfl⟩ : ∃ t, q = p.leaving t := ⟨q, h.same⟩
  have hcolor (bg : BackgroundPixel) : (p.leaving t).composed x bg = p.composed x bg := by
    unfold composed
    rw [hsprite]
    rfl
  refine ⟨?_, h.height, h.line⟩
  unfold Ppu.drawPixel
  simp only [hcolor]
  rfl

theorem moveTo (h : Alike p q) (x : Nat) :
    Alike { p with transfer := { p.transfer with x } } { q with transfer := { q.transfer with x } } := by
  obtain ⟨t, rfl⟩ : ∃ t, q = p.leaving t := ⟨q, h.same⟩
  exact ⟨rfl, h.height, h.line⟩

theorem finishTransfer (h : Alike p q) : Alike p.finishTransfer q.finishTransfer := by
  obtain ⟨t, rfl⟩ : ∃ t, q = p.leaving t := ⟨q, h.same⟩
  exact ⟨rfl, h.height, h.line⟩

theorem shiftOut (h : Alike p q) (x : Nat) : Alike (p.shiftOut x) (q.shiftOut x) :=
  have hmoved := (h.drawPixel x).moveTo (x + 1)
  branch (fun _ => hmoved.finishTransfer) fun _ => hmoved

theorem advance (h : Alike p q) (x : Nat) : Alike (p.advance x) (q.advance x) := by
  have hshifted := h.shiftOut x
  obtain ⟨t, rfl⟩ : ∃ t, q = p.leaving t := ⟨q, h.same⟩
  refine branch (fun _ => ⟨rfl, h.height, h.line⟩) (fun _ => ?_)
  have hwaiting : (p.leaving t).waitingSprite? x = p.waitingSprite? x := rfl
  rw [hwaiting]
  cases p.waitingSprite? x with
  | some slot => exact ⟨rfl, h.height, h.line⟩
  | none => exact hshifted

theorem transferCycle (h : Alike p q) : Alike p.transferCycle q.transferCycle := by
  obtain ⟨t, rfl⟩ : ∃ t, q = p.leaving t := ⟨q, h.same⟩
  have hcounted : Alike p.countCycle (p.leaving t).countCycle := ⟨rfl, h.height, h.line⟩
  rw [transferCycle_eq, transferCycle_eq]
  refine branch (fun _ => ⟨?_, h.height, h.line⟩) fun _ =>
    branch (fun _ => ⟨rfl, h.height, h.line⟩) fun _ => hcounted.advance _
  have hplace := p.fetcher.tick_place t.fetcher.first t.fetcher.second p.vram p.oam
  exact congrArg (fun fetcher => { (p.leaving t).countCycle with fetcher }) hplace

theorem beginLine (h : Alike p q) (line : Nat) : Alike (p.beginLine line) (q.beginLine line) := by
  obtain ⟨t, rfl⟩ : ∃ t, q = p.leaving t := ⟨q, h.same⟩
  exact branch (fun _ => ⟨rfl, h.height, h.line⟩) fun _ =>
    branch (fun _ => ⟨rfl, h.height, h.line⟩) fun _ => ⟨rfl, h.height, h.line⟩

theorem visibleDot (h : Alike p q) (lineDot : Nat) :
    Alike (p.visibleDot lineDot) (q.visibleDot lineDot) := by
  have hmode := h.agree Ppu.mode rfl
  unfold Ppu.visibleDot
  rw [hmode]
  exact branch (fun _ => h.beginTransfer) fun _ => branch (fun _ => h.transferCycle) fun _ => h

theorem drawDot (h : Alike p q) : Alike p.drawDot q.drawDot := by
  have hdot := h.agree Ppu.dot rfl
  have hbegun := branch (c := p.dot % dotsPerLine = 0)
    (fun _ => h.beginLine (p.dot / dotsPerLine)) fun _ => h
  unfold Ppu.drawDot
  rw [hdot]
  exact branch (fun _ => hbegun.visibleDot _) fun _ => hbegun

theorem sampleStat (h : Alike p q) (hon : p.lcdEnabled) :
    Alike p.sampleStat.1 q.sampleStat.1 ∧ q.sampleStat.2 = p.sampleStat.2 := by
  have hline := h.line hon
  obtain ⟨t, rfl⟩ : ∃ t, q = p.leaving t := ⟨q, h.same⟩
  refine ⟨⟨rfl, h.height, fun _ => rfl⟩, ?_⟩
  unfold Ppu.sampleStat
  rw [hline]
  rfl

theorem nextDot (h : Alike p q) : Alike p.nextDot q.nextDot := by
  obtain ⟨t, rfl⟩ : ∃ t, q = p.leaving t := ⟨q, h.same⟩
  exact branch (fun _ => ⟨rfl, h.height, h.line⟩) fun _ => ⟨rfl, h.height, h.line⟩

theorem step (h : Alike p q) : Alike p.step.1 q.step.1 ∧ q.step.2 = p.step.2 := by
  have hon := h.agree lcdEnabled rfl
  cases hp : p.lcdEnabled with
  | false =>
    rw [hp] at hon
    rw [step_of_off hp, step_of_off hon]
    exact ⟨h, by simp [Ppu.step, hp, hon]⟩
  | true =>
    rw [hp] at hon
    have hdrawn : p.drawDot.lcdEnabled := (lcdEnabled_eq_of_contents p.drawDot_frame.1).trans hp
    obtain ⟨hsampled, hrises⟩ := h.drawDot.sampleStat hdrawn
    have hdot := h.agree Ppu.dot rfl
    rw [step_of_on hp, step_of_on hon]
    refine ⟨hsampled.nextDot, ?_⟩
    simp [Ppu.step, hp, hon, hrises, hdot]

theorem writeControl (h : Alike p q) (v : UInt8) : Alike (p.writeControl v) (q.writeControl v) := by
  obtain ⟨t, rfl⟩ : ∃ t, q = p.leaving t := ⟨q, h.same⟩
  unfold Ppu.writeControl
  dsimp only
  refine branch (fun hoff => ⟨rfl, .inl rfl, fun hon => ?_⟩) fun _ =>
    branch (fun _ => ⟨rfl, h.height, fun _ => rfl⟩) fun hstays =>
      ⟨rfl, h.height, fun hon => h.line ?_⟩
  · rw [Bool.and_eq_true, Bool.not_eq_true'] at hoff
    exact absurd (hoff.2.symm.trans hon) (by decide)
  · cases hp : p.lcdEnabled with
    | true => rfl
    | false =>
      refine absurd ?_ hstays
      rw [hp]
      exact hon

theorem writeRegister (h : Alike p q) (address : UInt16) (v : UInt8) :
    Alike (p.writeRegister address v) (q.writeRegister address v) := by
  have hcontrol := h.writeControl v
  obtain ⟨t, rfl⟩ : ∃ t, q = p.leaving t := ⟨q, h.same⟩
  unfold Ppu.writeRegister
  split
  case h_1 => exact hcontrol
  case h_12 =>
    refine branch (fun _ => ?_) fun _ => h
    unfold writeColorRegister
    split <;> exact ⟨rfl, h.height, h.line⟩
  all_goals exact ⟨rfl, h.height, h.line⟩

theorem perform (h : Alike p q) (a : Action) : Alike (p.perform a) (q.perform a) := by
  cases a with
  | step => exact h.step.1
  | writeRegister address v => exact h.writeRegister address v
  | writeVram address v | writeOam address v =>
    obtain ⟨t, rfl⟩ : ∃ t, q = p.leaving t := ⟨q, h.same⟩
    exact ⟨rfl, h.height, h.line⟩

theorem performAll (h : Alike p q) (actions : List Action) :
    Alike (p.performAll actions) (q.performAll actions) := by
  induction actions generalizing p q with
  | nil => exact h
  | cons a rest ih => exact ih (h.perform a)

theorem of_switchOff (hp : p.lcdEnabled) (hq : q.lcdEnabled) (hcontents : q.contents = p.contents)
    (hshades : q.shades = p.shades) {off : UInt8} (hoff : (off &&& 0x80 != 0) = false) :
    Alike (p.writeControl off) (q.writeControl off) := by
  rw [writeControl_switchOff hp hoff, writeControl_switchOff hq hoff]
  obtain ⟨model, registers, vram, vramBank, oam, backgroundPalettes, objectPalettes, shades⟩ := p
  obtain ⟨⟩ := q
  simp only [contents, Contents.mk.injEq] at hcontents
  obtain ⟨rfl, rfl, rfl, rfl, rfl, rfl, rfl⟩ := hcontents
  cases hshades
  exact ⟨rfl, .inl rfl, fun hon => absurd (hoff.symm.trans hon) (by decide)⟩

end Alike

def requestsOver (p : Ppu) : List Action → List PpuSignals
  | [] => []
  | .step :: rest => p.step.2 :: p.step.1.requestsOver rest
  | a :: rest => (p.perform a).requestsOver rest

theorem Alike.requestsOver {p q : Ppu} (h : Alike p q) (actions : List Action) :
    q.requestsOver actions = p.requestsOver actions := by
  induction actions generalizing p q with
  | nil => rfl
  | cons a rest ih =>
    have hrest := ih (h.perform a)
    cases a with
    | step => exact congrArg₂ List.cons h.step.2 hrest
    | writeVram | writeOam | writeRegister => exact hrest

def told (p : Ppu) : Action → List VideoEvent
  | .step => if p.lcdEnabled && p.dot == vblankDot then [.frame p.step.1.frontBuffer] else []
  | .writeRegister address v =>
    if address == 0xFF40 && p.lcdEnabled && v &&& 0x80 == 0 then
      [.frame (p.writeControl v).frontBuffer, .blit]
    else []
  | _ => []

def toldOver (p : Ppu) : List Action → List VideoEvent
  | [] => []
  | a :: rest => p.told a ++ (p.perform a).toldOver rest

theorem showing_video (p : Ppu) :
    let shown := (p.tellVideo (.frame p.frontBuffer)).tellVideo .blit
    shown.video = p.video.map fun out => (out.tell (.frame shown.frontBuffer)).tell .blit :=
  Option.map_map ..

theorem disableLcd_video (p : Ppu) : p.disableLcd.video =
    p.video.map fun out => (out.tell (.frame p.disableLcd.frontBuffer)).tell .blit :=
  showing_video
    { p with
      mode := .hblank
      ly := 0
      dot := 0
      windowLine := 0
      transfer := {}
      fetcher := p.fetcher.cancel
      lineSprites := p.lineSprites.clear
      frames := p.frames.fill p.blankColor }

theorem writeControl_video (p : Ppu) (v : UInt8) : (p.writeControl v).video =
    p.video.map fun out => (p.told (.writeRegister 0xFF40 v)).foldl VideoOutput.tell out := by
  by_cases hoff : p.lcdEnabled ∧ (v &&& 0x80 != 0) = false
  · have htold : p.told (.writeRegister 0xFF40 v) =
        [.frame (p.writeControl v).frontBuffer, .blit] := by
      simp_all [told]
    have hswitch := writeControl_switchOff hoff.1 hoff.2
    rw [htold]
    generalize p.writeControl v = q at hswitch ⊢
    rw [hswitch, disableLcd_video]
    simp only [List.foldl_cons, List.foldl_nil]
  · have hnone : p.told (.writeRegister 0xFF40 v) = [] := by
      cases hp : p.lcdEnabled <;> simp_all [told]
    have hkept : (p.writeControl v).video = p.video := by
      cases hp : p.lcdEnabled with
      | true => rw [writeControl_of_on hp (by simpa [hp] using hoff)]
      | false =>
        unfold writeControl
        simp only [hp, Bool.false_and, Bool.false_eq_true, if_false]
        split <;> rfl
    simp [hnone, hkept]

theorem writeRegister_of_other (p : Ppu) {address : UInt16} (h : address ≠ 0xFF40) (v : UInt8) :
    (p.writeRegister address v).video = p.video ∧
      (p.writeRegister address v).coincidence = p.coincidence := by
  obtain ⟨_, _, _, _, hwrite, -⟩ := p.writeRegister_changes v h
  rw [hwrite]
  exact ⟨rfl, rfl⟩

theorem step_video (p : Ppu) :
    p.step.1.video = p.video.map fun out => (p.told .step).foldl VideoOutput.tell out := by
  cases hon : p.lcdEnabled with
  | false => simp [step_of_off hon, told, hon]
  | true =>
    by_cases hplace : p.dot = vblankDot
    · obtain ⟨-, hshown⟩ := step_of_entry hon hplace
      have hvideo : p.step.1.video = p.video.map (·.tell (.frame p.step.1.frontBuffer)) :=
        congrArg Shown.video hshown
      simpa [told, hon, hplace] using hvideo
    · have hvideo : p.step.1.video = p.video :=
        congrArg Shown.video (step_shown_of_other hon hplace)
      simpa [told, hplace] using hvideo

theorem perform_video (p : Ppu) (a : Action) :
    (p.perform a).video = p.video.map fun out => (p.told a).foldl VideoOutput.tell out := by
  cases a with
  | step => exact p.step_video
  | writeVram | writeOam => simp [perform, writeVram, writeOam, told]
  | writeRegister address v =>
    by_cases haddress : address = 0xFF40
    · subst haddress
      exact p.writeControl_video v
    · simp [perform, p.writeRegister_of_other haddress v, told, haddress]

theorem performAll_video (p : Ppu) (actions : List Action) :
    (p.performAll actions).video =
      p.video.map fun out => (p.toldOver actions).foldl VideoOutput.tell out := by
  induction actions generalizing p with
  | nil => simp [toldOver]
  | cons a rest ih =>
    rw [performAll_cons, ih, perform_video, Option.map_map]
    simp [toldOver, Function.comp_def, List.foldl_append]

theorem Alike.told {p q : Ppu} (h : Alike p q) (a : Action) : q.told a = p.told a := by
  have hon := h.agree lcdEnabled rfl
  have hdot := h.agree Ppu.dot rfl
  cases a with
  | step => rw [Ppu.told, Ppu.told, hon, hdot, h.step.1.agree frontBuffer rfl]
  | writeVram | writeOam => rfl
  | writeRegister address v =>
    rw [Ppu.told, Ppu.told, hon, (h.writeControl v).agree frontBuffer rfl]

theorem Alike.toldOver {p q : Ppu} (h : Alike p q) (actions : List Action) :
    q.toldOver actions = p.toldOver actions := by
  induction actions generalizing p q with
  | nil => rfl
  | cons a rest ih => rw [Ppu.toldOver, Ppu.toldOver, h.told a, ih (h.perform a)]

theorem step_coincidence {p : Ppu} (hon : p.lcdEnabled) :
    p.step.1.coincidence = (p.step.1.ly == p.step.1.registers.lyc) := by
  rw [step_of_on hon, Ppu.nextDot]
  split <;> rfl

theorem perform_coincidence (p : Ppu) {a : Action} (ha : a = .step → p.lcdEnabled = false) :
    (p.perform a).coincidence = p.coincidence := by
  cases a with
  | step => exact congrArg coincidence (step_of_off (ha rfl))
  | writeVram | writeOam => rfl
  | writeRegister address v =>
    by_cases haddress : address = 0xFF40
    · subst haddress
      change (p.writeControl v).coincidence = _
      unfold writeControl
      dsimp only
      split
      · rfl
      split <;> rfl
    · exact (p.writeRegister_of_other haddress v).2

theorem Alike.sampled {p q : Ppu} (h : Alike p q) (hon : p.lcdEnabled) :
    q.step.1.coincidence = p.step.1.coincidence := by
  have hon' := (h.agree lcdEnabled rfl).trans hon
  have hly := h.step.1.agree Ppu.ly rfl
  have hlyc := h.step.1.agree (·.registers.lyc) rfl
  rw [step_coincidence hon, step_coincidence hon', hly, hlyc]

theorem Alike.coincidence {p q : Ppu} (h : Alike p q) (actions : List Action)
    (hsame : q.coincidence = p.coincidence) :
    (q.performAll actions).coincidence = (p.performAll actions).coincidence := by
  induction actions generalizing p q with
  | nil => exact hsame
  | cons a rest ih =>
    refine ih (h.perform a) ?_
    by_cases hsampled : a = .step ∧ p.lcdEnabled
    · obtain ⟨rfl, hon⟩ := hsampled
      exact h.sampled hon
    · have hon := h.agree lcdEnabled rfl
      rw [perform_coincidence, perform_coincidence, hsame]
      · exact fun ha => by simp_all
      · exact fun ha => by simp_all

/-- The displays of two units in which a program has written the same are switched off and, after
anything that is done to both, their control registers are written again, to switch them on or not.
Whatever is done to both from then on, they show the same lines, modes, rows of the window and
pictures, request the same interrupts and tell their outputs the same; and once a dot was taken with
the display on, their status reads the same. -/
theorem restart_forgets_frame {p q : Ppu} (hp : p.lcdEnabled) (hq : q.lcdEnabled)
    (hcontents : q.contents = p.contents) (hshades : q.shades = p.shades) (off on : UInt8)
    (hoff : off &&& 0x80 = 0) (between further : List Action) :
    let restart : List Action :=
      .writeRegister 0xFF40 off :: (between ++ [.writeRegister 0xFF40 on])
    let p₁ := p.performAll restart
    let q₁ := q.performAll restart
    let p₂ := p₁.performAll further
    let q₂ := q₁.performAll further
    q₂.ly = p₂.ly ∧ q₂.mode = p₂.mode ∧ q₂.windowLine = p₂.windowLine ∧
      q₂.frontBuffer = p₂.frontBuffer ∧ q₁.requestsOver further = p₁.requestsOver further ∧
      (∃ events : List VideoEvent,
        p₂.video = p₁.video.map (fun out => events.foldl VideoOutput.tell out) ∧
        q₂.video = q₁.video.map (fun out => events.foldl VideoOutput.tell out)) ∧
      ∀ before after, further = before ++ .step :: after → (p₁.performAll before).lcdEnabled →
        q₂.readStat = p₂.readStat := by
  intro restart p₁ q₁ p₂ q₂
  have hoff' : (off &&& 0x80 != 0) = false := by simp [hoff]
  have hdark : Alike (p.perform (.writeRegister 0xFF40 off)) (q.perform (.writeRegister 0xFF40 off)) :=
    .of_switchOff hp hq hcontents hshades hoff'
  have hstart : Alike p₁ q₁ := hdark.performAll (between ++ [Action.writeRegister 0xFF40 on])
  have hend : Alike p₂ q₂ := hstart.performAll further
  refine ⟨hend.agree Ppu.ly rfl, hend.agree Ppu.mode rfl, hend.agree Ppu.windowLine rfl,
    hend.agree frontBuffer rfl, hstart.requestsOver further,
    ⟨p₁.toldOver further, p₁.performAll_video further, ?_⟩, ?_⟩
  · rw [← hstart.toldOver further]
    exact q₁.performAll_video further
  · rintro before after hsplit hlit
    have hbefore := hstart.performAll before
    have hsampled := hbefore.step.1.coincidence after (hbefore.sampled hlit)
    have hcoincidence : q₂.coincidence = p₂.coincidence := by
      change (q₁.performAll further).coincidence = (p₁.performAll further).coincidence
      rw [hsplit, performAll_append, performAll_append]
      exact hsampled
    have hmode := hend.agree Ppu.mode rfl
    have hstat := hend.agree (·.registers.stat) rfl
    have hlcd := hend.agree lcdEnabled rfl
    unfold readStat
    rw [hcoincidence, hmode, hstat, hlcd]

/-- A dot of a display that is off samples nothing: after it the coincidence bit still is what it was
when the display was switched off. -/
theorem stat_keeps_coincidence :
    let actions : List Action := [.writeRegister 0xFF40 0x11, .writeRegister 0xFF40 0x91,
      .writeRegister 0xFF40 0x11, .step]
    booted.lcdEnabled ∧ booted.step.1.lcdEnabled ∧ booted.step.1.contents = booted.contents ∧
      booted.step.1.shades = booted.shades ∧ (booted.performAll actions).readStat = 0x80 ∧
      (booted.step.1.performAll actions).readStat = 0x84 :=
  ⟨by decide, by decide +kernel, booted.step_contents, by decide +kernel, by decide +kernel,
    by decide +kernel⟩

theorem steps_contents (p : Ppu) (n : Nat) :
    (p.performAll (List.replicate n .step)).contents = p.contents := by
  induction n generalizing p with
  | zero => rfl
  | succ n ih => exact (ih p.step.1).trans p.step_contents

theorem transfer_forgotten :
    let q := booted.performAll (List.replicate 100 .step)
    let restart : List Action :=
      .writeRegister 0xFF40 0x11 :: ([.writeVram 0x8000 1] ++ [.writeRegister 0xFF40 0x91])
    booted.lcdEnabled ∧ q.lcdEnabled ∧ q.mode = .pixelTransfer ∧ q.contents = booted.contents ∧
      q.shades = booted.shades ∧ (0x11 &&& 0x80 : UInt8) = 0 ∧
      ((q.performAll restart).performAll [.step]).readStat =
        ((booted.performAll restart).performAll [.step]).readStat := by
  intro q restart
  have hq : q.lcdEnabled ∧ q.mode = .pixelTransfer ∧ q.shades = booted.shades := by decide +kernel
  have hcontents : q.contents = booted.contents := steps_contents booted 100
  have hforgets := restart_forgets_frame (p := booted) (q := q) (by decide) hq.1 hcontents hq.2.2
    0x11 0x91 (by decide) [.writeVram 0x8000 1] [.step]
  obtain ⟨-, -, -, -, -, -, hstat⟩ := hforgets
  exact ⟨by decide, hq.1, hq.2.1, hcontents, hq.2.2, by decide,
    hstat [] [] rfl (by decide +kernel)⟩

end Ppu
end Handheld
