import Handheld.Proofs.Ppu.Blank
import Handheld.Proofs.Ppu.Restart
import Handheld.Proofs.Ppu.Timeline

/-!
How often the status interrupt is requested. A display that stays on and lets one source ask
requests it once for each horizontal blank, for each search of the sprites, for the vertical blank or
for the line asked for, in every frame anew: between two rises the signal falls, whatever is written.
-/

namespace Handheld

inductive StatSource where
  | hblank
  | vblank
  | search
  | line
  deriving DecidableEq, Repr

namespace StatSource

def mask : StatSource → UInt8
  | .hblank => 0x08
  | .vblank => 0x10
  | .search => 0x20
  | .line => 0x40

def perFrame (lyc : UInt8) : StatSource → Nat
  | .hblank => 144
  | .vblank => 1
  | .search => 144
  | .line => if lyc ≤ 153 then 1 else 0

def level (p : Ppu) : StatSource → Bool
  | .hblank => p.mode == .hblank
  | .vblank => p.mode == .vblank
  | .search => p.mode == .oamSearch
  | .line => p.ly == p.registers.lyc

end StatSource

namespace Ppu

theorem statSignal_eq {p : Ppu} {s : StatSource} (h : p.registers.stat &&& 0x78 = s.mask) :
    p.statSignal (p.ly == p.registers.lyc) = s.level p := by
  have hbit (t : StatSource) : (p.registers.stat &&& t.mask != 0) = decide (s = t) := by
    have hmask : 0x78 &&& t.mask = t.mask := by cases t <;> rfl
    rw [← hmask, ← UInt8.and_assoc, h]
    cases s <;> cases t <;> decide
  have hhblank : (p.registers.stat &&& 0x08 != 0) = decide (s = .hblank) := hbit .hblank
  have hvblank : (p.registers.stat &&& 0x10 != 0) = decide (s = .vblank) := hbit .vblank
  have hsearch : (p.registers.stat &&& 0x20 != 0) = decide (s = .search) := hbit .search
  have hline : (p.registers.stat &&& 0x40 != 0) = decide (s = .line) := hbit .line
  rw [statSignal, hhblank, hvblank, hsearch, hline]
  cases s <;> cases hmode : p.mode <;> simp [StatSource.level, hmode]

theorem level_congr {p q : Ppu} (hprogress : q.progress = p.progress)
    (hlyc : q.registers.lyc = p.registers.lyc) (s : StatSource) : s.level q = s.level p := by
  have hmode : q.mode = p.mode := congrArg Progress.mode hprogress
  have hly : q.ly = p.ly := congrArg Progress.ly hprogress
  cases s <;> simp only [StatSource.level, hmode, hly, hlyc]

/-- A dot requests the interrupt when its source is active and was not on the dot before. -/
theorem step_stat {p : Ppu} (hon : p.lcdEnabled) {s : StatSource}
    (h : p.registers.stat &&& 0x78 = s.mask) :
    p.step.2.stat = (s.level p.step.1 && !p.statLine) ∧ p.step.1.statLine = s.level p.step.1 := by
  have hdrawn : p.drawDot.registers = p.registers := congrArg Contents.registers p.drawDot_frame.1
  have hregisters : p.step.1.registers = p.registers := congrArg Contents.registers p.step_contents
  have hlevel : s.level p.step.1 = s.level p.drawDot :=
    level_congr (step_progress hon) (by rw [hregisters, hdrawn]) s
  have hsignal := statSignal_eq (p := p.drawDot) (s := s) (by rw [hdrawn, h])
  have hrises : p.step.2.stat =
      (p.drawDot.statSignal (p.drawDot.ly == p.drawDot.registers.lyc) && !p.drawDot.statLine) := by
    rw [step, if_pos hon]
    rfl
  refine ⟨by rw [hrises, hsignal, hlevel, p.drawDot_frame.2.2], ?_⟩
  rw [hlevel, ← hsignal, step_of_on hon, nextDot]
  split <;> rfl

def blanksBefore (lines : Nat) : Nat := 144 * (lines / 154) + min (lines % 154) 144

/-- A display so many dots after it was switched on, when `base` horizontal blanks had been entered
before. -/
structure Framed (p : Ppu) (base n : Nat) : Prop extends p.After n where
  schedule : p.OnSchedule
  start : n = 0 → p.hblankCount = base
  visible : 0 < n → (n - 1) / dotsPerLine % linesPerFrame < screenHeight →
    p.progress.OnVisibleLine ((n - 1) % dotsPerLine + 1)
      (base + blanksBefore ((n - 1) / dotsPerLine))
  vblank : 0 < n → screenHeight ≤ (n - 1) / dotsPerLine % linesPerFrame →
    p.mode = .vblank ∧ p.hblankCount = base + blanksBefore ((n - 1) / dotsPerLine)

variable {p : Ppu} {base n : Nat}

theorem Framed.write (h : p.Framed base n) {a : Action} (hkeep : a.keepsOn) (ha : a ≠ .step) :
    (p.perform a).Framed base n := by
  obtain ⟨hprogress, hdot, hon⟩ := perform_write_frame h.on hkeep ha
  have hmode : (p.perform a).mode = p.mode := congrArg Progress.mode hprogress
  have hcount : (p.perform a).hblankCount = p.hblankCount := congrArg Progress.hblankCount hprogress
  refine ⟨h.toAfter.write hkeep ha, h.schedule.of_frame hprogress hdot, ?_, ?_, ?_⟩
  · rw [hcount]
    exact h.start
  · rw [hprogress]
    exact h.visible
  · rw [hmode, hcount]
    exact h.vblank

theorem Framed.count_of_first (h : p.Framed base n) (hfirst : n % dotsPerLine = 0) :
    p.hblankCount = base + blanksBefore (n / dotsPerLine) := by
  rcases Nat.eq_zero_or_pos n with rfl | hpos
  · exact h.start rfl
  have hlast : (n - 1) % dotsPerLine + 1 = dotsPerLine ∧
      n / dotsPerLine = (n - 1) / dotsPerLine + 1 := by
    simp only [dotsPerLine] at hfirst ⊢; omega
  rw [hlast.2]
  rcases Nat.lt_or_ge ((n - 1) / dotsPerLine % linesPerFrame) screenHeight with hline | hline
  · have hvisible := h.visible hpos hline
    rw [hlast.1] at hvisible
    have hcount : p.hblankCount = base + blanksBefore ((n - 1) / dotsPerLine) + 1 := by
      cases hvisible with
      | search hn => simp [searchDots, dotsPerLine] at hn
      | transfer cycles _ hn htransfer =>
        have hlt := htransfer.lt
        simp only [searchDots, dotsPerLine] at hn; omega
      | blank cycles _ _ hcount => exact hcount
    rw [hcount]
    simp only [blanksBefore, linesPerFrame, screenHeight] at *; omega
  · rw [(h.vblank hpos hline).2]
    simp only [blanksBefore, linesPerFrame, screenHeight] at *; omega

theorem Framed.place (h : p.Framed base n) :
    p.dot / dotsPerLine = n / dotsPerLine % linesPerFrame ∧ p.dot % dotsPerLine = n % dotsPerLine := by
  rw [h.dot]
  exact ⟨Nat.mod_mul_right_div_self .., Nat.mod_mul_right_mod ..⟩

theorem Framed.step (h : p.Framed base n) : p.step.1.Framed base (n + 1) := by
  obtain ⟨hline, hplace⟩ := h.place
  have hprogress := step_progress h.on
  have hmode : p.step.1.mode = p.drawDot.mode := congrArg Progress.mode hprogress
  have hcount : p.step.1.hblankCount = p.drawDot.hblankCount :=
    congrArg Progress.hblankCount hprogress
  refine ⟨h.toAfter.step, step_onSchedule h.on h.schedule, fun hzero => by omega, ?_, ?_⟩ <;>
    intro _ hkind <;> rw [Nat.add_sub_cancel] at hkind ⊢
  · rw [hprogress, ← hplace]
    refine drawDot_onVisibleLine (hline.symm ▸ hkind) ?_
    rcases Nat.eq_zero_or_pos (n % dotsPerLine) with hfirst | hlater
    · rw [hplace, hfirst]
      exact .search (Nat.zero_le _) (fun hpos => absurd hpos (by decide)) (h.count_of_first hfirst)
    · have hsame : (n - 1) / dotsPerLine = n / dotsPerLine ∧
          (n - 1) % dotsPerLine + 1 = n % dotsPerLine := by
        simp only [dotsPerLine] at hlater ⊢; omega
      have hvisible := h.visible (Nat.lt_of_lt_of_le hlater (Nat.mod_le ..)) (by rw [hsame.1]; exact hkind)
      rw [hsame.1, hsame.2] at hvisible
      rw [hplace]
      exact hvisible
  · rw [← hline] at hkind
    have hdot : vblankDot ≤ p.dot := by
      simp only [vblankDot, dotsPerLine, screenHeight] at hkind ⊢; omega
    obtain ⟨hsame, hentry, hstay⟩ := drawDot_of_vblank hdot
    rw [hmode, hcount, hsame]
    refine ⟨?_, ?_⟩
    · rcases Nat.lt_or_ge vblankDot p.dot with hinside | hfirst
      · exact hstay (h.schedule.vblank hinside)
      · exact hentry (by omega)
    · rcases Nat.eq_zero_or_pos (n % dotsPerLine) with hfirst | hlater
      · exact h.count_of_first hfirst
      · have hline' : (n - 1) / dotsPerLine = n / dotsPerLine := by
          simp only [dotsPerLine] at hlater ⊢; omega
        rw [← hline']
        exact (h.vblank (Nat.lt_of_lt_of_le hlater (Nat.mod_le ..)) (by rw [hline', ← hline]; exact hkind)).2

theorem Framed.search_level (h : p.Framed base n) (hpos : 0 < n) :
    StatSource.search.level p ↔
      (n - 1) / dotsPerLine % linesPerFrame < screenHeight ∧ (n - 1) % dotsPerLine < searchDots := by
  rw [StatSource.level, beq_iff_eq]
  rcases Nat.lt_or_ge ((n - 1) / dotsPerLine % linesPerFrame) screenHeight with hline | hline
  · rw [and_iff_right hline]
    cases h.visible hpos hline with
    | search hn hmode => exact ⟨fun _ => hn, fun _ => hmode (Nat.succ_pos _)⟩
    | transfer cycles hcycles hn htransfer =>
      have hmode : p.mode = .pixelTransfer := htransfer.mode
      rw [hmode]
      exact ⟨nofun, fun hin => by omega⟩
    | blank cycles hn htransferred =>
      have hmode : p.mode = .hblank := htransferred.mode
      have hfewest := htransferred.fewest
      rw [hmode]
      exact ⟨nofun, fun hin => by omega⟩
  · rw [(h.vblank hpos hline).1]
    exact ⟨nofun, fun hin => absurd hin.1 (Nat.not_lt.mpr hline)⟩

theorem Framed.vblank_level (h : p.Framed base n) (hpos : 0 < n) :
    StatSource.vblank.level p ↔ screenHeight ≤ (n - 1) / dotsPerLine % linesPerFrame := by
  rw [StatSource.level, beq_iff_eq]
  rcases Nat.lt_or_ge ((n - 1) / dotsPerLine % linesPerFrame) screenHeight with hline | hline
  · have hmode : p.mode ≠ .vblank := by
      cases h.visible hpos hline with
      | search hn hmode =>
        have hmode : p.mode = .oamSearch := hmode (Nat.succ_pos _)
        simp [hmode]
      | transfer cycles hcycles hn htransfer =>
        have hmode : p.mode = .pixelTransfer := htransfer.mode
        simp [hmode]
      | blank cycles hn htransferred =>
        have hmode : p.mode = .hblank := htransferred.mode
        simp [hmode]
    exact ⟨fun hin => absurd hin hmode, fun hin => absurd hline (Nat.not_lt.mpr hin)⟩
  · exact ⟨fun _ => hline, fun _ => (h.vblank hpos hline).1⟩

theorem Framed.line_level (h : p.Framed base n) (hpos : 0 < n) :
    StatSource.line.level p ↔ (n - 1) / dotsPerLine % linesPerFrame = p.registers.lyc.toNat := by
  have hfew : (n - 1) / dotsPerLine % linesPerFrame < 256 :=
    Nat.lt_trans (Nat.mod_lt _ (by decide : 0 < linesPerFrame)) (by decide)
  have hly : p.ly.toNat = (n - 1) / dotsPerLine % linesPerFrame := by
    rw [h.ly hpos]
    exact UInt8.toNat_ofNat_of_lt' hfew
  rw [StatSource.level, beq_iff_eq, ← hly]
  exact UInt8.toNat_inj.symm

theorem Framed.mode_of_first (h : p.Framed base n) (hpos : 0 < n)
    (hfirst : (n - 1) % dotsPerLine = 0) : p.mode ≠ .hblank := by
  rcases Nat.lt_or_ge ((n - 1) / dotsPerLine % linesPerFrame) screenHeight with hline | hline
  · have hsearch := (h.search_level hpos).mpr ⟨hline, by rw [hfirst]; decide⟩
    have hmode : p.mode = .oamSearch := eq_of_beq hsearch
    simp [hmode]
  · simp [(h.vblank hpos hline).1]

/-- A write that leaves the display on and touches neither the status register nor the line that is
asked for. -/
def Action.keepsSource (a : Action) : Bool :=
  a.keepsOn && match a with
    | .writeRegister address _ => address != 0xFF41 && address != 0xFF45
    | _ => true

/-- A display so many dots after it was switched on, with one source that may ask and the line asked
for. -/
structure Asking (s : StatSource) (lyc : UInt8) (base n : Nat) (p : Ppu) : Prop
    extends p.Framed base n where
  stat : p.registers.stat &&& 0x78 = s.mask
  lyc : p.registers.lyc = lyc
  signal : p.statLine = (decide (0 < n) && s.level p)

theorem perform_write_source {p : Ppu} {a : Action} (hp : p.lcdEnabled) (h : a.keepsSource)
    (ha : a ≠ .step) : (p.perform a).registers.stat = p.registers.stat ∧
      (p.perform a).registers.lyc = p.registers.lyc := by
  cases a with
  | step => exact absurd rfl ha
  | writeVram | writeOam => exact ⟨rfl, rfl⟩
  | writeRegister address v =>
    simp only [Action.keepsSource, Bool.and_eq_true, bne_iff_ne] at h
    obtain ⟨hon, hstat, hlyc⟩ := h
    by_cases haddress : address = 0xFF40
    · subst haddress
      have hv : v &&& 0x80 != 0 := by simpa [Action.keepsOn] using hon
      change (p.writeControl v).registers.stat = _ ∧ (p.writeControl v).registers.lyc = _
      rw [writeControl_of_on hp hv]
      exact ⟨rfl, rfl⟩
    · obtain ⟨_, _, _, _, hwrite, hsame⟩ := p.writeRegister_changes v haddress
      rw [perform, hwrite]
      exact ⟨hsame.stat hstat, hsame.lyc hlyc⟩

theorem Asking.write {s : StatSource} {lyc : UInt8} (h : Asking s lyc base n p) {a : Action}
    (hkeep : a.keepsSource) (ha : a ≠ .step) : Asking s lyc base n (p.perform a) := by
  have hon : a.keepsOn := (Bool.and_eq_true_iff.mp hkeep).1
  obtain ⟨hstat, hlyc⟩ := perform_write_source h.on hkeep ha
  have hsignal : (p.perform a).statLine = p.statLine := by
    obtain ⟨_, _, _, _, _, _, hwrite, -⟩ := perform_write_changes h.on hon ha
    rw [hwrite]
  have hlevel := level_congr (perform_write_frame h.on hon ha).1 hlyc s
  refine ⟨h.toFramed.write hon ha, hstat ▸ h.stat, hlyc.trans h.lyc, ?_⟩
  rw [hsignal, hlevel, h.signal]

theorem Asking.step {s : StatSource} {lyc : UInt8} (h : Asking s lyc base n p) :
    Asking s lyc base (n + 1) p.step.1 := by
  have hregisters : p.step.1.registers = p.registers := congrArg Contents.registers p.step_contents
  refine ⟨h.toFramed.step, by rw [hregisters, h.stat], by rw [hregisters, h.lyc], ?_⟩
  rw [(step_stat h.on h.stat).2, decide_eq_true n.succ_pos, Bool.true_and]

theorem Asking.request {s : StatSource} {lyc : UInt8} (h : Asking s lyc base n p) :
    p.step.2.stat ↔ s.level p.step.1 ∧ (0 < n → ¬ s.level p) := by
  rw [(step_stat h.on h.stat).1, h.signal]
  rcases Nat.eq_zero_or_pos n with hzero | hpos
  · simp [hzero]
  · simp [hpos]

theorem Asking.request_hblank {lyc : UInt8} (h : Asking .hblank lyc base n p) :
    p.step.1.hblankCount = p.hblankCount + p.step.2.stat.toNat := by
  cases step_blankStep h.on h.schedule with
  | stay hleft hmode hcount =>
    have hinside : p.mode = .hblank := by
      by_contra hother
      rw [blankLeft_of_mode hother] at hleft
      omega
    have hlater : 0 < n := by
      refine Nat.pos_of_ne_zero fun hzero => ?_
      have hfirst : p.dot % dotsPerLine = 0 := by rw [h.place.2, hzero]; rfl
      rw [blankLeft_of_start hfirst] at hleft
      omega
    have hquiet : p.step.2.stat = false := by
      rw [← Bool.not_eq_true, h.request]
      exact fun hrises => hrises.2 hlater (beq_iff_eq.mpr hinside)
    rw [hcount, hquiet]
    rfl
  | leave hleft hmode hcount =>
    have hquiet : p.step.2.stat = false := by
      rw [← Bool.not_eq_true, h.request]
      exact fun hrises => hmode (eq_of_beq hrises.1)
    rw [hcount, hquiet]
    rfl
  | enter hleft hmode hcount =>
    have houtside : p.mode ≠ .hblank := by
      intro hbefore
      have hfirst : n % dotsPerLine = 0 := by
        rw [← h.place.2]
        by_contra hinside
        have hlt : p.dot % dotsPerLine < dotsPerLine := Nat.mod_lt _ (by decide)
        rw [blankLeft_of_line hbefore (Nat.pos_of_ne_zero hinside)] at hleft
        omega
      exact h.toFramed.step.mode_of_first n.succ_pos hfirst hmode
    have hrises : p.step.2.stat = true :=
      h.request.mpr ⟨beq_iff_eq.mpr hmode, fun _ hbefore => houtside (eq_of_beq hbefore)⟩
    rw [hcount, hrises]
    rfl

theorem Asking.request_search {lyc : UInt8} (h : Asking .search lyc base n p) :
    p.step.2.stat ↔ n % 456 = 0 ∧ n / 456 % 154 < 144 := by
  rw [h.request, h.toFramed.step.search_level n.succ_pos,
    imp_congr_right fun hpos => not_congr (h.search_level hpos)]
  simp only [dotsPerLine, linesPerFrame, screenHeight, searchDots]
  omega

theorem Asking.request_vblank {lyc : UInt8} (h : Asking .vblank lyc base n p) :
    p.step.2.stat ↔ n % 70224 = 65664 := by
  rw [h.request, h.toFramed.step.vblank_level n.succ_pos,
    imp_congr_right fun hpos => not_congr (h.vblank_level hpos)]
  simp only [dotsPerLine, linesPerFrame, screenHeight]
  omega

theorem Asking.request_line {lyc : UInt8} (h : Asking .line lyc base n p) :
    p.step.2.stat ↔ n % 70224 = 456 * lyc.toNat := by
  rw [h.request, h.toFramed.step.line_level n.succ_pos, h.step.lyc,
    imp_congr_right fun hpos => not_congr (h.line_level hpos), h.lyc]
  simp only [dotsPerLine, linesPerFrame]
  omega

/-- Requests up to a place in the course of the frames, when so many horizontal blanks were
entered. -/
def requestsBefore (lyc : UInt8) (blanks n : Nat) : StatSource → Nat
  | .hblank => blanks
  | .vblank => (n + 4559) / 70224
  | .search => blanksBefore ((n + 455) / 456)
  | .line => if lyc ≤ 153 then (n + 70223 - 456 * lyc.toNat) / 70224 else 0

theorem Asking.requested {s : StatSource} {lyc : UInt8} (h : Asking s lyc base n p) :
    requestsBefore lyc p.step.1.hblankCount (n + 1) s =
      requestsBefore lyc p.hblankCount n s + p.step.2.stat.toNat := by
  have hone {place : Prop} [Decidable place] (hrises : p.step.2.stat ↔ place) :
      p.step.2.stat.toNat = if place then 1 else 0 := by
    rw [Bool.eq_iff_iff.mpr (hrises.trans decide_eq_true_iff.symm)]
    split <;> simp [*]
  cases s with
  | hblank => exact h.request_hblank
  | vblank =>
    rw [hone h.request_vblank]
    simp only [requestsBefore]
    split <;> omega
  | search =>
    rw [hone h.request_search]
    simp only [requestsBefore, blanksBefore]
    split <;> omega
  | line =>
    have hlyc := lyc.toNat_lt
    have hreached : lyc ≤ 153 ↔ lyc.toNat ≤ 153 := UInt8.le_iff_toNat_le
    rw [hone h.request_line]
    simp only [requestsBefore, hreached]
    split <;> split <;> omega

theorem Asking.performAll {s : StatSource} {lyc : UInt8} (h : Asking s lyc base n p)
    {actions : List Action} (hkeep : ∀ a ∈ actions, a.keepsSource) :
    Asking s lyc base (n + dotsOf actions) (p.performAll actions) ∧
      requestsBefore lyc (p.performAll actions).hblankCount (n + dotsOf actions) s =
        requestsBefore lyc p.hblankCount n s + (p.requestsOver actions).countP (·.stat) := by
  induction actions generalizing p n with
  | nil => exact ⟨h, rfl⟩
  | cons a rest ih =>
    have hrest : ∀ b ∈ rest, b.keepsSource := fun b hb => hkeep b (by simp [hb])
    by_cases ha : a = .step
    · subst ha
      obtain ⟨hend, hcount⟩ := ih h.step hrest
      rw [dotsOf_step, Nat.add_comm (dotsOf rest), ← Nat.add_assoc]
      refine ⟨hend, ?_⟩
      have hsplit : p.requestsOver (.step :: rest) = p.step.2 :: p.step.1.requestsOver rest := rfl
      rw [performAll_cons, hsplit, List.countP_cons, perform, hcount, h.requested]
      cases p.step.2.stat <;> simp [Nat.add_assoc, Nat.add_comm 1]
    · have hon : a.keepsOn := (Bool.and_eq_true_iff.mp (hkeep a (by simp))).1
      have hsame : (p.perform a).hblankCount = p.hblankCount :=
        congrArg Progress.hblankCount (perform_write_frame h.on hon ha).1
      have hsplit : p.requestsOver (a :: rest) = (p.perform a).requestsOver rest := by
        cases a with
        | step => exact absurd rfl ha
        | writeVram | writeOam | writeRegister => rfl
      obtain ⟨hend, hcount⟩ := ih (h.write (hkeep a (by simp)) ha) hrest
      rw [dotsOf_write ha, performAll_cons, hsplit, ← hsame]
      exact ⟨hend, hcount⟩

theorem asking_of_switchOn {q : Ppu} (hoff : q.lcdEnabled = false) {v : UInt8}
    (hv : v &&& 0x80 != 0) {s : StatSource} (hsource : q.registers.stat &&& 0x78 = s.mask) :
    Asking s q.registers.lyc q.hblankCount 0 (q.perform (.writeRegister 0xFF40 v)) := by
  have hswitch : q.perform (.writeRegister 0xFF40 v) =
      enableLcd { q with registers := { q.registers with lcdc := v } } :=
    writeControl_switchOn hoff hv
  rw [hswitch]
  exact
    { on := hv
      dot := rfl
      ly := nofun
      schedule := onSchedule_of_dot_eq_zero rfl
      start := fun _ => rfl
      visible := nofun
      vblank := nofun
      stat := hsource
      lyc := rfl
      signal := rfl }

theorem requestsBefore_frames (lyc : UInt8) (blanks k : Nat) (s : StatSource) :
    requestsBefore lyc (blanks + blanksBefore (154 * k)) (70224 * k) s =
      requestsBefore lyc blanks 0 s + k * s.perFrame lyc := by
  have hlyc := lyc.toNat_lt
  cases s with
  | hblank => simp only [requestsBefore, StatSource.perFrame, blanksBefore]; omega
  | vblank => simp only [requestsBefore, StatSource.perFrame]; omega
  | search => simp only [requestsBefore, StatSource.perFrame, blanksBefore]; omega
  | line =>
    have hreached : lyc ≤ 153 ↔ lyc.toNat ≤ 153 := UInt8.le_iff_toNat_le
    simp only [requestsBefore, StatSource.perFrame, hreached]
    split <;> omega

/-- A display is switched on with one source of the status interrupt. Whatever is written from then
on that leaves the display on, the source and the line asked for alone, in every frame it requests
the interrupt 144 times for the horizontal blank or the search of the sprites, once for the vertical
blank, and once for the line asked for if there is such a line. -/
theorem requests_of_frame {q : Ppu} (hoff : q.lcdEnabled = false) {v : UInt8}
    (hv : v &&& 0x80 != 0) {s : StatSource} (hsource : q.registers.stat &&& 0x78 = s.mask)
    {before frame : List Action} (hkeep : ∀ a ∈ before ++ frame, a.keepsSource) {k : Nat}
    (hbefore : dotsOf before = 70224 * k) (hframe : dotsOf frame = 70224) :
    let start := (q.perform (.writeRegister 0xFF40 v)).performAll before
    (start.requestsOver frame).countP (·.stat) = s.perFrame q.registers.lyc := by
  intro start
  have hkeepBefore : ∀ a ∈ before, a.keepsSource := fun a ha => hkeep a (by simp [ha])
  have hkeepFrame : ∀ a ∈ frame, a.keepsSource := fun a ha => hkeep a (by simp [ha])
  obtain ⟨hstart, -⟩ := (asking_of_switchOn hoff hv hsource).performAll hkeepBefore
  obtain ⟨hend, hcount⟩ := hstart.performAll hkeepFrame
  rw [Nat.zero_add, hbefore] at hstart hend hcount
  have hfirst := hstart.count_of_first (by rw [dotsPerLine]; omega)
  have hlast := hend.count_of_first (by rw [hframe, dotsPerLine]; omega)
  rw [show 70224 * k / dotsPerLine = 154 * k by rw [dotsPerLine]; omega] at hfirst
  rw [show (70224 * k + dotsOf frame) / dotsPerLine = 154 * (k + 1) by
    rw [hframe, dotsPerLine]; omega] at hlast
  rw [hfirst, hlast, hframe, requestsBefore_frames,
    show 70224 * k + 70224 = 70224 * (k + 1) by omega, requestsBefore_frames, Nat.succ_mul,
    ← Nat.add_assoc] at hcount
  exact (Nat.add_left_cancel hcount).symm

/-- A whole frame with a map cell and a sprite written and the window moved in the middle of a
line. -/
def disturbedFrame : List Action :=
  List.replicate 30000 .step ++ (disturbances ++ List.replicate 40224 .step)

theorem disturbedFrame_dots : dotsOf disturbedFrame = 70224 := by
  have hwrites : dotsOf disturbances = 0 := by decide
  rw [disturbedFrame, dotsOf_append, dotsOf_append, dotsOf_replicate, dotsOf_replicate, hwrites]

theorem disturbedFrame_keepsSource : ∀ a ∈ disturbedFrame, a.keepsSource := by
  have hsteps {n : Nat} {a : Action} (h : a ∈ List.replicate n .step) : a.keepsSource := by
    rw [List.eq_of_mem_replicate h]
    rfl
  have hwrites : ∀ a ∈ disturbances, a.keepsSource := by decide
  intro a ha
  rcases List.mem_append.mp ha with hbegun | hrest
  · exact hsteps hbegun
  rcases List.mem_append.mp hrest with hwritten | hended
  · exact hwrites a hwritten
  · exact hsteps hended

theorem disturbedFrame_blanks :
    let q := booted.performAll [.writeRegister 0xFF40 0x11, .writeRegister 0xFF41 0x08]
    let start := (q.perform (.writeRegister 0xFF40 0x91)).performAll disturbedFrame
    q.lcdEnabled = false ∧ (0x91 &&& 0x80 : UInt8) != 0 ∧
      q.registers.stat &&& 0x78 = StatSource.hblank.mask ∧
      (∀ a ∈ disturbedFrame ++ disturbedFrame, a.keepsSource) ∧
      dotsOf disturbedFrame = 70224 * 1 ∧
      (start.requestsOver disturbedFrame).countP (·.stat) = 144 := by
  intro q start
  have hoff : q.lcdEnabled = false := by decide
  have hsource : q.registers.stat &&& 0x78 = StatSource.hblank.mask := by decide
  have hkeep : ∀ a ∈ disturbedFrame ++ disturbedFrame, a.keepsSource := fun a ha =>
    (List.mem_append.mp ha).elim (disturbedFrame_keepsSource a) (disturbedFrame_keepsSource a)
  exact ⟨hoff, by decide, hsource, hkeep, disturbedFrame_dots,
    requests_of_frame (k := 1) hoff (by decide) hsource hkeep disturbedFrame_dots
      disturbedFrame_dots⟩

end Ppu
end Handheld
