import Handheld.Proofs.Bus.Reachable
import Handheld.Proofs.Priority

/-!
The joypad register under presses, releases, writes, samples and reads in any order. The buttons of
the two groups share four lines. A line is low while a held button of a selected group drives it. A
sample that finds a line low which was high before requests an interrupt.
-/

namespace Handheld

theorem testBit_not (v : UInt8) {i : Nat} (hi : i < 8) :
    (~~~v).toNat.testBit i = !v.toNat.testBit i := by
  have hbits : (~~~v.toBitVec).getLsbD i = !v.toBitVec.getLsbD i := by
    rw [BitVec.getLsbD_not, decide_eq_true hi, Bool.true_and]
  exact hbits

theorem testBit_low (v : UInt8) (i : Nat) :
    (v &&& 0x0F).toNat.testBit i = (decide (i < 4) && v.toNat.testBit i) := by
  rw [UInt8.toNat_and, show (0x0F : UInt8).toNat = 2 ^ 4 - 1 from rfl,
    Nat.and_two_pow_sub_one_eq_mod, Nat.testBit_mod_two_pow]

theorem low_ne_zero (v : UInt8) : v &&& 0x0F ≠ 0 ↔ ∃ i < 4, v.toNat.testBit i = true := by
  have hbit : ∀ i, (v &&& 0x0F).toNat.testBit i = true ↔ i < 4 ∧ v.toNat.testBit i = true :=
    fun i => by rw [testBit_low, Bool.and_eq_true, decide_eq_true_eq]
  constructor
  · intro hne
    obtain ⟨i, hi⟩ := Nat.exists_testBit_of_ne_zero fun hzero => hne (UInt8.toNat_inj.mp hzero)
    exact ⟨i, (hbit i).mp hi⟩
  · rintro ⟨i, hi⟩ hzero
    have hset := (hbit i).mpr hi
    rw [hzero, UInt8.toNat_zero, Nat.zero_testBit] at hset
    cases hset

theorem testBit_while_low {mask : UInt8} {n : Nat} (h : mask.toNat = 2 ^ n) (select v : UInt8)
    (i : Nat) : (if select &&& mask = 0 then v else 0).toNat.testBit i = true ↔
      select.toNat.testBit n = false ∧ v.toNat.testBit i = true := by
  have hlow : select &&& mask = 0 ↔ select.toNat.testBit n = false := by
    rw [← and_mask_ne_zero h, bne_eq_false_iff_eq]
  split
  case isTrue hmask => rw [hlow.mp hmask, eq_self, true_and]
  case isFalse hmask =>
    refine iff_of_false ?_ fun hbit => hmask (hlow.mpr hbit.1)
    rw [UInt8.toNat_zero, Nat.zero_testBit]
    exact Bool.false_ne_true

namespace Button

/-- The line that the button drives, together with one of the other group. -/
def line : Button → Nat
  | .a | .right => 0
  | .b | .left => 1
  | .select | .up => 2
  | .start | .down => 3

/-- The bit of the register that selects the group of the button while it is low. -/
def groupBit : Button → Nat
  | .right | .left | .up | .down => 4
  | .a | .b | .select | .start => 5

/-- The place of the button in the packed state: directions are above the action buttons. -/
def bit (button : Button) : Nat := if button.groupBit = 4 then button.line + 4 else button.line

theorem line_lt (button : Button) : button.line < 4 := by cases button <;> decide

theorem groupBit_cases (button : Button) : button.groupBit = 4 ∨ button.groupBit = 5 := by
  cases button <;> decide

theorem exists_on_line {i g : Nat} (hi : i < 4) (hg : g = 4 ∨ g = 5) :
    ∃ button : Button, button.line = i ∧ button.groupBit = g := by
  have hall : ∀ i < 4, ∀ g ∈ [4, 5], ∃ button ∈ all, button.line = i ∧ button.groupBit = g := by
    decide
  obtain ⟨button, -, h⟩ := hall i hi g (by simpa using hg)
  exact ⟨button, h⟩

theorem mask_toNat (button : Button) : button.mask.toNat = 2 ^ button.bit := by
  cases button <;> decide

theorem bit_lt (button : Button) : button.bit < 8 := by cases button <;> decide

theorem bit_injective {button other : Button} (h : button.bit = other.bit) : button = other := by
  revert h
  cases button <;> cases other <;> decide

theorem testBit_mask (button other : Button) :
    button.mask.toNat.testBit other.bit = true ↔ button = other := by
  rw [mask_toNat, Nat.testBit_two_pow, decide_eq_true_eq]
  exact ⟨bit_injective, congrArg bit⟩

end Button

namespace Buttons

def Holds (s : Buttons) (button : Button) : Prop := s.bits.toNat.testBit button.bit

theorem holds_press (s : Buttons) (button other : Button) :
    (s.press button).Holds other ↔ button = other ∨ s.Holds other := by
  rw [Holds, press, UInt8.toNat_or, Nat.testBit_or, Bool.or_eq_true, button.testBit_mask, or_comm]
  rfl

theorem holds_release (s : Buttons) (button other : Button) :
    (s.release button).Holds other ↔ button ≠ other ∧ s.Holds other := by
  rw [Holds, release, UInt8.toNat_and, Nat.testBit_and, Bool.and_eq_true, and_comm,
    testBit_not _ other.bit_lt, Bool.not_eq_true', ← Bool.not_eq_true, button.testBit_mask]
  rfl

end Buttons

namespace Joypad

def Selected (select : UInt8) (button : Button) : Prop :=
  select.toNat.testBit button.groupBit = false

def Pulled (select : UInt8) (down : Button → Prop) (i : Nat) : Prop :=
  ∃ button, button.line = i ∧ Selected select button ∧ down button

theorem Pulled.congr {select : UInt8} {down down' : Button → Prop}
    (h : ∀ button, down button ↔ down' button) (i : Nat) :
    Pulled select down i ↔ Pulled select down' i := by
  simp only [Pulled, h]

theorem testBit_lines (p : Joypad) {i : Nat} (hi : i < 4) :
    p.lines.toNat.testBit i = true ↔ ¬Pulled p.select p.sampled.Holds i := by
  have hdirection :
      (p.sampled.bits >>> 4).toNat.testBit i = p.sampled.bits.toNat.testBit (i + 4) := by
    rw [UInt8.toNat_shiftRight, Nat.testBit_shiftRight, Nat.add_comm]
    rfl
  rw [lines, testBit_low, decide_eq_true hi, Bool.true_and, testBit_not _ (by omega),
    Bool.not_eq_true', ← Bool.not_eq_true, UInt8.toNat_or, Nat.testBit_or, Bool.or_eq_true,
    testBit_while_low (n := 4) (by decide), testBit_while_low (n := 5) (by decide), hdirection,
    not_congr]
  constructor
  · rintro (⟨hselect, hheld⟩ | ⟨hselect, hheld⟩)
    · obtain ⟨button, hline, hgroup⟩ := Button.exists_on_line hi (.inl rfl)
      refine ⟨button, hline, by rwa [Selected, hgroup], ?_⟩
      rwa [Buttons.Holds, Button.bit, if_pos hgroup, hline]
    · obtain ⟨button, hline, hgroup⟩ := Button.exists_on_line hi (.inr rfl)
      refine ⟨button, hline, by rwa [Selected, hgroup], ?_⟩
      rwa [Buttons.Holds, Button.bit, hgroup, if_neg (by decide), hline]
  · rintro ⟨button, rfl, hselect, hheld⟩
    rw [Selected] at hselect
    rw [Buttons.Holds, Button.bit] at hheld
    rcases button.groupBit_cases with hgroup | hgroup
    · rw [if_pos hgroup] at hheld
      exact .inl ⟨hgroup ▸ hselect, hheld⟩
    · rw [hgroup, if_neg (by decide)] at hheld
      exact .inr ⟨hgroup ▸ hselect, hheld⟩

theorem testBit_lines_above (p : Joypad) {i : Nat} (hi : ¬i < 4) :
    p.lines.toNat.testBit i = false := by
  rw [lines, testBit_low, decide_eq_false hi, Bool.false_and]

theorem sync_requests_iff (p : Joypad) (held : Buttons) : (p.sync held).2 = true ↔
    ∃ i < 4, ¬Pulled p.select p.sampled.Holds i ∧ Pulled p.select held.Holds i := by
  rw [sync, bne_iff_ne, low_ne_zero]
  refine exists_congr fun i => and_congr_right fun hi => ?_
  rw [UInt8.toNat_and, Nat.testBit_and, Bool.and_eq_true, p.testBit_lines hi,
    testBit_not _ (by omega), Bool.not_eq_true', ← Bool.not_eq_true, testBit_lines _ hi, not_not]

theorem read_testBit {p : Joypad} (hselect : p.select &&& 0x30 = p.select) (held : Buttons)
    {i : Nat} (hi : i < 8) : (p.read held).1.toNat.testBit i = true ↔
      if i < 4 then ¬Pulled p.select held.Holds i else 6 ≤ i ∨ p.select.toNat.testBit i = true := by
  have hread : (p.read held).1 = 0xC0 ||| p.select ||| { p with sampled := held }.lines := rfl
  have htop : ∀ i < 8, (0xC0 : UInt8).toNat.testBit i = true ↔ 6 ≤ i := by decide
  rw [hread, UInt8.toNat_or, UInt8.toNat_or, Nat.testBit_or, Nat.testBit_or, Bool.or_eq_true,
    Bool.or_eq_true, htop i hi]
  split
  case isTrue hline =>
    have hnone : ¬p.select.toNat.testBit i = true := by
      have hmask : ∀ i < 4, (0x30 : UInt8).toNat.testBit i = false := by decide
      rw [← hselect, UInt8.toNat_and, Nat.testBit_and, hmask i hline, Bool.and_false]
      exact Bool.false_ne_true
    have hlow : ¬6 ≤ i := by omega
    rw [eq_false hlow, eq_false hnone, false_or, false_or, testBit_lines _ hline]
  case isFalse hline =>
    rw [testBit_lines_above _ hline, eq_false Bool.false_ne_true, or_false]

end Joypad

namespace Bus
variable {σ : Type} [ExternalMemory σ]

/-- What the host, the program and the machine do to the buttons and their register. -/
inductive JoypadAction where
  | press (button : Button)
  | release (button : Button)
  | write (v : UInt8)
  | sample
  | read

namespace JoypadAction

def samples : JoypadAction → Bool
  | .sample | .read => true
  | _ => false

def selectOf : List JoypadAction → UInt8
  | [] => 0x30
  | .write v :: _ => v &&& 0x30
  | _ :: earlier => selectOf earlier

/-- The buttons held after some actions, the latest first, when some were held before. -/
def Held (before : Buttons) : List JoypadAction → Button → Prop
  | [], button => before.Holds button
  | .press other :: earlier, button => other = button ∨ Held before earlier button
  | .release other :: earlier, button => other ≠ button ∧ Held before earlier button
  | _ :: earlier, button => Held before earlier button

def Sampled (before : Buttons) : List JoypadAction → Button → Prop
  | [], _ => False
  | a :: earlier, button =>
    if a.samples then Held before earlier button else Sampled before earlier button

end JoypadAction

open JoypadAction Joypad

def act (b : Bus σ) : JoypadAction → Bus σ
  | .press button => { b with held := b.held.press button }
  | .release button => { b with held := b.held.release button }
  | .write v => b.write 0xFF00 v
  | .sample => b.syncJoypad
  | .read => (b.read 0xFF00).2

/-- A bus with a new register, after some actions, the latest first. -/
def actAll (b : Bus σ) : List JoypadAction → Bus σ
  | [] => { b with joypad := {} }
  | a :: earlier => (b.actAll earlier).act a

theorem read_joypad (b : Bus σ) : b.read 0xFF00 = b.readJoypad := rfl

theorem act_interrupts (b : Bus σ) (a : JoypadAction) : (b.act a).interrupts =
    b.interrupts.raiseIf .joypad (a.samples && (b.joypad.sync b.held).2) := by
  cases a <;> rfl

theorem actAll_select (b : Bus σ) (history : List JoypadAction) :
    (b.actAll history).joypad.select = selectOf history := by
  induction history with
  | nil => rfl
  | cons a earlier ih =>
    cases a with
    | write v => rfl
    | press | release | sample | read => exact ih

theorem actAll_held (b : Bus σ) (history : List JoypadAction) (button : Button) :
    (b.actAll history).held.Holds button ↔ Held b.held history button := by
  induction history with
  | nil => rfl
  | cons a earlier ih =>
    cases a with
    | press other => exact (Buttons.holds_press ..).trans (or_congr_right ih)
    | release other => exact (Buttons.holds_release ..).trans (and_congr_right fun _ => ih)
    | write | sample | read => exact ih

theorem actAll_sampled (b : Bus σ) (history : List JoypadAction) (button : Button) :
    (b.actAll history).joypad.sampled.Holds button ↔ Sampled b.held history button := by
  induction history with
  | nil => exact iff_of_false (by simp [Buttons.Holds, actAll]) id
  | cons a earlier ih =>
    cases a with
    | press | release | write => exact ih
    | sample | read => exact b.actAll_held earlier button

theorem selectOf_masked (history : List JoypadAction) :
    selectOf history &&& 0x30 = selectOf history := by
  induction history with
  | nil => rfl
  | cons a earlier ih =>
    cases a with
    | write v =>
      rw [selectOf, UInt8.and_assoc]
      rfl
    | press | release | sample | read => exact ih

/-- Some line is low under the buttons held now which was high under those of the last sample. -/
def Falls (before : Buttons) (history : List JoypadAction) : Prop :=
  ∃ i < 4, ¬Pulled (selectOf history) (Sampled before history) i ∧
    Pulled (selectOf history) (Held before history) i

theorem actAll_requests (b : Bus σ) (history : List JoypadAction) (a : JoypadAction) :
    (a.samples && ((b.actAll history).joypad.sync (b.actAll history).held).2) = true ↔
      a.samples = true ∧ Falls b.held history := by
  rw [Bool.and_eq_true, sync_requests_iff, actAll_select]
  simp only [Falls, Pulled.congr (b.actAll_sampled history), Pulled.congr (b.actAll_held history)]

/-- A button newly held makes its line fall, unless the other group held it low before. -/
theorem falls_of_newly_held {before : Buttons} {history : List JoypadAction} {button : Button}
    (hselected : Selected (selectOf history) button) (hheld : Held before history button)
    (hnew : ¬Sampled before history button)
    (halone : ∀ other : Button, other ≠ button → other.line = button.line →
      Selected (selectOf history) other → ¬Sampled before history other) :
    Falls before history := by
  refine ⟨button.line, button.line_lt, ?_, button, rfl, hselected, hheld⟩
  rintro ⟨other, hline, hother, hsampled⟩
  by_cases heq : other = button
  · exact hnew (heq ▸ hsampled)
  · exact halone other heq hline hother hsampled

theorem not_falls_of_same {before : Buttons} {history : List JoypadAction}
    (h : ∀ button, Held before history button ↔ Sampled before history button) :
    ¬Falls before history := by
  rintro ⟨i, -, hhigh, hlow⟩
  exact hhigh ((Pulled.congr h i).mp hlow)

/-- A bus with a new joypad register, whatever the host, the program and the machine do to it in
whatever order. A read shows the select bits last written, and low the lines that a held button of a
selected group drives. A sample or a read requests an interrupt exactly when one of the lines is low
that was high at the last sample, under the same select bits; nothing else does. So a button newly
held requests one, unless the other group held its line, and the same state sampled again none. -/
theorem joypad_follows_buttons (b : Bus σ) (history : List JoypadAction) :
    let now := b.actAll history
    let select := selectOf history
    let held := Held b.held history
    let sampled := Sampled b.held history
    (∀ i < 8, (now.read 0xFF00).1.toNat.testBit i = true ↔
      if i < 4 then ¬∃ button : Button, button.line = i ∧ Selected select button ∧ held button
      else 6 ≤ i ∨ select.toNat.testBit i = true) ∧
    (∀ a : JoypadAction, ∃ raised,
      (now.act a).interrupts = now.interrupts.raiseIf .joypad raised ∧
      (raised = true ↔ a.samples = true ∧
        ∃ i < 4, ¬Pulled select sampled i ∧ Pulled select held i) ∧
      (∀ button : Button, a.samples = true → Selected select button → held button →
        ¬sampled button → (∀ other : Button, other ≠ button → other.line = button.line →
          Selected select other → ¬sampled other) → raised = true) ∧
      ((∀ button, held button ↔ sampled button) → raised = false)) := by
  intro now select held sampled
  refine ⟨fun i hi => ?_, fun a => ⟨_, now.act_interrupts a, b.actAll_requests history a, ?_, ?_⟩⟩
  · have hselect : now.joypad.select = select := b.actAll_select history
    have hmasked : now.joypad.select &&& 0x30 = now.joypad.select := by
      rw [hselect]
      exact selectOf_masked history
    rw [read_joypad]
    refine (read_testBit hmasked now.held hi).trans ?_
    rw [hselect, Pulled.congr (b.actAll_held history)]
    rfl
  · intro button hsamples hselected hheld hnew halone
    exact (b.actAll_requests history a).mpr
      ⟨hsamples, falls_of_newly_held hselected hheld hnew halone⟩
  · intro hsame
    rw [← Bool.not_eq_true]
    exact fun hraised => not_falls_of_same hsame ((b.actAll_requests history a).mp hraised).2

/-- A is held at a sample with both groups selected, then Right and Left are pressed too. -/
def crossed : List JoypadAction := [.press .left, .press .right, .sample, .press .a, .write 0x00]

/-- Left lets its line fall, and Right does not, since A drives the same line. -/
theorem crossed_requests :
    Held {} crossed .left ∧ ¬Sampled {} crossed .left ∧
      (((bare.actAll crossed).read 0xFF00).1.toNat.testBit 1 = true ↔
        ¬∃ button : Button, button.line = 1 ∧ Selected 0 button ∧ Held {} crossed button) ∧
      ((bare.actAll crossed).act .sample).interrupts =
        (bare.actAll crossed).interrupts.raise .joypad ∧
      ((bare.actAll crossed.tail).act .sample).interrupts =
        (bare.actAll crossed.tail).interrupts := by
  have hheld : Held {} crossed .left := .inl rfl
  have hnew : ¬Sampled {} crossed .left := by
    simp [crossed, Sampled, samples, Held, Buttons.Holds]
  have halone : ∀ other : Button, other ≠ .left → other.line = Button.left.line →
      Selected (selectOf crossed) other → ¬Sampled {} crossed other := by
    intro other hne hline hselected
    cases other <;> simp_all [crossed, Sampled, samples, Held, Buttons.Holds, Button.line]
  obtain ⟨hread, hact⟩ := joypad_follows_buttons bare crossed
  obtain ⟨raised, hinterrupts, -, hleft, -⟩ := hact .sample
  rw [hleft .left rfl rfl hheld hnew halone] at hinterrupts
  exact ⟨hheld, hnew, hread 1 (by decide), hinterrupts, rfl⟩

end Bus
end Handheld
