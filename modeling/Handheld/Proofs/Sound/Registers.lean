import Handheld.Proofs.History
import Handheld.Proofs.Sound.Ranges

/-!
What the registers of the sound unit read as: what was last written to them since the power came on,
whatever the channels made of it. Nothing of the channels outlasts the power but the wave table.
-/

namespace Handheld.Apu

def Event.write? : Event → Option BusWrite
  | write address value => some { address, value }
  | _ => none

def written (events : List Event) : History := (events.filterMap Event.write?).reverse

def powerAfter (history : History) : Bool := (history.lastAt 0xFF26).any (· &&& 0x80 != 0)

/-- The writes for which the power has been on from before them until now. -/
def sincePowerOn : History → History
  | [] => []
  | w :: earlier =>
    if powerAfter (w :: earlier) && powerAfter earlier then w :: sincePowerOn earlier else []

theorem sincePowerOn_off {history : History} (h : powerAfter history = false) :
    sincePowerOn history = [] := by
  cases history with
  | nil => rfl
  | cons w earlier => simp [sincePowerOn, h]

theorem powerAfter_switch (v : UInt8) (earlier : History) :
    powerAfter ({ address := 0xFF26, value := v } :: earlier) = (v &&& 0x80 != 0) := by
  simp [powerAfter, History.lastAt_cons]

theorem lastAt_switch (v : UInt8) (earlier : History) {address : UInt16} (h : address ≠ 0xFF26) :
    (sincePowerOn ({ address := 0xFF26, value := v } :: earlier)).lastAt address =
      if v &&& 0x80 != 0 && powerAfter earlier then (sincePowerOn earlier).lastAt address
      else none := by
  rw [sincePowerOn, powerAfter_switch]
  split
  · rw [History.lastAt_cons, if_neg h.symm]
  · rfl

theorem powerAfter_other {w : BusWrite} (h : w.address ≠ 0xFF26) (earlier : History) :
    powerAfter (w :: earlier) = powerAfter earlier := by
  simp [powerAfter, History.lastAt_cons, h]

theorem lastAt_sincePowerOn {w : BusWrite} (h : w.address ≠ 0xFF26) (earlier : History)
    (address : UInt16) :
    (sincePowerOn (w :: earlier)).lastAt address =
      if powerAfter earlier ∧ w.address = address then some w.value
      else (sincePowerOn earlier).lastAt address := by
  cases hpower : powerAfter earlier with
  | false => simp [sincePowerOn, hpower, sincePowerOn_off hpower]
  | true => simp [sincePowerOn, powerAfter_other h, hpower, History.lastAt_cons]

def contents (a : Apu) : Memory 23 × Bool × Memory 16 := (a.registers, a.powered, a.wave.table)

theorem writeFrequencyHigh_table (c : WaveChannel) (v : UInt8) :
    (c.writeFrequencyHigh v).table = c.table := by
  unfold WaveChannel.writeFrequencyHigh
  dsimp only
  split <;> rfl

theorem writeChannel_contents (a : Apu) (address : UInt16) (v : UInt8) :
    (a.writeChannel address v).contents = a.contents := by
  unfold writeChannel
  split
  case h_14 => simp [contents, writeFrequencyHigh_table]
  all_goals rfl

theorem sequence_contents (a : Apu) (step : Nat) : (a.sequence step).contents = a.contents := by
  unfold sequence
  dsimp only
  split <;> split <;> split <;> rfl

theorem tick_contents (a : Apu) (cycles : Nat) : (a.tick cycles).contents = a.contents := by
  rcases Nat.lt_or_ge cycles a.sequencer.counter with hlt | hle
  · rw [tick_of_lt hlt]
    rfl
  · rw [tick_of_le hle]
    dsimp only
    split
    · exact sequence_contents ..
    · rfl

theorem render_contents (a : Apu) (cycles : Nat) : (a.render cycles).contents = a.contents := by
  have htable : (a.render cycles).wave.table = a.wave.table :=
    a.output3.render_kept WaveChannel.table (fun _ _ => rfl) ..
  exact congrArg (fun table => (a.registers, a.powered, table)) htable

theorem run_contents (a : Apu) (n : Nat) : (a.run n).contents = a.contents := by
  induction a, n using Apu.run.induct with
  | case1 a => rw [run_zero]
  | case2 a n hsome span ih =>
    rw [run_of_pos a (Nat.pos_of_ne_zero hsome), ih, segment_eq, tick_contents, render_contents]

theorem step_contents (a : Apu) (n : Nat) : (a.step n).contents = a.contents := by
  rw [step_eq]
  exact a.run_contents n

theorem setOutput_contents (a : Apu) (c : Channel) (o : ChannelOutput) :
    (a.setOutput c o).contents = a.contents := by
  cases c <;> rfl

structure Holds (a : Apu) (history : History) : Prop where
  power : a.powered = powerAfter history
  register : ∀ address, 0xFF10 ≤ address → address < 0xFF26 →
    a.registers.read (address - 0xFF10).toNat =
      ((sincePowerOn history).lastAt address).getD 0
  table : ∀ address, 0xFF30 ≤ address → address ≤ 0xFF3F →
    a.wave.readTable (address - 0xFF30).toNat = (history.lastAt address).getD 0

variable {a b : Apu} {history : History}

theorem Holds.of_contents (h : a.Holds history) (hcontents : b.contents = a.contents) :
    b.Holds history := by
  obtain ⟨hregisters, hpower, htable⟩ : b.registers = a.registers ∧ b.powered = a.powered ∧
      b.wave.table = a.wave.table := by simpa [contents] using hcontents
  refine ⟨hpower.trans h.power, fun address => ?_, fun address => ?_⟩
  · rw [hregisters]
    exact h.register address
  · rw [WaveChannel.readTable, htable]
    exact h.table address

theorem read_zeroed (n i : Nat) : (Memory.zeroed n).read i = 0 := by
  by_cases h : i < n
  · exact Memory.read_filled 0 h
  · rw [Memory.read, dif_neg h]

theorem new_holds : ({} : Apu).Holds [] where
  power := rfl
  register _ _ _ := read_zeroed ..
  table _ _ _ := read_zeroed ..

theorem ne_power_of_table {address : UInt16} (h : 0xFF30 ≤ address) : address ≠ 0xFF26 :=
  (UInt16.ne_of_lt (UInt16.lt_of_lt_of_le (by decide) h)).symm

theorem Holds.writePower (h : a.Holds history) (v : UInt8) :
    (a.writePower v).Holds ({ address := 0xFF26, value := v } :: history) := by
  have hpower := powerAfter_switch v history
  have hregisters := fun address (hne : address ≠ 0xFF26) => lastAt_switch v history hne
  have htable : ∀ address, 0xFF30 ≤ address → address ≤ 0xFF3F →
      a.wave.readTable (address - 0xFF30).toNat =
        (History.lastAt ({ address := 0xFF26, value := v } :: history) address).getD 0 := by
    intro address hle hge
    rw [History.lastAt_cons, if_neg (ne_power_of_table hle).symm]
    exact h.table address hle hge
  rw [← h.power] at hregisters
  unfold Apu.writePower
  dsimp only
  split
  case isTrue hsame =>
    rw [beq_iff_eq] at hsame
    refine ⟨(hpower.trans hsame).symm, fun address hle hlt => ?_, htable⟩
    rw [h.register address hle hlt, hregisters address (UInt16.ne_of_lt hlt), hsame]
    cases hon : a.powered with
    | true => rfl
    | false => rw [sincePowerOn_off (h.power ▸ hon)]; rfl
  case isFalse hchange =>
  split
  case isTrue hon =>
    have hoff : a.powered = false := by simpa [hon] using hchange
    refine ⟨(hpower.trans hon).symm, fun address hle hlt => ?_, htable⟩
    have hread := h.register address hle hlt
    rw [sincePowerOn_off (h.power ▸ hoff)] at hread
    rw [hregisters address (UInt16.ne_of_lt hlt), hoff, Bool.and_false]
    exact hread
  case isFalse hoff =>
    rw [Bool.not_eq_true] at hoff
    refine ⟨(hpower.trans hoff).symm, fun address hle hlt => ?_, htable⟩
    rw [hregisters address (UInt16.ne_of_lt hlt), hoff]
    exact read_zeroed ..

theorem offset_eq_iff {base address address' : UInt16} :
    (address - base).toNat = (address' - base).toNat ↔ address = address' := by
  rw [UInt16.toNat_inj]
  grind

theorem tableOffset_lt {address : UInt16} (hle : 0xFF30 ≤ address) (hge : address ≤ 0xFF3F) :
    (address - 0xFF30).toNat < 16 := by
  rw [UInt16.toNat_sub_of_le _ _ hle]
  have : address.toNat ≤ 0xFF3F := UInt16.le_iff_toNat_le.mp hge
  have : 0xFF30 ≤ address.toNat := UInt16.le_iff_toNat_le.mp hle
  change address.toNat - 0xFF30 < 16
  omega

theorem readTable_writeTable (c : WaveChannel) (i j : Nat) (v : UInt8) :
    (c.writeTable i v).readTable j = if i % 16 = j % 16 then v else c.readTable j := by
  simp [WaveChannel.readTable, WaveChannel.writeTable, Memory.read_write, Nat.mod_lt]

theorem Holds.writeTable (h : a.Holds history) {w : BusWrite} (hle : 0xFF30 ≤ w.address)
    (hge : w.address ≤ 0xFF3F) :
    { a with wave := a.wave.writeTable (w.address - 0xFF30).toNat w.value : Apu }.Holds
      (w :: history) := by
  have hne := ne_power_of_table hle
  refine ⟨h.power.trans (powerAfter_other hne history).symm, fun address hlow hhigh => ?_,
    fun address hlow hhigh => ?_⟩
  · rw [lastAt_sincePowerOn hne, if_neg]
    · exact h.register address hlow hhigh
    · rintro ⟨-, rfl⟩
      exact absurd (UInt16.lt_of_le_of_lt hle hhigh) (by decide)
  · rw [readTable_writeTable, Nat.mod_eq_of_lt (tableOffset_lt hle hge),
      Nat.mod_eq_of_lt (tableOffset_lt hlow hhigh), History.lastAt_cons]
    simp only [offset_eq_iff]
    split
    · rfl
    · exact h.table address hlow hhigh

theorem Holds.writeChannelRegister (h : a.Holds history) (hpower : a.powered) {w : BusWrite}
    (hle : 0xFF10 ≤ w.address) (hlt : w.address < 0xFF26) :
    { a with registers := a.registers.write (w.address - 0xFF10).toNat w.value : Apu }.Holds
      (w :: history) := by
  have hne := UInt16.ne_of_lt hlt
  have hindex : (w.address - 0xFF10).toNat < 23 := by
    have : w.address.toNat < 0xFF26 := UInt16.lt_iff_toNat_lt.mp hlt
    rw [UInt16.toNat_sub_of_le _ _ hle]
    change w.address.toNat - 0xFF10 < 23
    omega
  refine ⟨h.power.trans (powerAfter_other hne history).symm, fun address hlow hhigh => ?_,
    fun address hlow hhigh => ?_⟩
  · rw [lastAt_sincePowerOn hne, ← h.power, Memory.read_write]
    simp only [offset_eq_iff, hindex, hpower, and_true, true_and]
    split
    · rfl
    · exact h.register address hlow hhigh
  · rw [History.lastAt_cons, if_neg]
    · exact h.table address hlow hhigh
    · rintro rfl
      exact absurd (UInt16.lt_of_le_of_lt hlow hlt) (by decide)

theorem Holds.ignored (h : a.Holds history) {w : BusWrite} (hpower : w.address ≠ 0xFF26)
    (htable : ¬(0xFF30 ≤ w.address ∧ w.address ≤ 0xFF3F))
    (hregister : ¬((0xFF10 ≤ w.address ∧ w.address < 0xFF26) ∧ a.powered)) :
    a.Holds (w :: history) := by
  refine ⟨h.power.trans (powerAfter_other hpower history).symm, fun address hlow hhigh => ?_,
    fun address hlow hhigh => ?_⟩
  · rw [lastAt_sincePowerOn hpower, if_neg]
    · exact h.register address hlow hhigh
    · rintro ⟨hon, rfl⟩
      exact hregister ⟨⟨hlow, hhigh⟩, h.power.trans hon⟩
  · rw [History.lastAt_cons, if_neg]
    · exact h.table address hlow hhigh
    · rintro rfl
      exact htable ⟨hlow, hhigh⟩

theorem Holds.writeRegister (h : a.Holds history) (w : BusWrite) :
    (a.writeRegister w.address w.value).Holds (w :: history) := by
  unfold Apu.writeRegister
  simp only [Bool.and_eq_true, decide_eq_true_eq]
  split
  case isTrue hswitch =>
    obtain ⟨address, v⟩ := w
    subst hswitch
    exact h.writePower v
  case isFalse hpower =>
  split
  case isTrue htable => exact h.writeTable htable.1 htable.2
  case isFalse htable =>
  split
  case isTrue hregister =>
    exact (h.writeChannelRegister hregister.2 hregister.1.1 hregister.1.2).of_contents
      (writeChannel_contents ..)
  case isFalse hregister => exact h.ignored hpower htable hregister

theorem perform_holds (h : a.Holds history) {e : Event} (hboot : e ≠ .boot) :
    (a.perform e).Holds (e.write?.toList ++ history) := by
  cases e with
  | step n => exact h.of_contents (a.step_contents n)
  | write address value => exact h.writeRegister { address, value }
  | boot => exact absurd rfl hboot
  | connect c sink => exact h.of_contents (a.setOutput_contents c _)
  | drain c => exact h.of_contents (a.setOutput_contents c _)

theorem performAll_holds (h : a.Holds history) {events : List Event}
    (hboot : ∀ e ∈ events, e ≠ .boot) : (a.performAll events).Holds (written events ++ history) := by
  induction events generalizing a history with
  | nil => exact h
  | cons e rest ih =>
    have hrest := ih (perform_holds h (hboot e (List.mem_cons_self ..)))
      fun e' he' => hboot e' (List.mem_cons_of_mem _ he')
    have hwritten : written (e :: rest) = written rest ++ e.write?.toList := by
      cases hwrite : e.write? <;> simp [written, hwrite]
    rwa [hwritten, List.append_assoc]

theorem Holds.read_register (h : a.Holds history) {address : UInt16} (hle : 0xFF10 ≤ address)
    (hlt : address < 0xFF26) :
    a.readRegister address = ((sincePowerOn history).lastAt address).getD 0 |||
      readMasks.read (address - 0xFF10).toNat := by
  rw [readRegister, if_neg (UInt16.ne_of_lt hlt), if_pos (by simp [hle, hlt])]
  exact congrArg (· ||| readMasks.read _) (h.register address hle hlt)

theorem Holds.read_table (h : a.Holds history) {address : UInt16} (hle : 0xFF30 ≤ address)
    (hge : address ≤ 0xFF3F) : a.readRegister address = (history.lastAt address).getD 0 := by
  have hpast : ¬address < 0xFF26 := fun hlt =>
    absurd (UInt16.lt_of_le_of_lt hle hlt) (by decide)
  rw [readRegister, if_neg (ne_power_of_table hle), if_neg (by simp [hpast]),
    if_pos (by simp [hle, hge]), h.table address hle hge]

theorem Holds.read_power (h : a.Holds history) :
    a.readRegister 0xFF26 = 0x70 ||| (if powerAfter history then 0x80 else 0) ||| a.status := by
  rw [readRegister, if_pos rfl, readPower, h.power, UInt8.or_assoc, UInt8.or_comm]

def powerCycled (a : Apu) : Apu := (a.writeRegister 0xFF26 0x00).writeRegister 0xFF26 0x80

def switchedOn (table : Memory 16) : Apu :=
  ({ wave := { table } } : Apu).writeRegister 0xFF26 0x80

theorem powerCycled_eq (a : Apu) (h : a.powered) :
    a.powerCycled = (switchedOn a.wave.table).carrying a.output a.cycles := by
  cases a
  cases h
  rfl

/-- After any history without the start-up, a register below the power register reads as the last
value written to it since the power came on, with the ones of its mask. The wave table reads as last
written, with the power on or off, and the power register as the power and the channels that are on.
A power cycle leaves nothing of the channels, the registers or the sequencer: any two units with
power end in one state, if they have the same wave table, outputs and count of cycles, and it is the
state of a new unit with these. -/
theorem registers_hold (events : List Event) (hboot : ∀ e ∈ events, e ≠ .boot) :
    let a := ({} : Apu).performAll events
    let history := written events
    (∀ address, 0xFF10 ≤ address → address < 0xFF26 →
      a.readRegister address = ((sincePowerOn history).lastAt address).getD 0 |||
          readMasks.read (address - 0xFF10).toNat ∧
        (powerAfter history = false →
          a.readRegister address = readMasks.read (address - 0xFF10).toNat)) ∧
      (∀ address, 0xFF30 ≤ address → address ≤ 0xFF3F →
        a.readRegister address = (history.lastAt address).getD 0) ∧
      (a.readRegister 0xFF26 = 0x70 ||| (if powerAfter history then 0x80 else 0) ||| a.status ∧
        a.status &&& 0xF0 = 0 ∧ ∀ c, a.status.toNat.testBit c.index = a.channelOn c) ∧
      ∀ b b' : Apu, b.powered → b'.powered → b.wave.table = b'.wave.table →
        (∀ c, b.output c = b'.output c) → b.cycles = b'.cycles →
        b.powerCycled = b'.powerCycled ∧
          b.powerCycled = (switchedOn b.wave.table).carrying b.output b.cycles := by
  intro a history
  have ha : a.Holds history := by
    have h := performAll_holds new_holds hboot
    rwa [List.append_nil] at h
  refine ⟨fun address hle hlt => ⟨ha.read_register hle hlt, fun hoff => ?_⟩,
    fun address hle hge => ha.read_table hle hge, ⟨ha.read_power, a.status_bits⟩,
    fun b b' hb hb' htable houtput hcycles => ⟨?_, b.powerCycled_eq hb⟩⟩
  · rw [ha.read_register hle hlt, sincePowerOn_off hoff]
    exact UInt8.zero_or
  · rw [b.powerCycled_eq hb, b'.powerCycled_eq hb', htable, hcycles, funext houtput]

theorem envelope_held :
    let on : List Event := [.write 0xFF26 0x80, .write 0xFF12 0xF3, .write 0xFF30 0xAB, .step 20000]
    let cycled := on ++ [.write 0xFF26 0x00, .write 0xFF12 0x45, .write 0xFF26 0x80]
    (∀ e ∈ cycled, e ≠ .boot) ∧
      (({} : Apu).performAll on).readRegister 0xFF12 = 0xF3 ∧
      (({} : Apu).performAll cycled).readRegister 0xFF12 = 0x00 ∧
      (({} : Apu).performAll cycled).readRegister 0xFF30 = 0xAB ∧
      (switchedOn (.filled 16 0xAB)).powerCycled = switchedOn (.filled 16 0xAB) := by
  intro on cycled
  have hcycled : ∀ e ∈ cycled, e ≠ .boot := by simp [cycled, on]
  have hon : ∀ e ∈ on, e ≠ .boot := fun e he => hcycled e (List.mem_append_left _ he)
  obtain ⟨hread, htable, -, hcycle⟩ := registers_hold cycled hcycled
  obtain ⟨hearlier, -⟩ := registers_hold on hon
  refine ⟨hcycled, ?_, ?_, ?_, ?_⟩
  · exact (hearlier 0xFF12 (by decide) (by decide)).1.trans (by decide +kernel)
  · exact (hread 0xFF12 (by decide) (by decide)).1.trans (by decide +kernel)
  · exact htable 0xFF30 (by decide) (by decide)
  · exact (hcycle _ _ rfl rfl rfl (fun _ => rfl) rfl).2

end Handheld.Apu
