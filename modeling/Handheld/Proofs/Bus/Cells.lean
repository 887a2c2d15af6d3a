import Mathlib.Logic.Basic
import Handheld.Proofs.Bus.Reachable
import Handheld.Proofs.Bus.WorkMemory
import Handheld.Proofs.History

/-!
The memories behind the address map, cell by cell: video memory and work memory in their banks,
sprite memory, and the memory beside the registers. After any writes, wherever they go, a read gives
what the last write to the same cell left there.
-/

namespace Handheld

inductive Cell where
  | video (bank : Fin 2) (offset : Fin 0x2000)
  | work (bank : Fin 8) (offset : Fin 0x1000)
  | sprite (offset : Fin 160)
  | high (offset : Fin 0x7F)
  deriving DecidableEq, Repr

/-- The cell at an address, when two banks are selected. From E000 to FDFF what is at C000 to DDFF
shows again. -/
def Cell.at? (video : Fin 2) (work : Fin 8) (a : UInt16) : Option Cell :=
  let n := if 0xE000 ≤ a.toNat ∧ a.toNat < 0xFE00 then a.toNat - 0x2000 else a.toNat
  if 0x8000 ≤ n ∧ n < 0xA000 then some (.video video (Fin.ofNat 0x2000 (n - 0x8000)))
  else if 0xC000 ≤ n ∧ n < 0xD000 then some (.work ⟨0, by decide⟩ (Fin.ofNat 0x1000 (n - 0xC000)))
  else if 0xD000 ≤ n ∧ n < 0xE000 then some (.work work (Fin.ofNat 0x1000 (n - 0xD000)))
  else if 0xFE00 ≤ n ∧ n < 0xFEA0 then some (.sprite (Fin.ofNat 160 (n - 0xFE00)))
  else if 0xFF80 ≤ n ∧ n < 0xFFFF then some (.high (Fin.ofNat 0x7F (n - 0xFF80)))
  else none

def Cell.videoAt (bank : Fin 2) (a : UInt16) : Cell := .video bank (Fin.ofNat 0x2000 a.toNat)

namespace Cell
variable (video : Fin 2) (work : Fin 8) {a : UInt16}

theorem at?_of_vram (h : Region.ofAddress a = .vram) :
    ∃ offset, at? video work a = some (.video video offset) ∧ a.toNat % 0x2000 = offset := by
  have hplace := Region.holds_ofAddress a
  rw [h, Region.Holds] at hplace
  have hecho : ¬(0xE000 ≤ a.toNat ∧ a.toNat < 0xFE00) := by omega
  refine ⟨Fin.ofNat _ (a.toNat - 0x8000), ?_, ?_⟩
  · simp only [at?, if_neg hecho]
    rw [if_pos hplace]
  · rw [Fin.val_ofNat]
    omega

theorem at?_of_wram (h : Region.ofAddress a = .wram) :
    ∃ bank offset, at? video work a = some (.work bank offset) ∧
      Bus.wramOffset work a = bank * 0x1000 + offset := by
  have hplace := Region.toNat_of_wram h
  generalize hn : (if 0xE000 ≤ a.toNat ∧ a.toNat < 0xFE00 then a.toNat - 0x2000
    else a.toNat) = n
  have hcore : 0xC000 ≤ n ∧ n < 0xE000 ∧ n % 0x2000 = a.toNat % 0x2000 := by
    rw [← hn]
    split <;> omega
  have hvideo : ¬(0x8000 ≤ n ∧ n < 0xA000) := by omega
  by_cases hlow : n < 0xD000
  · refine ⟨⟨0, by decide⟩, Fin.ofNat _ (n - 0xC000), ?_, ?_⟩
    · simp only [at?, hn, if_neg hvideo]
      rw [if_pos ⟨hcore.1, hlow⟩]
    · simp only [Bus.wramOffset, Fin.val_ofNat]
      rw [if_pos (by omega)]
      omega
  · refine ⟨work, Fin.ofNat _ (n - 0xD000), ?_, ?_⟩
    · simp only [at?, hn, if_neg hvideo]
      rw [if_neg (by omega), if_pos (by omega)]
    · simp only [Bus.wramOffset, Fin.val_ofNat]
      rw [if_neg (by omega)]
      omega

theorem at?_of_oam (h : Region.ofAddress a = .oam) :
    ∃ offset, at? video work a = some (.sprite offset) ∧ (a - 0xFE00).toNat = offset := by
  have hplace := Region.holds_ofAddress a
  rw [h, Region.Holds] at hplace
  have hsub : (a - 0xFE00).toNat = a.toNat - 0xFE00 :=
    UInt16.toNat_sub_of_le _ _ (UInt16.le_iff_toNat_le.mpr hplace.1)
  have hecho : ¬(0xE000 ≤ a.toNat ∧ a.toNat < 0xFE00) := by omega
  refine ⟨Fin.ofNat _ (a.toNat - 0xFE00), ?_, ?_⟩
  · simp only [at?, if_neg hecho]
    repeat rw [if_neg (by omega)]
    rw [if_pos hplace]
  · rw [hsub, Fin.val_ofNat]
    omega

theorem at?_of_hram (h : Region.ofAddress a = .hram) :
    ∃ offset, at? video work a = some (.high offset) ∧ (a - 0xFF80).toNat = offset := by
  have hplace := Region.toNat_of_hram h
  have hecho : ¬(0xE000 ≤ a.toNat ∧ a.toNat < 0xFE00) := by omega
  refine ⟨Fin.ofNat _ (a.toNat - 0xFF80), ?_, ?_⟩
  · simp only [at?, if_neg hecho]
    repeat rw [if_neg (by omega)]
    rw [if_pos hplace]
  · rw [Bus.hram_place h, Fin.val_ofNat]
    omega

theorem at?_of_other (h : Region.ofAddress a ∉ [.vram, .wram, .oam, .hram]) :
    at? video work a = none := by
  have hplace := Region.holds_ofAddress a
  cases hregion : Region.ofAddress a <;> rw [hregion] at hplace h <;>
    simp only [Region.Holds] at hplace
  case vram | wram | oam | hram => simp at h
  all_goals
    have hecho : ¬(0xE000 ≤ a.toNat ∧ a.toNat < 0xFE00) := by omega
    simp only [at?, if_neg hecho]
    repeat rw [if_neg (by omega)]

theorem exists_at? (ha : 0x8000 ≤ a ∧ a ≤ 0x9FFF ∨ 0xC000 ≤ a ∧ a ≤ 0xFDFF ∨
    0xFE00 ≤ a ∧ a ≤ 0xFE9F ∨ 0xFF80 ≤ a ∧ a ≤ 0xFFFE) : ∃ c, at? video work a = some c := by
  have hplace := Region.holds_ofAddress a
  cases hregion : Region.ofAddress a with
  | vram =>
    obtain ⟨offset, hcell, -⟩ := at?_of_vram video work hregion
    exact ⟨_, hcell⟩
  | wram =>
    obtain ⟨bank, offset, hcell, -⟩ := at?_of_wram video work hregion
    exact ⟨_, hcell⟩
  | oam =>
    obtain ⟨offset, hcell, -⟩ := at?_of_oam video work hregion
    exact ⟨_, hcell⟩
  | hram =>
    obtain ⟨offset, hcell, -⟩ := at?_of_hram video work hregion
    exact ⟨_, hcell⟩
  | cartridge | unusable | io | enable =>
    rw [hregion, Region.Holds] at hplace
    simp only [UInt16.le_iff_toNat_le, UInt16.toNat_ofNat] at ha
    omega

end Cell

namespace History

def videoBank (model : Model) (history : History) : Fin 2 :=
  if model.isColor then Fin.ofNat 2 ((history.lastAt 0xFF4F).getD 0).toNat else 0

/-- The bank of work memory selected at D000 after some writes, of which there is no bank 0. -/
def workBank (model : Model) (history : History) : Fin 8 :=
  if model.isColor then
    match history.lastAt 0xFF70 with
    | some v =>
      if v.toNat % 8 = 0 then Bus.initialBank else ⟨v.toNat % 8, Nat.mod_lt _ (by decide)⟩
    | none => Bus.initialBank
  else Bus.initialBank

def cell? (model : Model) (history : History) (a : UInt16) : Option Cell :=
  Cell.at? (history.videoBank model) (history.workBank model) a

variable (model : Model) (w : BusWrite) (earlier : History)

theorem videoBank_cons : videoBank model (w :: earlier) =
    if model.isColor ∧ w.address = 0xFF4F then Fin.ofNat 2 w.value.toNat
    else earlier.videoBank model := by
  rw [videoBank, videoBank, lastAt_cons]
  by_cases hcolor : model.isColor <;> by_cases ha : w.address = 0xFF4F <;> simp [hcolor, ha]

theorem workBank_cons : workBank model (w :: earlier) =
    if model.isColor ∧ w.address = 0xFF70 then Bus.selectedBank w.value
    else earlier.workBank model := by
  rw [workBank, workBank, lastAt_cons]
  by_cases hcolor : model.isColor
  · by_cases ha : w.address = 0xFF70
    · simp only [hcolor, ha, if_true, and_self]
      rfl
    · simp only [hcolor, ha, if_false, and_false]
  · simp only [hcolor, Bool.false_eq_true, if_false, false_and]

end History

namespace Ppu

theorem writeControl_memories (p : Ppu) (v : UInt8) :
    (p.writeControl v).vram = p.vram ∧ (p.writeControl v).oam = p.oam ∧
      (p.writeControl v).model = p.model ∧ (p.writeControl v).vramBank = p.vramBank := by
  unfold writeControl
  dsimp only
  split
  · exact ⟨rfl, rfl, rfl, rfl⟩
  split <;> exact ⟨rfl, rfl, rfl, rfl⟩

theorem writeRegister_memories (p : Ppu) (a : UInt16) (v : UInt8) :
    (p.writeRegister a v).vram = p.vram ∧ (p.writeRegister a v).oam = p.oam ∧
      (p.writeRegister a v).model = p.model ∧ (p.writeRegister a v).vramBank =
        if p.model.isColor ∧ a = 0xFF4F then v.toNat % 2 else p.vramBank := by
  unfold writeRegister
  split
  case h_1 => simpa using p.writeControl_memories v
  case h_12 =>
    cases hmodel : p.model.isColor with
    | false => simp
    | true =>
      simp only [if_true, true_and]
      unfold writeColorRegister
      split
      case h_1 => simp
      case h_6 hother _ _ _ _ => exact ⟨rfl, rfl, rfl, (if_neg hother).symm⟩
      all_goals simp
  all_goals simp

end Ppu

namespace Bus
variable {σ : Type} [ExternalMemory σ]

def byte (b : Bus σ) : Cell → UInt8
  | .video bank offset => b.ppu.vram.byte bank offset
  | .work bank offset => b.wram.read (bank * 0x1000 + offset)
  | .sprite offset => b.ppu.oam.read offset
  | .high offset => b.hram.read offset

structure Selects (b : Bus σ) (video : Fin 2) (work : Fin 8) : Prop where
  video : b.ppu.vramBank = video
  work : b.wramBank = work

def after (b : Bus σ) : History → Bus σ
  | [] => b
  | w :: earlier => (b.after earlier).write w.address w.value

theorem peek_cell {b : Bus σ} {video : Fin 2} {work : Fin 8} (hbanks : b.Selects video work)
    {a : UInt16} {c : Cell} (h : Cell.at? video work a = some c) :
    Region.ofAddress a ≠ .io ∧ b.peek a = b.byte c := by
  unfold peek
  cases hregion : Region.ofAddress a with
  | vram =>
    obtain ⟨offset, hcell, hplace⟩ := Cell.at?_of_vram video work hregion
    obtain rfl : _ = c := Option.some.inj (hcell.symm.trans h)
    refine ⟨nofun, ?_⟩
    simp only [Ppu.readVram, Ppu.vramOffset, vramBankSize, hbanks.video, hplace]
    rfl
  | wram =>
    obtain ⟨bank, offset, hcell, hplace⟩ := Cell.at?_of_wram video work hregion
    obtain rfl : _ = c := Option.some.inj (hcell.symm.trans h)
    refine ⟨nofun, ?_⟩
    simp only [hbanks.work, hplace]
    rfl
  | oam =>
    obtain ⟨offset, hcell, hplace⟩ := Cell.at?_of_oam video work hregion
    obtain rfl : _ = c := Option.some.inj (hcell.symm.trans h)
    refine ⟨nofun, ?_⟩
    simp only [Ppu.readOam, hplace, offset.isLt, if_true]
    rfl
  | hram =>
    obtain ⟨offset, hcell, hplace⟩ := Cell.at?_of_hram video work hregion
    obtain rfl : _ = c := Option.some.inj (hcell.symm.trans h)
    refine ⟨nofun, ?_⟩
    simp only [hplace]
    rfl
  | cartridge | unusable | io | enable =>
    rw [Cell.at?_of_other _ _ (by rw [hregion]; decide)] at h
    cases h

theorem read_cell {b : Bus σ} {video : Fin 2} {work : Fin 8} (hbanks : b.Selects video work)
    {a : UInt16} {c : Cell} (h : Cell.at? video work a = some c) : b.read a = (b.byte c, b) := by
  obtain ⟨hregion, hbyte⟩ := peek_cell hbanks h
  rw [read_eq_peek b hregion, hbyte]

omit [ExternalMemory σ] in
theorem writeIo_ppu (b : Bus σ) (a : UInt16) (v : UInt8) : (b.writeIo a v).ppu =
    if IoTarget.ofAddress b.model a = .video then b.ppu.writeRegister a v else b.ppu := by
  unfold writeIo recordFault
  cases IoTarget.ofAddress b.model a with
  | unmapped =>
    dsimp only
    split <;> rfl
  | _ => rfl

omit [ExternalMemory σ] in
theorem writeIo_memories (b : Bus σ) (a : UInt16) (v : UInt8) :
    (b.writeIo a v).wram = b.wram ∧ (b.writeIo a v).hram = b.hram ∧
      (b.writeIo a v).cartridge = b.cartridge ∧ (b.writeIo a v).ppu.vram = b.ppu.vram ∧
      (b.writeIo a v).ppu.oam = b.ppu.oam := by
  obtain ⟨hvram, hoam, -, -⟩ := b.ppu.writeRegister_memories a v
  rw [writeIo_ppu, apply_ite Ppu.vram, apply_ite Ppu.oam, hvram, hoam, ite_self, ite_self]
  unfold writeIo recordFault
  cases IoTarget.ofAddress b.model a with
  | unmapped =>
    dsimp only
    split <;> exact ⟨rfl, rfl, rfl, rfl, rfl⟩
  | _ => exact ⟨rfl, rfl, rfl, rfl, rfl⟩

theorem write_byte {b : Bus σ} {video : Fin 2} {work : Fin 8} (hbanks : b.Selects video work)
    (a : UInt16) (v : UInt8) (c : Cell) :
    (b.write a v).byte c = if Cell.at? video work a = some c then v else b.byte c := by
  cases hregion : Region.ofAddress a with
  | vram =>
    obtain ⟨offset, hcell, hplace⟩ := Cell.at?_of_vram video work hregion
    rw [hcell]
    cases c with
    | video bank offset' =>
      simp only [write, hregion, byte, Ppu.writeVram, Ppu.vramOffset, Vram.byte, Memory.read_write,
        hbanks.video, hplace, Option.some.injEq, Cell.video.injEq, Fin.ext_iff, vramBankSize]
      exact ite_congr (propext (by omega)) (fun _ => rfl) fun _ => rfl
    | work | sprite | high => simp [write, hregion, byte, Ppu.writeVram]
  | wram =>
    obtain ⟨bank, offset, hcell, hplace⟩ := Cell.at?_of_wram video work hregion
    rw [hcell]
    cases c with
    | work bank' offset' =>
      simp only [write, hregion, byte, Memory.read_write, hbanks.work, hplace,
        Option.some.injEq, Cell.work.injEq, Fin.ext_iff]
      exact ite_congr (propext (by omega)) (fun _ => rfl) fun _ => rfl
    | video | sprite | high => simp [write, hregion, byte]
  | oam =>
    obtain ⟨offset, hcell, hplace⟩ := Cell.at?_of_oam video work hregion
    rw [hcell]
    cases c with
    | sprite offset' =>
      simp only [write, hregion, byte, Ppu.writeOam, Memory.read_write, hplace, offset.isLt,
        and_true, Option.some.injEq, Cell.sprite.injEq, Fin.ext_iff]
    | video | work | high => simp [write, hregion, byte, Ppu.writeOam]
  | hram =>
    obtain ⟨offset, hcell, hplace⟩ := Cell.at?_of_hram video work hregion
    rw [hcell]
    cases c with
    | high offset' =>
      simp only [write, hregion, byte, Memory.read_write, hplace, offset.isLt, and_true,
        Option.some.injEq, Cell.high.injEq, Fin.ext_iff]
    | video | work | sprite => simp [write, hregion, byte]
  | cartridge | unusable | enable =>
    rw [Cell.at?_of_other _ _ (by rw [hregion]; decide)]
    cases c <;> simp [write, hregion, byte]
  | io =>
    rw [Cell.at?_of_other _ _ (by rw [hregion]; decide)]
    obtain ⟨hwram, hhram, -, hvram, hoam⟩ := b.writeIo_memories a v
    cases c <;> simp [write, hregion, byte, hwram, hhram, hvram, hoam]

theorem target_eq_wramBank {model : Model} {a : UInt16} :
    IoTarget.ofAddress model a = .wramBank ↔ model.isColor ∧ a = 0xFF70 := by
  constructor
  · intro h
    simp only [IoTarget.ofAddress, ite_eq_iff, reduceCtorEq, and_false, false_or, or_false,
      and_true] at h
    simp [h]
  · rintro ⟨hcolor, rfl⟩
    simp [IoTarget.ofAddress, hcolor]

theorem write_wramBank (b : Bus σ) (a : UInt16) (v : UInt8) : (b.write a v).wramBank =
    if b.model.isColor ∧ a = 0xFF70 then selectedBank v else b.wramBank := by
  cases hregion : Region.ofAddress a with
  | io =>
    simp only [write, hregion, ← target_eq_wramBank]
    unfold writeIo recordFault
    cases IoTarget.ofAddress b.model a with
    | unmapped =>
      dsimp only
      split <;> rfl
    | _ => rfl
  | _ =>
    have hne : a ≠ 0xFF70 := by
      rintro rfl
      cases hregion
    simp [write, hregion, hne]

theorem write_vramBank (b : Bus σ) (a : UInt16) (v : UInt8) :
    (b.write a v).ppu.model = b.ppu.model ∧ (b.write a v).ppu.vramBank =
      if b.ppu.model.isColor ∧ a = 0xFF4F then v.toNat % 2 else b.ppu.vramBank := by
  cases hregion : Region.ofAddress a with
  | io =>
    obtain ⟨-, -, hmodel, hbank⟩ := b.ppu.writeRegister_memories a v
    simp only [write, hregion, writeIo_ppu]
    split
    case isTrue => exact ⟨hmodel, hbank⟩
    case isFalse htarget =>
      have hne : a ≠ 0xFF4F := by
        rintro rfl
        exact htarget rfl
      simp [hne]
  | _ =>
    have hne : a ≠ 0xFF4F := by
      rintro rfl
      cases hregion
    simp [write, hregion, hne, Ppu.writeVram, Ppu.writeOam]

/-- A bus with nothing in its memories and its first banks selected. -/
structure Cleared (b : Bus σ) : Prop where
  vram : b.ppu.vram = .zeroed _
  oam : b.ppu.oam = .zeroed _
  wram : b.wram = .zeroed _
  hram : b.hram = .zeroed _
  banks : b.Selects 0 1
  model : b.ppu.model = b.model

omit [ExternalMemory σ] in
theorem cleared_new (model : Model) (cartridge : Cartridge σ) :
    ({ model, cartridge } : Bus σ).Cleared := ⟨rfl, rfl, rfl, rfl, ⟨rfl, rfl⟩, rfl⟩

omit [ExternalMemory σ] in
theorem Cleared.afterBoot {b : Bus σ} (h : b.Cleared) : b.afterBoot.Cleared :=
  ⟨h.vram, h.oam, h.wram, h.hram, ⟨h.banks.video, h.banks.work⟩, h.model⟩

omit [ExternalMemory σ] in
theorem cleared_reset (b : Bus σ) : b.reset.Cleared := by
  unfold reset
  split <;> exact Cleared.afterBoot ⟨rfl, rfl, rfl, rfl, ⟨rfl, rfl⟩, rfl⟩

omit [ExternalMemory σ] in
theorem Cleared.byte {b : Bus σ} (h : b.Cleared) (c : Cell) : b.byte c = 0 := by
  cases c with
  | video bank offset =>
    simp only [Bus.byte, h.vram, Vram.byte, vramBankSize]
    exact Memory.read_filled 0 (by omega)
  | work bank offset =>
    simp only [Bus.byte, h.wram]
    exact Memory.read_filled 0 (by omega)
  | sprite offset =>
    simp only [Bus.byte, h.oam]
    exact Memory.read_filled 0 offset.isLt
  | high offset =>
    simp only [Bus.byte, h.hram]
    exact Memory.read_filled 0 offset.isLt

theorem after_model {b : Bus σ} (hb : b.ppu.model = b.model) (history : History) :
    (b.after history).model = b.model ∧ (b.after history).ppu.model = b.model := by
  induction history with
  | nil => exact ⟨rfl, hb⟩
  | cons w earlier ih =>
    rw [after, write_model, (write_vramBank _ _ _).1]
    exact ih

theorem Cleared.selects_after {b : Bus σ} (hb : b.Cleared) (history : History) :
    (b.after history).Selects (history.videoBank b.model) (history.workBank b.model) := by
  induction history with
  | nil =>
    have hvideo : History.videoBank b.model [] = 0 := ite_self _
    have hwork : History.workBank b.model [] = 1 := ite_self _
    rw [hvideo, hwork]
    exact hb.banks
  | cons w earlier ih =>
    obtain ⟨hmodel, hppu⟩ := after_model hb.model earlier
    constructor
    · rw [after, (write_vramBank _ _ _).2, hppu, ih.video, History.videoBank_cons]
      split <;> rfl
    · rw [after, write_wramBank, hmodel, ih.work, History.workBank_cons]

/-- A bus with its memories cleared, after any writes: at an address of a memory there is the last
value written to the cell that shows there now, through whatever bank was then selected, and zero
if nothing was. -/
theorem read_after_writes {b : Bus σ} (hb : b.Cleared) (history : History) {a : UInt16}
    (ha : 0x8000 ≤ a ∧ a ≤ 0x9FFF ∨ 0xC000 ≤ a ∧ a ≤ 0xFDFF ∨ 0xFE00 ≤ a ∧ a ≤ 0xFE9F ∨
      0xFF80 ≤ a ∧ a ≤ 0xFFFE) :
    ∃ c, history.cell? b.model a = some c ∧ (b.after history).read a =
      ((history.lastInto (History.cell? b.model) c).getD 0, b.after history) := by
  obtain ⟨c, hc⟩ := Cell.exists_at? (history.videoBank b.model) (history.workBank b.model) ha
  have hbyte := History.eq_lastInto (History.cell? b.model) (fun h => (b.after h).byte c) id
    (fun w earlier => write_byte (hb.selects_after earlier) w.address w.value c) history
  rw [Option.map_id, id, after, hb.byte] at hbyte
  exact ⟨c, hc, hbyte ▸ read_cell (hb.selects_after history) hc⟩

theorem read_switched_bank :
    let history : History := [⟨0xFF70, 3⟩, ⟨0xD000, 0x34⟩, ⟨0xFF70, 2⟩, ⟨0xF000, 0x12⟩, ⟨0xFF70, 3⟩]
    bare.Cleared ∧ ((bare.after history).read 0xD000).1 = 0x12 := by
  intro history
  have hcleared : bare.Cleared := (cleared_new _ _).afterBoot
  obtain ⟨c, hc, hread⟩ := read_after_writes hcleared history (a := 0xD000) (by decide)
  obtain rfl : .work 3 0 = c := Option.some.inj hc
  refine ⟨hcleared, ?_⟩
  rw [hread]
  rfl

end Bus
end Handheld
