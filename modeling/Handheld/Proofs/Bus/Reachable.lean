import Handheld.Cartridge.Storage
import Handheld.Proofs.Bus.Events

/-!
What holds on every bus that a machine can come to, whatever it runs: the display keeps to its
schedule while it is on, and a transfer that waits for horizontal blanks knows none that is still to
come.
-/

namespace Handheld

/-- A transfer by blanks when `entered` of them were entered: it has a block to go, as many as its
register can ask for at most, and the last blank it copied in was entered. -/
def VramTransfer.Sound (entered : Nat) : VramTransfer → Prop
  | .general _ => True
  | .hblank blocks line copied =>
    0 < blocks ∧ blocks ≤ 128 ∧ copied ≤ Dma.blockLength ∧ ∀ k, line = some k → k ≤ entered

theorem VramTransfer.Sound.mono {t : VramTransfer} {m n : Nat} (hle : m ≤ n) (h : t.Sound m) :
    t.Sound n := by
  cases t with
  | general => trivial
  | hblank blocks line copied =>
    obtain ⟨hpos, hmost, hcopied, hline⟩ := h
    exact ⟨hpos, hmost, hcopied, fun k hk => Nat.le_trans (hline k hk) hle⟩

namespace Dma

theorem afterByte_sound {blocks line n entered : Nat} {t : VramTransfer} (hpos : 0 < blocks)
    (hle : blocks ≤ 128) (hn : n ≤ blockLength) (hline : line ≤ entered)
    (h : afterByte blocks line n = some t) : t.Sound entered := by
  unfold afterByte at h
  split at h
  · split at h
    · cases h
    · cases h
      exact ⟨by omega, by omega, hn, fun k hk => by cases hk; exact hline⟩
  · cases h
    exact ⟨hpos, hle, hn, fun k hk => by cases hk; exact hline⟩

theorem writeControl_sound {d : Dma} {v : UInt8} {entered : Nat} {t : VramTransfer}
    (h : (d.writeControl v).vram = some t) : t.Sound entered := by
  unfold writeControl at h
  dsimp only at h
  split at h
  · split at h
    · cases h
    · cases h
      trivial
  · cases h
    exact ⟨by omega, by omega, by decide, fun k hk => by cases hk⟩

end Dma

namespace Bus
open Dma

variable {σ : Type} [ExternalMemory σ]

/-- A bus that has run nothing: its display is off or at the start of a frame, and no transfer to
video memory is under way. -/
structure Fresh (b : Bus σ) : Prop where
  display : b.ppu.lcdEnabled → b.ppu.dot = 0
  transfer : b.dma.vram = none

def Reachable (b : Bus σ) : Prop :=
  ∃ (start : Bus σ) (events : List Event), start.Fresh ∧ start.performAll events = b

structure Sound (b : Bus σ) : Prop where
  display : b.ppu.Scheduled
  transfer : ∀ t, b.dma.vram = some t → t.Sound b.ppu.hblankCount

omit [ExternalMemory σ] in
theorem Fresh.sound {b : Bus σ} (h : b.Fresh) : b.Sound where
  display hon := Ppu.onSchedule_of_dot_eq_zero (h.display hon)
  transfer t ht := by rw [h.transfer] at ht; cases ht

theorem stepPpu_blank_number {b : Bus σ} {k : Nat} (h : b.stepPpu.blank = some k) :
    k = b.cycle.ppu.hblankCount := by
  have hcount : b.cycle.ppu.hblankCount = b.stepPpu.ppu.hblankCount :=
    congrArg Ppu.Progress.hblankCount b.cycle_progress
  rw [blank_eq] at h
  split at h
  · rw [hcount]
    exact (Option.some.inj h).symm
  · cases h

theorem cycle_sound {b : Bus σ} (h : b.Sound) : b.cycle.Sound := by
  obtain ⟨hscheduled, hle⟩ := perform_scheduled h.display .cycle
  refine ⟨hscheduled, fun t ht => ?_⟩
  rw [b.cycle_dma] at ht
  rcases b.dma.step_vram_cases b.stepPpu.stepTimer with
    hsame | hnone | ⟨blocks, line, copied, current, hvram, hblank, hmore, hnext⟩
  · exact (h.transfer t (hsame.symm.trans ht)).mono hle
  · rw [hnone] at ht
    cases ht
  · obtain ⟨hpos, hmost, -, -⟩ := h.transfer _ hvram
    rw [stepOam_hblank] at hblank
    have hcurrent := stepPpu_blank_number (b := b) hblank
    exact afterByte_sound hpos hmost (by omega) (Nat.le_of_eq hcurrent) (hnext.symm.trans ht)

theorem write_sound {b : Bus σ} (h : b.Sound) (address : UInt16) (v : UInt8) :
    (b.perform (.write address v)).Sound := by
  obtain ⟨hscheduled, hle⟩ := perform_scheduled h.display (.write address v)
  refine ⟨hscheduled, fun t ht => ?_⟩
  rcases b.write_dma address v with hsame | hdma
  · exact (h.transfer t ((congrArg Dma.vram hsame).symm.trans ht)).mono hle
  · have ht : (b.dma.write address v).vram = some t := (congrArg Dma.vram hdma).symm.trans ht
    by_cases hcontrol : address = 0xFF55
    · subst hcontrol
      exact writeControl_sound (d := b.dma) ht
    · rw [b.dma.write_vram v hcontrol] at ht
      exact (h.transfer t ht).mono hle

theorem perform_sound {b : Bus σ} (h : b.Sound) (e : Event) : (b.perform e).Sound := by
  rcases e.kind with rfl | ⟨address, v, rfl⟩ | ⟨hcycle, hwrite⟩
  · exact cycle_sound h
  · exact write_sound h address v
  · obtain ⟨hppu, hdma⟩ := perform_other (b := b) hcycle hwrite
    refine ⟨?_, ?_⟩
    · rw [hppu]; exact h.display
    · rw [hppu, hdma]; exact h.transfer

theorem Reachable.sound {b : Bus σ} (h : b.Reachable) : b.Sound := by
  obtain ⟨start, events, hfresh, rfl⟩ := h
  exact performAll_invariant hfresh.sound fun b e _ hb => perform_sound hb e

theorem Fresh.reachable {b : Bus σ} (h : b.Fresh) : b.Reachable := ⟨b, [], h, rfl⟩

theorem Reachable.performAll {b : Bus σ} (h : b.Reachable) (events : List Event) :
    (b.performAll events).Reachable := by
  obtain ⟨start, before, hfresh, rfl⟩ := h
  exact ⟨start, before ++ events, hfresh, performAll_append start before events⟩

def bare : Bus VolatileRam := afterBoot
  { model := .color
    cartridge :=
      { rom := .empty
        header :=
          { title := ""
            colorFlag := 0x80
            superFlag := 0
            kind := { controller := .romOnly }
            romSize := 0
            ramSize := 0
            destination := 0
            licensee := 0
            version := 0
            headerChecksum := 0
            globalChecksum := 0 }
        controller := .romOnly
        storage := {}
        hasRam := false } }

theorem bare_fresh : bare.Fresh := ⟨fun _ => rfl, rfl⟩

end Bus
end Handheld
