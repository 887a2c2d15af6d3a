import Handheld.Proofs.Cpu.Fetch

/-!
Single steps of a processor that executes and is not interrupted, and of one that a button wakes.
-/

namespace Handheld.Core

variable {σ : Type} [ExternalMemory σ] {c : Core σ}

/-- The processor executes, and no interrupt can be dispatched or is about to be enabled. -/
structure Running (cpu : Cpu) : Prop where
  locked : cpu.locked = false
  halted : cpu.halted = false
  stopped : cpu.stopped = false
  ime : cpu.registers.ime = false
  imePending : cpu.registers.imePending = false

theorem fetch_of_cartridge
    (h : ∀ k < 4, Region.ofAddress (c.cpu.registers.pc + UInt16.ofNat k) = .cartridge) :
    c.fetch = (Instruction.decode c.bus.cartridge.read c.cpu.registers.pc, c) := by
  have hplace : ∀ a ∈ (Instruction.decode c.bus.peek c.cpu.registers.pc).addresses,
      Region.ofAddress a = .cartridge := by
    intro a ha
    obtain ⟨k, hk, rfl⟩ := List.mem_map.mp ha
    rw [Instruction.decode_address]
    exact h k (Nat.lt_of_lt_of_le (List.mem_range.mp hk) (Instruction.length_le _))
  have hsame : Instruction.decode c.bus.cartridge.read c.cpu.registers.pc =
      Instruction.decode c.bus.peek c.cpu.registers.pc :=
    Instruction.decode_congr fun a ha => by simp only [Bus.peek, hplace a ha]
  rw [hsame]
  exact fetch_eq_decode fun a ha => by simp [hplace a ha]

theorem step_of_fetch {i : Instruction} (h : Running c.cpu) (hfetch : c.fetch = (i, c)) : c.step =
    let r := (c.mapRegisters ({ · with pc := i.next })).execute i
    let n := i.cycles r.2
    (⟨{ r.1.cpu with cycles := r.1.cpu.cycles + n }, r.1.bus⟩, n) := by
  have hnone : c.dispatchable? = none := if_neg (Bool.eq_false_iff.mp h.ime)
  have hpending : c.registers.imePending = false := h.imePending
  rw [step, (activity_of_running h.locked h.halted h.stopped hnone).2, runInstruction, hfetch, hpending]
  rfl

theorem step_storeAHigh {i : Instruction} (h : Running c.cpu) (hfetch : c.fetch = (i, c))
    (hop : i.operation = .storeAHigh) : c.step =
      (⟨{ c.cpu with
          registers := { c.cpu.registers with pc := i.next }
          cycles := c.cpu.cycles + 12 }, c.bus.write (highPage i.first) c.cpu.registers.a⟩, 12) := by
  rw [step_of_fetch h hfetch]
  simp [execute, executeLoad, storeAAt, writeByte, registers, mapRegisters, Instruction.cycles, hop,
    Operation.cycles]

theorem step_stop_switch {i : Instruction} (h : Running c.cpu) (hfetch : c.fetch = (i, c))
    (hop : i.operation = .stop) (hcolor : c.bus.model.isColor) (hprimed : c.bus.speedPrimed) :
    c.step =
      (⟨{ c.cpu with
          registers := { c.cpu.registers with pc := i.next }
          cycles := c.cpu.cycles + 4 },
        { c.bus.setDivider 0 with speedPrimed := false, speed := c.bus.speed.other }⟩, 4) := by
  rw [step_of_fetch h hfetch]
  have hswitch : (c.bus.setDivider 0).switchSpeed =
      ({ c.bus.setDivider 0 with speedPrimed := false, speed := c.bus.speed.other }, true) :=
    if_pos (by simp [Bus.setDivider, hcolor, hprimed])
  simp [execute, stop, mapRegisters, Instruction.cycles, hop, Operation.cycles, hswitch]

theorem step_call_cycles {i : Instruction} (h : Running c.cpu) (hfetch : c.fetch = (i, c))
    (hop : i.operation = .call none) : c.step.2 = 24 := by
  rw [step_of_fetch h hfetch]
  simp [execute, branch, takes, Instruction.cycles, hop, Operation.cycles]

def woken (c : Core σ) : Core σ := ⟨{ c.cpu with stopped := false }, c.bus.syncJoypad⟩

theorem step_of_held (h : Running c.woken.cpu) (hstopped : c.cpu.stopped)
    (hheld : c.bus.held.bits ≠ 0) : c.step = c.woken.step := by
  have hlocked : c.cpu.locked = false := h.locked
  have hhalted : c.cpu.halted = false := h.halted
  have hnone : c.dispatchable? = none := if_neg (Bool.eq_false_iff.mp h.ime)
  have hnone' : c.woken.dispatchable? = none := if_neg (Bool.eq_false_iff.mp h.ime)
  have hhalt : c.wakeFromHalt = c := by simp [wakeFromHalt, hhalted]
  have hany : c.bus.syncJoypad.joypad.anyHeld = true := by
    simpa [Joypad.anyHeld, Bus.syncJoypad, Joypad.sync] using hheld
  have hawake : c.awake = c.woken := by
    rw [awake, hhalt, wakeFromStop, if_pos hstopped]
    simp [hany, woken]
  have hactivity : c.activity = .execute c.awake.fetch.1 := by
    simp [activity, hnone, hlocked, hawake, h.stopped, h.halted]
  have hrun := (activity_of_running h.locked h.halted h.stopped hnone').2
  rw [step, step, stepUncounted_eq, hactivity, hawake, hrun]

end Handheld.Core
