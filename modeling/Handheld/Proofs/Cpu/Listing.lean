import Handheld.Proofs.Bus.Footprint
import Handheld.Proofs.Cpu.Branches
import Handheld.Proofs.Text.Hexadecimal

/-!
What a listing shows and what is executed. Both come of the same bytes, and the address that the
listing of a branch has is where the branch goes.
-/

namespace Handheld

def Branch.stem : Branch → String
  | relative => "JR"
  | absolute => "JP"
  | call => "CALL"
  | ret => "RET"

namespace Core

variable {σ : Type} [ExternalMemory σ] {c : Core σ}

theorem awake_peek (hlocked : c.cpu.locked = false) : c.awake.bus.peek = c.bus.peek := by
  have hbus := (awake_leads hlocked).bus
  rw [← hbus]
  unfold samples
  split
  · rw [Bus.performAll_cons, Bus.performAll_nil]
    exact c.bus.perform_peek rfl nofun
  · rfl

/-- The instruction that a look at memory shows is the one that a step executes, whatever wakes the
processor before it. -/
theorem step_as_looked_at {j : Instruction} (hj : c.activity = .execute j)
    (h : ∀ a ∈ (Instruction.decode c.bus.peek c.registers.pc).addresses, Region.ofAddress a ≠ .io) :
    j = Instruction.decode c.bus.peek c.registers.pc ∧ c.awake.fetch = (j, c.awake) ∧
      c.step = c.awake.complete j := by
  obtain ⟨hlocked, -, -, hfetched⟩ := of_activity_execute hj
  have hawake : Instruction.decode c.awake.bus.peek c.awake.registers.pc =
      Instruction.decode c.bus.peek c.registers.pc := by
    rw [awake_peek hlocked, awake_registers]
  rw [← hawake] at h ⊢
  have hfetch := fetch_eq_decode h
  obtain rfl : Instruction.decode c.awake.bus.peek c.awake.registers.pc = j := by
    rw [← hfetched, hfetch]
  refine ⟨rfl, hfetch, ?_⟩
  rw [step_eq_complete hj, hfetch]

theorem branch_assembly {k : Branch} {on : Option Condition} {i : Instruction}
    (h : i.operation = k.operation on) (hk : k ≠ .ret) (c : Core σ) :
    let ready := c.mapRegisters ({ · with pc := i.next })
    i.assembly = Operation.branchText k.stem on
      ("$" ++ Hexadecimal.word (ready.go k i).registers.pc) := by
  intro ready
  cases k with
  | ret => exact absurd rfl hk
  | relative | absolute | call =>
    simp only [Instruction.assembly, Instruction.immediateText, h, Branch.operation, Operation.text,
      Operation.immediate]
    rfl

theorem step_target {k : Branch} {on : Option Condition} {i : Instruction}
    (h : i.operation = k.operation on) (htakes : c.takes on) :
    let ready := c.mapRegisters ({ · with pc := i.next })
    (c.complete i).1.registers.pc = (ready.go k i).registers.pc := by
  rw [complete_seen Registers.pc fun _ _ _ => rfl]
  exact congrArg (fun d => d.1.registers.pc) (execute_taken h htakes)

end Core

/-- Where none of the bytes of an instruction is a register, what a look at memory shows there is
what the processor fetches, the fetch changes nothing, and the program counter stands behind those
bytes when it is executed. The digits in the listing of a jump or a call are the address it goes
to. -/
theorem listing_executes {σ : Type} [ExternalMemory σ] (c : Core σ) :
    let i := Instruction.decode c.bus.peek c.registers.pc
    (∀ k < i.length, ¬(0xFF00 ≤ c.registers.pc + UInt16.ofNat k ∧
      c.registers.pc + UInt16.ofNat k ≤ 0xFF7F)) →
    c.fetch = (i, c) ∧ i.next = c.registers.pc + UInt16.ofNat i.length ∧
    ∀ j, c.activity = .execute j →
      j = i ∧ c.awake.fetch = (i, c.awake) ∧ c.step = c.awake.complete i ∧
      ∀ (k : Branch) (on : Option Condition), i.operation = k.operation on → k ≠ .ret →
        c.takes on →
          let pc := c.step.1.registers.pc
          i.assembly = Operation.branchText k.stem on ("$" ++ Hexadecimal.word pc) ∧
          (Hexadecimal.word pc).toList.length = 4 ∧
          Hexadecimal.valueFrom? 0 (Hexadecimal.word pc).toList = some pc.toNat := by
  intro i hplaces
  have hmemory : ∀ a ∈ i.addresses, Region.ofAddress a ≠ .io := by
    intro a ha hio
    obtain ⟨k, hk, rfl⟩ := List.mem_map.mp ha
    have haddress : i.address = c.registers.pc := Instruction.decode_address ..
    rw [haddress] at hio
    exact hplaces k (List.mem_range.mp hk) (Region.io_range hio)
  refine ⟨Core.fetch_eq_decode hmemory, ?_, fun j hj => ?_⟩
  · rw [Instruction.next, Instruction.decode_address]
  obtain ⟨rfl, hfetch, hstep⟩ := Core.step_as_looked_at hj hmemory
  refine ⟨rfl, hfetch, hstep, fun k on hop hk htakes => ?_⟩
  have htakes' : c.awake.takes on := by
    rwa [Core.takes_congr (congrArg Registers.flags c.awake_registers)]
  intro pc
  have htarget : pc = ((c.awake.mapRegisters ({ · with pc := i.next })).go k i).registers.pc :=
    (congrArg (fun s => s.1.registers.pc) hstep).trans (Core.step_target hop htakes')
  refine ⟨?_, Hexadecimal.word_digits pc⟩
  rw [htarget]
  exact Core.branch_assembly hop hk c.awake

theorem jump_listed_over_end :
    let c := ((Machine.programmed [0x3E, 0xC3, 0xE0, 0xFE, 0x3E, 0x50, 0xE0, 0xFF, 0xC3, 0xFE, 0xFF]
      ).processorSteps 5).core
    let i := Instruction.decode c.bus.peek c.registers.pc
    c.registers.pc = 0xFFFE ∧ i.next = 0x0001 ∧ c.fetch.1 = i ∧ i.assembly = "JP $0050" ∧
      c.step.1.registers.pc = 0x0050 := by
  intro c i
  have hi : i = ⟨0xFFFE, .jump none, 0xC3, false, 0x50, 0x00⟩ := by decide +kernel
  have hactivity : c.activity = .execute ⟨0xFFFE, .jump none, 0xC3, false, 0x50, 0x00⟩ := by
    decide +kernel
  have hpc : c.registers.pc = 0xFFFE := by decide +kernel
  have hafter : c.step.1.registers.pc = 0x0050 := by decide +kernel
  clear_value c
  have hplaces : ∀ k < i.length, ¬(0xFF00 ≤ c.registers.pc + UInt16.ofNat k ∧
      c.registers.pc + UInt16.ofNat k ≤ 0xFF7F) := by
    rw [hi, hpc]
    decide
  obtain ⟨hfetch, -, hexecuted⟩ := listing_executes c hplaces
  obtain ⟨-, -, -, hlisted⟩ := hexecuted _ hactivity
  have hoperation : i.operation = Branch.operation .absolute none := by
    rw [hi]
    rfl
  obtain ⟨hassembly, -, -⟩ := hlisted .absolute none hoperation (by decide) rfl
  rw [hafter] at hassembly
  refine ⟨hpc, ?_, congrArg Prod.fst hfetch, hassembly.trans (by decide +kernel), hafter⟩
  exact hi ▸ rfl

end Handheld
