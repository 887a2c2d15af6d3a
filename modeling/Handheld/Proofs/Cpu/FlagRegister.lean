import Handheld.Proofs.Cpu.Dispatch
import Handheld.Proofs.Cpu.Fetch
import Handheld.Proofs.Machine.Reachable

/-!
What becomes of F. Its lower half stays zero over every run, and each operation leaves alone the
flags that it has no business with.
-/

namespace Handheld

namespace Flags

theorem and_mask_eq {mask : UInt8} {n : Nat} (h : mask.toNat = 2 ^ n) (b : UInt8) :
    b &&& mask = if b &&& mask != 0 then mask else 0 := by
  rw [and_mask_ne_zero h, ← UInt8.toNat_inj, UInt8.toNat_and, h, Nat.and_two_pow]
  cases b.toNat.testBit n
  · simp
  · simpa using h.symm

theorem or_and_of_disjoint {b mask : UInt8} (h : b &&& mask = 0) (a : UInt8) :
    (a ||| b) &&& mask = a &&& mask := by
  rw [← UInt8.toNat_inj, UInt8.toNat_and, UInt8.toNat_or, Nat.and_or_distrib_right,
    ← UInt8.toNat_and b, h, UInt8.toNat_and]
  exact Nat.or_zero _

theorem toByte_and_low (f : Flags) : f.toByte &&& 0x0F = 0 := by
  obtain ⟨z, n, h, c⟩ := f
  cases z <;> cases n <;> cases h <;> cases c <;> rfl

theorem toByte_and_zero (f : Flags) : f.toByte &&& zeroMask = if f.zero then zeroMask else 0 := by
  obtain ⟨z, n, h, c⟩ := f
  cases z <;> cases n <;> cases h <;> cases c <;> rfl

theorem toByte_and_carry (f : Flags) :
    f.toByte &&& carryMask = if f.carry then carryMask else 0 := by
  obtain ⟨z, n, h, c⟩ := f
  cases z <;> cases n <;> cases h <;> cases c <;> rfl

theorem toByte_keeps_zero {f : Flags} {b : UInt8} (h : f.zero = (ofByte b).zero) :
    f.toByte &&& zeroMask = b &&& zeroMask := by
  have hmask : zeroMask.toNat = 2 ^ 7 := rfl
  rw [toByte_and_zero, h, and_mask_eq hmask]
  rfl

theorem toByte_keeps_carry {f : Flags} {b : UInt8} (h : f.carry = (ofByte b).carry) :
    f.toByte &&& carryMask = b &&& carryMask := by
  have hmask : carryMask.toNat = 2 ^ 4 := rfl
  rw [toByte_and_carry, h, and_mask_eq hmask]
  rfl

end Flags

namespace Registers

theorem set_f (r : Registers) (x : Register) (v : UInt8) : (r.set x v).f = r.f := by
  cases x <;> rfl

theorem setPair_f (r : Registers) (p : Pair) (w : UInt16) : (r.setPair p w).f = r.f := by
  cases p <;> rfl

end Registers

def Operation.keptFlags : Operation → UInt8
  | .accumulate .. | .accumulateImmediate _ | .shift .. | .rotateA _ | .decimalAdjust => 0
  | .loadHLSum | .addSP | .pop .af => 0
  | .inc _ | .dec _ | .testBit .. => Flags.carryMask
  | .addPair _ | .setCarry | .complementCarry => Flags.zeroMask
  | .complement => Flags.zeroMask ||| Flags.carryMask
  | _ => 0xFF

structure Operation.Leaves (op : Operation) (f g : UInt8) : Prop where
  kept : g &&& op.keptFlags = f &&& op.keptFlags
  same : op.keptFlags = 0xFF → g = f
  cleared : ∀ s, op = .rotateA s → g &&& Flags.zeroMask = 0

namespace Core

variable {σ : Type} [ExternalMemory σ]

theorem writeOperand_f (c : Core σ) (o : Operand) (v : UInt8) :
    (c.writeOperand o v).registers.f = c.registers.f := by
  cases o with
  | register x => exact Registers.set_f _ x v
  | atHL => rfl

theorem modify_f (c : Core σ) (o : Operand) (f : UInt8 → Flags → UInt8 × Flags) :
    (c.modify o f).registers.f = (f (c.readOperand o).1 c.registers.flags).2.toByte := by
  simp only [modify, readOperand_registers]
  exact writeOperand_f ..

theorem rewrite_f (c : Core σ) (o : Operand) (v : UInt8) :
    ((c.readOperand o).2.writeOperand o v).registers.f = c.registers.f := by
  rw [writeOperand_f, readOperand_registers]

omit [ExternalMemory σ] in
theorem follow_f (c : Core σ) (p : Pointer) : (c.follow p).2.registers.f = c.registers.f := by
  cases p <;> rfl

omit [ExternalMemory σ] in
theorem branch_f {c : Core σ} {on : Option Condition} {go : Core σ → Core σ}
    (h : (go c).registers.f = c.registers.f) : (c.branch on go).1.registers.f = c.registers.f := by
  unfold branch
  split
  · exact h
  · rfl

def flagsAfter (c : Core σ) (i : Instruction) : UInt8 :=
  let r := c.registers
  match i.operation with
  | .accumulate op src => (Alu.accumulate op r.a (c.readOperand src).1 r.flags.carry).2.toByte
  | .accumulateImmediate op => (Alu.accumulate op r.a i.first r.flags.carry).2.toByte
  | .inc dst => (Alu.inc (c.readOperand dst).1 r.flags.carry).2.toByte
  | .dec dst => (Alu.dec (c.readOperand dst).1 r.flags.carry).2.toByte
  | .shift op dst => (Alu.shift op (c.readOperand dst).1 r.flags.carry).2.toByte
  | .testBit n src => (Alu.bitTest n (c.readOperand src).1 r.flags.carry).toByte
  | .addPair src => (Alu.addWords r.hl (r.pair src) r.flags.zero).2.toByte
  | .loadHLSum | .addSP => (Alu.addSigned r.sp i.first).2.toByte
  | .decimalAdjust => (Alu.decimalAdjust r.a r.flags).2.toByte
  | .complement => r.f ||| (Flags.subtractMask ||| Flags.halfMask)
  | .setCarry => Flags.toByte ⟨r.flags.zero, false, false, true⟩
  | .complementCarry => Flags.toByte ⟨r.flags.zero, false, false, !r.flags.carry⟩
  | .rotateA op => Flags.toByte { (Alu.shift op r.a r.flags.carry).2 with zero := false }
  | .pop .af => lowByte c.pop.1 &&& 0xF0
  | _ => r.f

theorem executeLoad_f (c : Core σ) (i : Instruction) : (c.executeLoad i).registers.f =
    if i.operation = .pop .af then lowByte c.pop.1 &&& 0xF0 else c.registers.f := by
  cases h : i.operation <;> simp only [executeLoad, h, reduceCtorEq, if_false]
  case load dst src => rw [writeOperand_f, readOperand_registers]
  case loadImmediate dst => exact writeOperand_f ..
  case storeA p | loadA p => exact follow_f ..
  case pop dst => cases dst <;> rfl
  all_goals rfl

theorem execute_f (c : Core σ) (i : Instruction) :
    (c.execute i).1.registers.f = c.flagsAfter i := by
  have hload := c.executeLoad_f i
  cases h : i.operation <;> simp only [h, reduceCtorEq, if_false] at hload <;>
    simp only [execute, executeByte, flagsAfter, h, hload, registersAfter]
  case stop =>
    simp only [stop]
    split <;> rfl
  case jump | jumpRelative | call | ret => exact branch_f rfl
  case accumulate op src =>
    rw [← c.readOperand_registers src]
    rfl
  case testBit n src =>
    rw [← c.readOperand_registers src]
    rfl
  case inc | dec | shift => exact modify_f ..
  case resetBit | setBit => exact rewrite_f ..
  case loadPair | incPair | decPair => exact Registers.setPair_f ..
  case pop dst => cases dst <;> simp
  case enableInterrupts =>
    simp only [registers, mapRegisters]
    split <;> rfl
  all_goals rfl

theorem flagsAfter_kept (c : Core σ) (i : Instruction) :
    c.flagsAfter i &&& i.operation.keptFlags = c.registers.f &&& i.operation.keptFlags := by
  cases h : i.operation <;> simp only [flagsAfter, h, Operation.keptFlags, UInt8.and_zero]
  case inc | dec | testBit => exact Flags.toByte_keeps_carry rfl
  case addPair | setCarry | complementCarry => exact Flags.toByte_keeps_zero rfl
  case complement => exact Flags.or_and_of_disjoint rfl _
  case pop dst => cases dst <;> simp

theorem flagsAfter_leaves (c : Core σ) (i : Instruction) :
    i.operation.Leaves c.registers.f (c.flagsAfter i) where
  kept := c.flagsAfter_kept i
  same h := by
    have hkept := c.flagsAfter_kept i
    have hones (b : UInt8) : b &&& 0xFF = b := UInt8.and_neg_one
    rwa [h, hones, hones] at hkept
  cleared s h := by
    simp only [flagsAfter, h]
    exact Flags.toByte_and_zero _

theorem flagsAfter_low {c : Core σ} (h : c.registers.f &&& 0x0F = 0) (i : Instruction) :
    c.flagsAfter i &&& 0x0F = 0 := by
  cases hop : i.operation <;> simp only [flagsAfter, hop]
  case accumulate | accumulateImmediate | inc | dec | shift | testBit | addPair | loadHLSum | addSP
      | decimalAdjust | setCarry | complementCarry | rotateA => exact Flags.toByte_and_low _
  case complement => exact (Flags.or_and_of_disjoint rfl _).trans h
  case pop dst =>
    cases dst with
    | af => rw [UInt8.and_assoc]; exact UInt8.and_zero
    | bc | de | hl => exact h
  all_goals exact h

theorem step_f (c : Core σ) : c.step.1.registers.f =
    match c.activity with
    | .execute i => c.awake.fetched.flagsAfter i
    | _ => c.registers.f := by
  have hstep : c.step.1.registers = c.stepUncounted.1.registers := rfl
  cases h : c.activity with
  | rest =>
    rw [hstep, stepUncounted_eq, h]
    dsimp only
    split
    · rfl
    · rw [awake_registers]
  | dispatch irq =>
    rw [hstep, stepUncounted_eq, h]
    dsimp only
    rw [dispatch_awake]
    rfl
  | execute i =>
    obtain ⟨-, -, -, rfl⟩ := of_activity_execute h
    have hseen := complete_seen Registers.f (fun _ _ _ => rfl) c.awake.fetch.2
      c.awake.fetch.1
    rw [step_eq_complete h, hseen]
    exact execute_f c.awake.fetched c.awake.fetch.1

theorem fetched_f (c : Core σ) : c.awake.fetched.registers.f = c.registers.f := by
  rw [← c.awake_registers]
  rfl

theorem step_leaves {c : Core σ} {i : Instruction} (h : c.activity = .execute i) :
    i.operation.Leaves c.registers.f c.step.1.registers.f := by
  rw [step_f, h, ← fetched_f]
  exact flagsAfter_leaves _ i

theorem step_f_low {c : Core σ} (h : c.registers.f &&& 0x0F = 0) :
    c.step.1.registers.f &&& 0x0F = 0 := by
  rw [step_f]
  cases c.activity with
  | execute i => exact flagsAfter_low ((congrArg (· &&& 0x0F) c.fetched_f).trans h) i
  | rest | dispatch => exact h

end Core

theorem Machine.Reachable.f_low {σ : Type} [ExternalMemory σ] {m : Machine σ} (h : m.Reachable) :
    m.cpu.registers.f &&& 0x0F = 0 := by
  have hboot (model : Model) : (Cpu.postBoot model).registers.f &&& 0x0F = 0 := by
    cases model <;> rfl
  induction h with
  | start h =>
    cases h with
    | create cartridge settings => exact hboot _
    | reset m => exact hboot _
  | step h ih =>
    rw [step_cpu]
    exact Core.step_f_low ih
  | processorStep h ih => exact Core.step_f_low ih
  | perform h e ih => exact ih

/-- The lower half of F is zero over every run. In whatever state, an operation leaves alone the
flags that are none of its own, and the rotations of A clear the zero flag. -/
theorem flags_over_runs (σ : Type) [ExternalMemory σ] :
    (∀ m : Machine σ, m.Reachable → m.cpu.registers.f &&& 0x0F = 0) ∧
    (∀ (c : Core σ) (i : Instruction),
      i.operation.Leaves c.registers.f (c.execute i).1.registers.f) ∧
    ∀ (c : Core σ) (i : Instruction), c.activity = .execute i →
      i.operation = (if i.selected then .ofSelected i.code else .ofCode i.code) ∧
        i.operation.Leaves c.registers.f c.step.1.registers.f := by
  refine ⟨fun m hm => hm.f_low, fun c i => ?_, fun c i hi => ⟨?_, Core.step_leaves hi⟩⟩
  · rw [c.execute_f]
    exact c.flagsAfter_leaves i
  · obtain ⟨-, -, -, rfl⟩ := Core.of_activity_execute hi
    exact Core.fetch_operation _

theorem flags_of_popped_word :
    let m := (Machine.programmed [0x01, 0xFF, 0x12, 0xC5, 0xF1, 0x04]).processorSteps 3
    m.cpu.registers.af = 0x12F0 ∧ m.cpu.registers.f &&& 0x0F = 0 ∧
      m.core.step.1.registers.f &&& Flags.carryMask = Flags.carryMask := by
  intro m
  have hreachable : m.Reachable := Machine.programmed_reachable _ _
  have haf : m.cpu.registers.af = 0x12F0 := by decide +kernel
  have hf : m.core.registers.f = 0xF0 := by decide +kernel
  have hactivity : m.core.activity = .execute ⟨0x105, .inc (.register .b), 0x04, false, 0, 0⟩ := by
    decide +kernel
  obtain ⟨hlow, -, hstep⟩ := flags_over_runs VolatileRam
  have hkept := (hstep m.core _ hactivity).2.kept
  rw [hf] at hkept
  exact ⟨haf, hlow m hreachable, hkept⟩

end Handheld
