import Handheld.Proofs.Bus.WorkMemory
import Handheld.Proofs.Cpu.Accesses

/-!
How an instruction is read, and what is left of a step then. Its own bytes alone tell which
instruction it is; where none of them is a register it is read as it is looked at, and reading it
changes nothing.
-/

namespace Handheld

variable {σ : Type} [ExternalMemory σ]

namespace Instruction

theorem decode_eq (peek : UInt16 → UInt8) (address : UInt16) : decode peek address =
    let head := peek address
    let selected := head == selector
    let code := if selected then peek (address + 1) else head
    let operation := if selected then Operation.ofSelected code else Operation.ofCode code
    let next := if selected then address + 2 else address + 1
    let count := operation.immediate.length
    { address, operation, code, selected
      first := if 0 < count then peek next else 0
      second := if 1 < count then peek (next + 1) else 0 } := by
  simp only [decode, decodeWith, Id.run, bind, pure]
  cases peek address == selector <;>
    simp only [if_true, if_false, Bool.false_eq_true] <;> split <;> split <;> rfl

@[simp] theorem decode_address (peek : UInt16 → UInt8) (address : UInt16) :
    (decode peek address).address = address := by
  rw [decode_eq]

def addresses (i : Instruction) : List UInt16 :=
  (List.range i.length).map fun k => i.address + UInt16.ofNat k

theorem mem_reads {i : Instruction} {a : UInt16} : .read a ∈ i.reads ↔ a ∈ i.addresses := by
  simp only [reads, addresses, List.mem_map, Bus.Event.read.injEq]

theorem mem_addresses (i : Instruction) :
    let next := if i.selected then i.address + 2 else i.address + 1
    i.address ∈ i.addresses ∧ (i.selected → i.address + 1 ∈ i.addresses) ∧
      (0 < i.operation.immediate.length → next ∈ i.addresses) ∧
      (1 < i.operation.immediate.length → next + 1 ∈ i.addresses) := by
  intro next
  simp only [← mem_reads, reads_eq]
  refine ⟨by simp, fun hselected => by simp [hselected], fun hfirst => ?_, fun hsecond => ?_⟩
  · rw [if_pos hfirst]
    simp [next]
  · rw [if_pos hsecond]
    simp [next]

theorem length_le (i : Instruction) : i.length ≤ 4 := by
  have hlt := i.operation.immediate.length_lt
  have hone := i.selected.toNat_le
  rw [length]
  omega

theorem decode_congr {peek peek' : UInt16 → UInt8} {address : UInt16}
    (h : ∀ a ∈ (decode peek address).addresses, peek' a = peek a) :
    decode peek' address = decode peek address := by
  obtain ⟨hhead, hcode, hfirst, hsecond⟩ := (decode peek address).mem_addresses
  have hif {wanted : Prop} [Decidable wanted] {a : UInt16} (v : UInt8)
      (ha : wanted → a ∈ (decode peek address).addresses) :
      (if wanted then peek' a else v) = if wanted then peek a else v := by
    split
    case isTrue hwanted => exact h a (ha hwanted)
    case isFalse => rfl
  have hhead' := h _ hhead
  have hcode' := hif (peek address) hcode
  have hfirst' := hif 0 hfirst
  have hsecond' := hif 0 hsecond
  rw [decode_eq] at hhead' hcode' hfirst' hsecond'
  dsimp only at hhead' hcode' hfirst' hsecond'
  rw [decode_eq, decode_eq]
  simp only [hhead', hcode', hfirst', hsecond']

end Instruction

namespace Bus

section
variable {α : Type} {f : UInt8 → StateM (Bus σ) α} {b b' : Bus σ} {a : UInt16} {v : UInt8}

theorem run_read (h : b.read a = (v, b')) :
    (((fun b : Bus σ => b.read a : StateM (Bus σ) UInt8) >>= f).run b) = (f v).run b' := by
  simp [StateT.run, bind, StateT.bind, h]

theorem Reads.after_read {R : α → List Event → Prop} (h : b.read a = (v, b'))
    (hf : Reads (f v) R) : ∃ events,
      R (((fun b : Bus σ => b.read a : StateM (Bus σ) UInt8) >>= f).run b).1 events := by
  obtain ⟨events, -, hrest⟩ := hf b'
  rw [run_read h]
  exact ⟨events, hrest⟩

theorem run_readIf {wanted : Prop} [Decidable wanted] (w : UInt8)
    (h : wanted → b.read a = (v, b)) :
    (if wanted then (fun b : Bus σ => b.read a : StateM (Bus σ) UInt8) >>= f
      else pure w >>= f).run b = (f (if wanted then v else w)).run b := by
  split
  case isTrue hwanted => exact run_read (h hwanted)
  case isFalse => rfl

end

theorem decodeWith_run {b : Bus σ} {address : UInt16}
    (h : ∀ a ∈ (Instruction.decode b.peek address).addresses, Region.ofAddress a ≠ .io) :
    StateT.run (Instruction.decodeWith (m := StateM (Bus σ)) (fun a b => b.read a) address) b =
      (Instruction.decode b.peek address, b) := by
  have hread {a : UInt16} (ha : a ∈ (Instruction.decode b.peek address).addresses) :
      b.read a = (b.peek a, b) := b.read_eq_peek (h a ha)
  obtain ⟨hhead, hcode, hfirst, hsecond⟩ := (Instruction.decode b.peek address).mem_addresses
  rw [Instruction.decode_eq] at hread hhead hcode hfirst hsecond ⊢
  unfold Instruction.decodeWith
  refine (run_read (hread hhead)).trans ?_
  refine (run_readIf _ fun wanted => hread (hcode wanted)).trans ?_
  refine (run_readIf _ fun wanted => hread (hfirst wanted)).trans ?_
  exact run_readIf _ fun wanted => hread (hsecond wanted)

end Bus

namespace Core

/-- Where none of its bytes is a register, the instruction that is executed is the one that a look
at memory shows, and reading it changes nothing. -/
theorem fetch_eq_decode {c : Core σ}
    (h : ∀ a ∈ (Instruction.decode c.bus.peek c.registers.pc).addresses, Region.ofAddress a ≠ .io) :
    c.fetch = (Instruction.decode c.bus.peek c.registers.pc, c) := by
  simp only [fetch, Bus.decodeWith_run h]

theorem fetch_operation (c : Core σ) : c.fetch.1.operation =
    if c.fetch.1.selected then .ofSelected c.fetch.1.code else .ofCode c.fetch.1.code := by
  have hdecode : Bus.Reads (Instruction.decodeWith
      (fun a (b : Bus σ) => b.read a : UInt16 → StateM (Bus σ) UInt8) c.registers.pc) fun i _ =>
      i.operation = if i.selected then .ofSelected i.code else .ofCode i.code := by
    unfold Instruction.decodeWith
    refine .read _ fun head => ?_
    refine .readIf _ _ fun code => ?_
    refine .readIf _ _ fun first => ?_
    exact .readIf _ _ fun second => .pure rfl
  obtain ⟨-, -, hoperation⟩ := hdecode c.bus
  exact hoperation

theorem fetch_head {c : Core σ} {v : UInt8} (h : (c.bus.read c.registers.pc).1 = v)
    (hv : v ≠ Instruction.selector) :
    c.fetch.1.selected = false ∧ c.fetch.1.code = v ∧ c.fetch.1.operation = .ofCode v := by
  have hselected : (v == Instruction.selector) = false := by simpa using hv
  let told (i : Instruction) (_ : List Bus.Event) : Prop :=
    i.selected = false ∧ i.code = v ∧ i.operation = .ofCode v
  obtain ⟨events, hhead⟩ : ∃ events, told (StateT.run (Instruction.decodeWith (m := StateM (Bus σ))
      (fun a b => b.read a) c.registers.pc) c.bus).1 events := by
    unfold Instruction.decodeWith
    refine Bus.Reads.after_read (Prod.ext h rfl) ?_
    simp only [hselected, Bool.false_eq_true, if_false]
    rw [pure_bind]
    refine .readIf _ _ fun first => ?_
    exact .readIf _ _ fun second => .pure ⟨rfl, rfl, rfl⟩
  exact hhead

/-- The processor after an instruction that was read is executed, the program counter behind it, as
`runInstruction` has it before a pending enable of interrupts takes effect. -/
def carryOut (c : Core σ) (i : Instruction) : Core σ :=
  ((c.mapRegisters ({ · with pc := i.next })).execute i).1

/-- What is left of a step once its instruction has been read, with the cycles of the whole. -/
def complete (c : Core σ) (i : Instruction) : Core σ × Nat :=
  let (d, taken) := (c.mapRegisters ({ · with pc := i.next })).execute i
  let n := i.cycles taken
  let d := d.promoteEnable c.registers.imePending
  (⟨{ d.cpu with cycles := d.cpu.cycles + n }, d.bus⟩, n)

theorem step_eq_complete {c : Core σ} {i : Instruction} (h : c.activity = .execute i) :
    c.step = c.awake.fetch.2.complete i := by
  obtain ⟨-, -, -, rfl⟩ := of_activity_execute h
  rw [step, stepUncounted_eq, h]
  generalize c.awake = d
  have hpending : d.fetch.2.registers = d.registers := rfl
  rw [complete, hpending]
  simp only [runInstruction]

/-- A pending enable shows in nothing but the switches of the interrupts. -/
theorem complete_seen {α : Type} (see : Registers → α)
    (h : ∀ r ime imePending, see { r with ime, imePending } = see r) (c : Core σ)
    (i : Instruction) : see (c.complete i).1.registers = see (c.carryOut i).registers := by
  have hcomplete : (c.complete i).1.registers =
      ((c.carryOut i).promoteEnable c.registers.imePending).registers := rfl
  rw [hcomplete, promoteEnable]
  split
  · exact h ..
  · rfl

omit [ExternalMemory σ] in
theorem awake_registers (c : Core σ) : c.awake.registers = c.registers := by
  have hstop : c.awake.registers = c.wakeFromHalt.registers := by
    unfold awake wakeFromStop
    split
    · dsimp only
      split <;> rfl
    · rfl
  rw [hstop, wakeFromHalt_registers]

omit [ExternalMemory σ] in
theorem takes_congr {c c' : Core σ} (h : c'.registers.flags = c.registers.flags) :
    c'.takes = c.takes := by
  funext on
  cases on with
  | none => rfl
  | some on => exact congrArg (on.holds ·) h

end Core
end Handheld
