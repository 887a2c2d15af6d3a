import Mathlib.Logic.Basic
import Handheld.Proofs.Cpu.Fetch
import Handheld.Proofs.Machine.Reachable
import Handheld.Proofs.Machine.Reset

/-!
The fault that is kept between two calls for it: the first one, in the order in which the processor
fetches, reads and writes. A look at memory records none, and neither do the transfers.
-/

namespace Handheld

namespace Operation

def illegalCodes : List UInt8 :=
  [0xD3, 0xDB, 0xDD, 0xE3, 0xE4, 0xEB, 0xEC, 0xED, 0xF4, 0xFC, 0xFD]

def isIllegal : Operation → Bool
  | .illegal _ => true
  | _ => false

theorem ofCode_isIllegal (code : UInt8) : (ofCode code).isIllegal = illegalCodes.contains code := by
  have hall : ∀ n < 256, (ofCode (.ofNat n)).isIllegal = illegalCodes.contains (.ofNat n) := by
    decide +kernel
  simpa using hall code.toNat code.toNat_lt

theorem ofSelected_isIllegal (code : UInt8) : (ofSelected code).isIllegal = false := by
  unfold ofSelected
  dsimp only
  split <;> rfl

end Operation

variable {σ : Type} [ExternalMemory σ]

namespace Bus

def Unmapped (a : UInt16) : Prop :=
  a = 0xFF03 ∨ (0xFF08 ≤ a ∧ a ≤ 0xFF0E) ∨ a = 0xFF4C ∨ a = 0xFF4E ∨ (0xFF57 ≤ a ∧ a ≤ 0xFF67) ∨
    (0xFF6C ≤ a ∧ a ≤ 0xFF6F) ∨ (0xFF71 ≤ a ∧ a ≤ 0xFF7F)

instance : DecidablePred Unmapped := fun a => by unfold Unmapped; infer_instance

/-- The two models have the same registers: one that only a color console uses is inert on the
other. -/
theorem target_eq_unmapped {model : Model} {a : UInt16} (h : Region.ofAddress a = .io) :
    IoTarget.ofAddress model a = .unmapped ↔ Unmapped a := by
  obtain ⟨hlow, hhigh⟩ := Region.io_range h
  cases model <;>
    simp [IoTarget.ofAddress, ite_eq_iff, Unmapped, Model.isColor, UInt16.le_iff_toNat_le,
      ← UInt16.toNat_inj] at hlow hhigh ⊢ <;>
    omega

theorem region_of_unmapped {a : UInt16} (h : Unmapped a) : Region.ofAddress a = .io := by
  have hplace := Region.holds_ofAddress a
  simp [Unmapped, UInt16.le_iff_toNat_le, ← UInt16.toNat_inj] at h
  cases hregion : Region.ofAddress a <;> simp [hregion, Region.Holds] at hplace ⊢ <;> omega

namespace Event

/-- The fault that an event is, whatever the model. -/
def fault? : Event → Option Fault
  | .read a => if Unmapped a then some (.unmappedRegister a .read) else none
  | .write a _ => if Unmapped a then some (.unmappedRegister a .write) else none
  | .fault f => some f
  | _ => none

end Event

omit [ExternalMemory σ] in
theorem recordFault_fault (b : Bus σ) (f : Fault) :
    (b.recordFault f).fault = b.fault.or (some f) := by
  cases h : b.fault <;> simp [recordFault, h]

omit [ExternalMemory σ] in
theorem readIo_fault (b : Bus σ) (a : UInt16) : (b.readIo a).2.fault = b.fault.or
    (if IoTarget.ofAddress b.model a = .unmapped then some (.unmappedRegister a .read)
      else none) := by
  unfold readIo
  cases IoTarget.ofAddress b.model a <;> simp [recordFault_fault, readJoypad]

omit [ExternalMemory σ] in
theorem writeIo_fault (b : Bus σ) (a : UInt16) (v : UInt8) : (b.writeIo a v).fault = b.fault.or
    (if IoTarget.ofAddress b.model a = .unmapped then some (.unmappedRegister a .write)
      else none) := by
  unfold writeIo
  cases IoTarget.ofAddress b.model a <;> simp [recordFault_fault, writeTimer]

theorem read_fault (b : Bus σ) (a : UInt16) :
    (b.read a).2.fault = b.fault.or (Event.read a).fault? := by
  unfold read
  split
  case isTrue hregion => simp [readIo_fault, Event.fault?, target_eq_unmapped hregion]
  case isFalse hregion => simp [Event.fault?, mt region_of_unmapped hregion]

theorem write_fault (b : Bus σ) (a : UInt16) (v : UInt8) :
    (b.write a v).fault = b.fault.or (Event.write a v).fault? := by
  by_cases hregion : Region.ofAddress a = .io
  · simp [write, hregion, writeIo_fault, Event.fault?, target_eq_unmapped hregion]
  · simp only [Event.fault?, mt region_of_unmapped hregion, if_false, Option.or_none]
    unfold write
    split
    case h_6 hio => exact absurd hio hregion
    all_goals rfl

theorem cycle_fault (b : Bus σ) : b.cycle.fault = b.fault := by
  obtain ⟨timer, serial, interrupts, vram, oam, h⟩ := b.cycle_bus
  rw [h]

theorem perform_fault (b : Bus σ) (e : Event) : (b.perform e).fault = b.fault.or e.fault? := by
  cases e with
  | cycle => simp [perform, cycle_fault, Event.fault?]
  | read a => exact b.read_fault a
  | write a v => exact b.write_fault a v
  | fault f => exact b.recordFault_fault f
  | switchSpeed =>
    simp only [perform, Bus.switchSpeed, Event.fault?, Option.or_none]
    split <;> rfl
  | acknowledge | sampleButtons | resetDivider | renderSound | hold =>
    simp [perform, syncJoypad, setDivider, Event.fault?]

def faultsOf (events : List Event) : List Fault := events.filterMap Event.fault?

theorem faultsOf_append (first second : List Event) :
    faultsOf (first ++ second) = faultsOf first ++ faultsOf second := List.filterMap_append

theorem mem_faultsOf {events : List Event} {f : Fault} : f ∈ faultsOf events ↔ .fault f ∈ events ∨
    ∃ a, Unmapped a ∧ (.read a ∈ events ∧ f = .unmappedRegister a .read ∨
      (∃ v, .write a v ∈ events) ∧ f = .unmappedRegister a .write) := by
  simp only [faultsOf, List.mem_filterMap]
  constructor
  · rintro ⟨e, he, hfault⟩
    cases e <;> grind [Event.fault?]
  · rintro (he | ⟨a, hunmapped, ⟨he, rfl⟩ | ⟨⟨v, he⟩, rfl⟩⟩)
    · exact ⟨_, he, rfl⟩
    · exact ⟨_, he, if_pos hunmapped⟩
    · exact ⟨_, he, if_pos hunmapped⟩

/-- What is kept stays, and where nothing is kept the first fault is. -/
theorem performAll_fault (b : Bus σ) (events : List Event) :
    (b.performAll events).fault = b.fault.or (faultsOf events).head? := by
  induction events generalizing b with
  | nil => simp [faultsOf]
  | cons e rest ih =>
    rw [performAll_cons, ih, perform_fault]
    cases hfault : e.fault? <;> simp [faultsOf, hfault]

theorem transfers_fault (d : Dma) (b : Bus σ) : (d.step b).2.fault = b.fault := by
  obtain ⟨vram, oam, h⟩ := stepTransfers_bus d b
  rw [h]

def look (a : UInt16) : StateM (Bus σ) UInt8 := fun b => (b.peek a, b)

section

variable {α : Type} {f : UInt8 → StateM (Bus σ) α} {b : Bus σ} {a : UInt16}

theorem run_look : (look a >>= f).run b = (f (b.peek a)).run b := by
  simp [StateT.run, bind, StateT.bind, look]

theorem run_lookIf {wanted : Prop} [Decidable wanted] (v : UInt8) :
    (if wanted then look a >>= f else pure v >>= f).run b =
      (f (if wanted then b.peek a else v)).run b := by
  split
  case isTrue => exact run_look
  case isFalse => simp only [pure_bind]

end

theorem decode_looks (b : Bus σ) (a : UInt16) :
    (Instruction.decodeWith look a).run b = (Instruction.decode b.peek a, b) := by
  rw [Instruction.decode_eq]
  unfold Instruction.decodeWith
  refine run_look.trans ?_
  refine (run_lookIf _).trans ?_
  refine (run_lookIf _).trans ?_
  exact run_lookIf _

end Bus

namespace Core

/-- The faults of a step of the processor, in their order: those of the instruction's own bytes come
before those of its operands. -/
def stepFaults (c : Core σ) : List Fault :=
  match c.activity with
  | .rest => []
  | .dispatch _ => Bus.faultsOf (c.registers.pushes c.registers.pc)
  | .execute i => Bus.faultsOf (i.reads ++ c.awake.fetched.accesses i)

theorem stepAccesses_faults (c : Core σ) : Bus.faultsOf c.stepAccesses = c.stepFaults := by
  have hsamples : Bus.faultsOf c.samples = [] := by
    unfold samples
    split <;> rfl
  unfold stepAccesses stepFaults
  cases c.activity with
  | rest => exact hsamples
  | dispatch irq => rfl
  | execute i => simp [Bus.faultsOf_append, hsamples]

omit [ExternalMemory σ] in
theorem operand_fault (o : Operand) (r : Registers) (v : UInt8) (f : Fault) :
    .fault f ∉ o.reads r ∧ .fault f ∉ o.writes r v := by
  cases o <;> simp [Operand.reads, Operand.writes]

theorem fault_mem_accesses {c : Core σ} {i : Instruction} {f : Fault} :
    .fault f ∈ c.accesses i ↔ i.operation.isIllegal ∧ f = .illegalOpcode i.code i.address := by
  have hreads := fun o r => (operand_fault o r 0 f).1
  have hwrites := fun o r v => (operand_fault o r v f).2
  cases h : i.operation <;>
    simp [accesses, loadAccesses, byteAccesses, h, modifies, Registers.pushes, Registers.pops,
      hreads, hwrites, Operation.isIllegal]

theorem fault_mem_stepAccesses {c : Core σ} {f : Fault} : .fault f ∈ c.stepAccesses ↔
    ∃ i, c.activity = .execute i ∧ i.operation.isIllegal ∧ f = .illegalOpcode i.code i.address := by
  unfold stepAccesses
  cases c.activity with
  | rest => simp [samples]
  | dispatch irq => simp [Registers.pushes]
  | execute i => simp [samples, Instruction.reads, fault_mem_accesses]

theorem isIllegal_of_execute {c : Core σ} {i : Instruction} (h : c.activity = .execute i) :
    i.operation.isIllegal ↔ i.selected = false ∧ i.code ∈ Operation.illegalCodes := by
  obtain ⟨-, -, -, rfl⟩ := of_activity_execute h
  rw [c.awake.fetch_operation]
  split <;> simp_all [Operation.ofCode_isIllegal, Operation.ofSelected_isIllegal]

theorem read_mem_stepFaults {c : Core σ} {a : UInt16} :
    .unmappedRegister a .read ∈ c.stepFaults ↔ Bus.Unmapped a ∧ .read a ∈ c.stepAccesses := by
  simp [← stepAccesses_faults, Bus.mem_faultsOf, fault_mem_stepAccesses]

theorem write_mem_stepFaults {c : Core σ} {a : UInt16} :
    .unmappedRegister a .write ∈ c.stepFaults ↔
      Bus.Unmapped a ∧ ∃ v, .write a v ∈ c.stepAccesses := by
  simp [← stepAccesses_faults, Bus.mem_faultsOf, fault_mem_stepAccesses]

theorem illegal_mem_stepFaults {c : Core σ} {code : UInt8} {a : UInt16} :
    .illegalOpcode code a ∈ c.stepFaults ↔ a = c.registers.pc ∧
      ∃ i, c.activity = .execute i ∧ i.selected = false ∧ i.code = code ∧
        code ∈ Operation.illegalCodes := by
  have haddress : ∀ i, c.activity = .execute i → i.address = c.registers.pc := by
    intro i hactivity
    obtain ⟨-, -, -, hfetch⟩ := of_activity_execute hactivity
    rw [← hfetch, c.awake.fetch_leads.1, awake_registers]
  have hmem : .illegalOpcode code a ∈ c.stepFaults ↔ ∃ i, c.activity = .execute i ∧
      i.operation.isIllegal ∧ Fault.illegalOpcode code a = .illegalOpcode i.code i.address := by
    simp [← stepAccesses_faults, Bus.mem_faultsOf, fault_mem_stepAccesses]
  rw [hmem]
  constructor
  · rintro ⟨i, hactivity, hillegal, hfault⟩
    obtain ⟨rfl, rfl⟩ := Fault.illegalOpcode.inj hfault
    obtain ⟨hselected, hcode⟩ := (isIllegal_of_execute hactivity).1 hillegal
    exact ⟨haddress i hactivity, i, hactivity, hselected, rfl, hcode⟩
  · rintro ⟨rfl, i, hactivity, hselected, rfl, hcode⟩
    refine ⟨i, hactivity, (isIllegal_of_execute hactivity).2 ⟨hselected, hcode⟩, ?_⟩
    rw [haddress i hactivity]

end Core

namespace Machine

/-- The action is neither a call for the fault nor a reset, and does not reach for the fault. -/
def Action.KeepsFault : Action σ → Prop
  | .takeFault | .reset => False
  | .adjust f _ => ∀ b, (f b).fault = b.fault
  | _ => True

def faultsAt (m : Machine σ) : Action σ → List Fault
  | .step | .processorStep => m.core.stepFaults
  | .bus e => e.fault?.toList
  | _ => []

def faultsOver (m : Machine σ) : List (Action σ) → List Fault
  | [] => []
  | a :: rest => m.faultsAt a ++ (m.perform a).2.faultsOver rest

theorem stepEvents_faults (m : Machine σ) : Bus.faultsOf m.stepEvents = m.core.stepFaults := by
  have hcycles : ∀ n, Bus.faultsOf (List.replicate n .cycle) = [] := by
    simp [Bus.faultsOf, Bus.Event.fault?]
  simp only [stepEvents, Bus.faultsOf_append, Core.stepAccesses_faults, hcycles]
  split <;> simp [Bus.faultsOf, Bus.Event.fault?]

theorem perform_fault (m : Machine σ) {a : Action σ} (h : a.KeepsFault) :
    (m.perform a).2.bus.fault = m.bus.fault.or (m.faultsAt a).head? := by
  cases a with
  | step =>
    have hbus := m.bus.performAll_fault m.stepEvents
    rwa [← step_bus, stepEvents_faults] at hbus
  | processorStep =>
    have hbus := m.core.bus.performAll_fault m.core.stepAccesses
    rwa [m.core.step_accessed.1, Core.stepAccesses_faults] at hbus
  | bus e =>
    have hbus := m.bus.perform_fault e
    cases e <;> simpa [perform, faultsAt, mapBus, bus] using hbus
  | adjust f hmade => simpa [perform, faultsAt, mapBus, bus] using h m.bus
  | takeFault | reset => exact h.elim
  | setCpu | setVideo | takeVideo | setSink | connectQueue | drain | persist | editBreakpoints =>
    simp [perform, faultsAt, mapBus, bus, setVideo, takeVideo, setSink, connectQueue]

theorem performAll_fault {actions : List (Action σ)} (m : Machine σ)
    (h : ∀ a ∈ actions, a.KeepsFault) :
    (m.performAll actions).bus.fault = m.bus.fault.or (m.faultsOver actions).head? := by
  induction actions generalizing m with
  | nil => simp [performAll, faultsOver]
  | cons a rest ih =>
    have hrest := ih (m.perform a).2 fun a' ha' => h a' (by simp [ha'])
    have hfirst := m.perform_fault (h a (by simp))
    rw [hfirst] at hrest
    rw [faultsOver, List.head?_append, ← Option.or_assoc]
    exact hrest

/-- A call for the fault gives the first one since the call before, if nothing resets the machine
between them, and none if there was none. The faults of a step are accesses to registers that no
console has, the same for reads and writes, and opcodes that stand for nothing. A look at a byte or
at an instruction records none, nor does a transfer, wherever it reads from. -/
theorem takes_first_fault (m : Machine σ) (actions : List (Action σ))
    (h : ∀ a ∈ actions, a.KeepsFault) :
    let start := m.takeFault.2
    let later := start.performAll actions
    later.takeFault.1 = (start.faultsOver actions).head? ∧
      (∀ (c : Core σ) a,
        (.unmappedRegister a .read ∈ c.stepFaults ↔ Bus.Unmapped a ∧ .read a ∈ c.stepAccesses) ∧
        (.unmappedRegister a .write ∈ c.stepFaults ↔
          Bus.Unmapped a ∧ ∃ v, .write a v ∈ c.stepAccesses)) ∧
      (∀ (c : Core σ) code a, .illegalOpcode code a ∈ c.stepFaults ↔
        a = c.registers.pc ∧ ∃ i, c.activity = .execute i ∧ i.selected = false ∧
          i.code = code ∧ code ∈ Operation.illegalCodes) ∧
      (∀ (b : Bus σ) a, (Instruction.decodeWith Bus.look a).run b =
        (Instruction.decode b.peek a, b)) ∧
      ∀ (d : Dma) (b : Bus σ), (d.step b).2.fault = b.fault := by
  intro start later
  have hfault : later.bus.fault = start.bus.fault.or (start.faultsOver actions).head? :=
    start.performAll_fault h
  have hfirst : later.takeFault.1 = (start.faultsOver actions).head? := by
    simpa [start, takeFault, mapBus, bus, Bus.takeFault] using hfault
  exact ⟨hfirst, fun c a => ⟨c.read_mem_stepFaults, c.write_mem_stepFaults⟩,
    fun c code a => c.illegal_mem_stepFaults, Bus.decode_looks, Bus.transfers_fault⟩

/-- A read of FF03 has been recorded and is taken. Of what follows, a word written to FF0D and FF0E
and an opcode that stands for nothing, the first write is recorded. -/
theorem first_of_three_faults :
    let m := (programmed [0xF0, 0x03, 0x08, 0x0D, 0xFF, 0xD3]).processorSteps 1
    let actions := [.step, .bus (.hold { }), .step]
    (∀ a ∈ actions, a.KeepsFault) ∧ m.takeFault.1 = some (.unmappedRegister 0xFF03 .read) ∧
      (m.takeFault.2.faultsOver actions).length = 3 ∧
      (m.takeFault.2.performAll actions).takeFault.1 = some (.unmappedRegister 0xFF0D .write) := by
  intro m actions
  have hkeep : ∀ a ∈ actions, a.KeepsFault := by simp [actions, Action.KeepsFault]
  have hfaults : m.takeFault.2.faultsOver actions = [.unmappedRegister 0xFF0D .write,
      .unmappedRegister 0xFF0E .write, .illegalOpcode 0xD3 0x0105] := by decide +kernel
  have hfirst := (takes_first_fault m actions hkeep).1
  refine ⟨hkeep, by decide +kernel, by rw [hfaults]; rfl, ?_⟩
  rw [hfirst, hfaults]
  rfl

end Machine
end Handheld
