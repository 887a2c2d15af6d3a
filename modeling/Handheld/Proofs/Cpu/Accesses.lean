import Handheld.Proofs.Bus.Events
import Handheld.Proofs.Cpu.Activity

/-!
What a step of the processor does to its bus: accesses, one after another, and nothing else. In
particular it lets no unit cycle pass; the cycles it takes are counted for the machine to spend.
-/

namespace Handheld

variable {σ : Type} [ExternalMemory σ]

namespace Operand

def reads (r : Registers) : Operand → List Bus.Event
  | .register _ => []
  | .atHL => [.read r.hl]

def writes (r : Registers) (v : UInt8) : Operand → List Bus.Event
  | .register _ => []
  | .atHL => [.write r.hl v]

end Operand

namespace Registers

def pushes (r : Registers) (w : UInt16) : List Bus.Event :=
  [.write (r.sp - 1) (highByte w), .write (r.sp - 2) (lowByte w)]

def pops (r : Registers) : List Bus.Event := [.read r.sp, .read (r.sp + 1)]

end Registers

def Instruction.reads (i : Instruction) : List Bus.Event :=
  (List.range i.length).map fun k => .read (i.address + UInt16.ofNat k)

namespace Bus

/-- A computation on the bus, with what its value and its accesses satisfy. -/
def Reads {α : Type} (x : StateM (Bus σ) α) (R : α → List Event → Prop) : Prop :=
  ∀ b : Bus σ, ∃ events, b.performAll events = (x.run b).2 ∧ R (x.run b).1 events

theorem Reads.pure {α : Type} {v : α} {R : α → List Event → Prop} (h : R v []) :
    Reads (Pure.pure v : StateM (Bus σ) α) R := fun _ => ⟨[], rfl, h⟩

section

variable {α : Type} {f : UInt8 → StateM (Bus σ) α} {R : α → List Event → Prop}

theorem Reads.read (a : UInt16) (hf : ∀ v, Reads (f v) fun w events => R w (.read a :: events)) :
    Reads ((fun b : Bus σ => b.read a : StateM (Bus σ) UInt8) >>= f) R := fun b =>
  let ⟨events, hbus, hR⟩ := hf (b.read a).1 (b.read a).2
  ⟨.read a :: events, hbus, hR⟩

theorem Reads.readIf {wanted : Prop} [Decidable wanted] (a : UInt16) (v : UInt8)
    (hf : ∀ v, Reads (f v) fun w events => R w ((if wanted then [.read a] else []) ++ events)) :
    Reads (if wanted then (fun b : Bus σ => b.read a : StateM (Bus σ) UInt8) >>= f
      else Pure.pure v >>= f) R := by
  split
  case isTrue h =>
    simp only [if_pos h] at hf
    exact .read a hf
  case isFalse h =>
    simp only [if_neg h] at hf
    exact hf v

end

end Bus

theorem Immediate.length_lt (k : Immediate) : k.length < 3 := by cases k <;> decide

theorem Instruction.reads_eq (i : Instruction) :
    let next := if i.selected then i.address + 2 else i.address + 1
    i.reads = [.read i.address] ++ (if i.selected then [.read (i.address + 1)] else []) ++
      (if 0 < i.operation.immediate.length then [.read next] else []) ++
      (if 1 < i.operation.immediate.length then [.read (next + 1)] else []) := by
  have hsecond : i.address + 1 + 1 = i.address + 2 := by rw [UInt16.add_assoc]; rfl
  have hthird : i.address + 2 + 1 = i.address + 3 := by rw [UInt16.add_assoc]; rfl
  have hlt := i.operation.immediate.length_lt
  simp only [reads, length]
  generalize i.operation.immediate.length = n at hlt
  match n, hlt with
  | 0, _ | 1, _ | 2, _ =>
    cases i.selected <;> simp [List.range, List.range.loop, hsecond, hthird]

theorem decodeWith_reads (address : UInt16) :
    Bus.Reads (Instruction.decodeWith (fun a (b : Bus σ) => b.read a : UInt16 → StateM (Bus σ) UInt8)
      address) fun i events => i.address = address ∧ events = i.reads := by
  unfold Instruction.decodeWith
  refine .read _ fun head => ?_
  refine .readIf _ _ fun code => ?_
  refine .readIf _ _ fun first => ?_
  refine .readIf _ _ fun second => .pure ⟨rfl, ?_⟩
  rw [Instruction.reads_eq]
  simp

namespace Core

def modifies (c : Core σ) (o : Operand) (f : UInt8 → Flags → UInt8 × Flags) : List Bus.Event :=
  o.reads c.registers ++ o.writes c.registers (f (c.readOperand o).1 c.registers.flags).1

def loadAccesses (c : Core σ) (i : Instruction) : List Bus.Event :=
  let r := c.registers
  match i.operation with
  | .load dst src => src.reads r ++ dst.writes r (c.readOperand src).1
  | .loadImmediate dst => dst.writes r i.first
  | .storeA p => [.write (c.follow p).1 r.a]
  | .loadA p => [.read (c.follow p).1]
  | .storeAHigh => [.write (highPage i.first) r.a]
  | .loadAHigh => [.read (highPage i.first)]
  | .storeAHighC => [.write (highPage r.c) r.a]
  | .loadAHighC => [.read (highPage r.c)]
  | .storeAAbsolute => [.write i.wordOperand r.a]
  | .loadAAbsolute => [.read i.wordOperand]
  | .storeSP =>
    [.write i.wordOperand (lowByte r.sp), .write (i.wordOperand + 1) (highByte r.sp)]
  | .push src => r.pushes (r.stackPair src)
  | .pop _ => r.pops
  | _ => []

def byteAccesses (c : Core σ) (op : Operation) : List Bus.Event :=
  match op with
  | .accumulate _ src | .testBit _ src => src.reads c.registers
  | .inc dst => c.modifies dst fun v f => Alu.inc v f.carry
  | .dec dst => c.modifies dst fun v f => Alu.dec v f.carry
  | .shift op dst => c.modifies dst fun v f => Alu.shift op v f.carry
  | .resetBit n dst => c.modifies dst fun v f => (v &&& ~~~Alu.bitMask n, f)
  | .setBit n dst => c.modifies dst fun v f => (v ||| Alu.bitMask n, f)
  | _ => []

def accesses (c : Core σ) (i : Instruction) : List Bus.Event :=
  let r := c.registers
  match i.operation with
  | .stop => [.resetDivider, .switchSpeed]
  | .illegal _ => [.fault (.illegalOpcode i.code i.address)]
  | .call on => if c.takes on then r.pushes r.pc else []
  | .ret on => if c.takes on then r.pops else []
  | .retInterrupt => r.pops
  | .restart _ => r.pushes r.pc
  | .load .. | .loadImmediate _ | .storeA _ | .loadA _ | .storeAHigh | .loadAHigh | .storeAHighC
  | .loadAHighC | .storeAAbsolute | .loadAAbsolute | .storeSP | .push _ | .pop _ => c.loadAccesses i
  | .accumulate .. | .inc _ | .dec _ | .shift .. | .testBit .. | .resetBit .. | .setBit .. =>
    c.byteAccesses i.operation
  | _ => []

/-- A processor that is stopped, but not locked, looks at the buttons. -/
def samples (c : Core σ) : List Bus.Event :=
  if c.cpu.stopped && !c.cpu.locked then [.sampleButtons] else []

/-- What the next step does to the bus. -/
def stepAccesses (c : Core σ) : List Bus.Event :=
  match c.activity with
  | .rest => c.samples
  | .dispatch irq => .acknowledge irq :: c.registers.pushes c.registers.pc
  | .execute i => c.samples ++ i.reads ++ c.awake.fetched.accesses i

/-- The second processor with its bus comes of the first by some accesses, with no cycle counted
yet. -/
structure Leads (c : Core σ) (events : List Bus.Event) (d : Core σ) : Prop where
  bus : c.bus.performAll events = d.bus
  cycles : d.cpu.cycles = c.cpu.cycles
  processor : ∀ e ∈ events, e.ofProcessor

namespace Leads

theorem quiet {c d : Core σ} (hbus : d.bus = c.bus) (hcycles : d.cpu.cycles = c.cpu.cycles) :
    c.Leads [] d := ⟨hbus.symm, hcycles, by simp⟩

theorem refl (c : Core σ) : c.Leads [] c := quiet rfl rfl

theorem trans {c d e : Core σ} {first second : List Bus.Event} (h : c.Leads first d)
    (h' : d.Leads second e) : c.Leads (first ++ second) e where
  bus := by rw [Bus.performAll_append, h.bus, h'.bus]
  cycles := h'.cycles.trans h.cycles
  processor e he := (List.mem_append.mp he).elim (h.processor e) (h'.processor e)

theorem then_quiet {c d e : Core σ} {events : List Bus.Event} (h : c.Leads events d)
    (hbus : e.bus = d.bus) (hcycles : e.cpu.cycles = d.cpu.cycles) : c.Leads events e :=
  ⟨h.bus.trans hbus.symm, hcycles.trans h.cycles, h.processor⟩

theorem of_event {c d : Core σ} {e : Bus.Event} (he : e.ofProcessor)
    (hbus : c.bus.perform e = d.bus) (hcycles : d.cpu.cycles = c.cpu.cycles) : c.Leads [e] d :=
  ⟨hbus, hcycles, by simpa using he⟩

end Leads

theorem readByte_leads (c : Core σ) (a : UInt16) : c.Leads [.read a] (c.readByte a).2 :=
  .of_event rfl rfl rfl

theorem writeByte_leads (c : Core σ) (a : UInt16) (v : UInt8) :
    c.Leads [.write a v] (c.writeByte a v) :=
  .of_event rfl rfl rfl

theorem readOperand_leads (c : Core σ) (o : Operand) :
    c.Leads (o.reads c.registers) (c.readOperand o).2 := by
  cases o with
  | register r => exact .refl c
  | atHL => exact c.readByte_leads _

theorem readOperand_registers (c : Core σ) (o : Operand) :
    (c.readOperand o).2.registers = c.registers := by
  cases o <;> rfl

theorem writeOperand_leads (c : Core σ) (o : Operand) (v : UInt8) :
    c.Leads (o.writes c.registers v) (c.writeOperand o v) := by
  cases o with
  | register r => exact .quiet rfl rfl
  | atHL => exact c.writeByte_leads _ v

theorem push_leads (c : Core σ) (w : UInt16) : c.Leads (c.registers.pushes w) (c.push w) :=
  ((c.writeByte_leads _ _).trans (writeByte_leads _ _ _)).then_quiet rfl rfl

theorem pop_leads (c : Core σ) : c.Leads c.registers.pops c.pop.2 :=
  ((c.readByte_leads _).trans (readByte_leads _ _)).then_quiet rfl rfl

theorem call_leads (c : Core σ) (target : UInt16) :
    c.Leads (c.registers.pushes c.registers.pc) (c.call target) :=
  (c.push_leads _).then_quiet rfl rfl

theorem ret_leads (c : Core σ) : c.Leads c.registers.pops c.ret :=
  c.pop_leads.then_quiet rfl rfl

/-- An operand is read and written at the same place, whatever becomes of the flags between. -/
theorem rewrite_leads (c : Core σ) (o : Operand) (g : Registers → Registers) (v : UInt8)
    (hg : (g c.registers).hl = c.registers.hl) :
    c.Leads (o.reads c.registers ++ o.writes c.registers v)
      (((c.readOperand o).2.mapRegisters g).writeOperand o v) := by
  have hread := (c.readOperand_leads o).then_quiet (e := (c.readOperand o).2.mapRegisters g) rfl rfl
  refine hread.trans ?_
  cases o with
  | register r => exact .quiet rfl rfl
  | atHL =>
    rw [Operand.writes, ← hg]
    exact writeByte_leads _ _ v

theorem modify_leads (c : Core σ) (o : Operand) (f : UInt8 → Flags → UInt8 × Flags) :
    c.Leads (c.modifies o f) (c.modify o f) := by
  let result := f (c.readOperand o).1 c.registers.flags
  have hmodify : c.modify o f =
      ((c.readOperand o).2.mapRegisters (·.setFlags result.2)).writeOperand o result.1 := by
    simp only [modify, readOperand_registers, result]
  rw [hmodify]
  exact c.rewrite_leads o (·.setFlags result.2) result.1 rfl

theorem follow_leads (c : Core σ) (p : Pointer) : c.Leads [] (c.follow p).2 := by
  cases p with
  | bc | de => exact .refl c
  | hlIncrement | hlDecrement => exact .quiet rfl rfl

omit [ExternalMemory σ] in
theorem follow_a (c : Core σ) (p : Pointer) : (c.follow p).2.registers.a = c.registers.a := by
  cases p <;> rfl

theorem loadAFrom_leads (c : Core σ) (a : UInt16) : c.Leads [.read a] (c.loadAFrom a) :=
  (c.readByte_leads a).then_quiet rfl rfl

theorem store_leads (c : Core σ) (a : UInt16) : c.Leads [.write a c.registers.a] (c.storeAAt a) :=
  c.writeByte_leads a _

theorem executeLoad_leads (c : Core σ) (i : Instruction) :
    c.Leads (c.loadAccesses i) (c.executeLoad i) := by
  cases h : i.operation <;> simp only [executeLoad, loadAccesses, h]
  case load dst src =>
    have hwrite := (c.readOperand src).2.writeOperand_leads dst (c.readOperand src).1
    rw [readOperand_registers] at hwrite
    exact (c.readOperand_leads src).trans hwrite
  case loadImmediate dst => exact c.writeOperand_leads dst _
  case storeA p =>
    have hwrite := (c.follow p).2.store_leads (c.follow p).1
    rw [follow_a] at hwrite
    exact (c.follow_leads p).trans hwrite
  case loadA p => exact (c.follow_leads p).trans (loadAFrom_leads _ _)
  case storeAHigh | storeAHighC | storeAAbsolute => exact c.store_leads _
  case loadAHigh | loadAHighC | loadAAbsolute => exact c.loadAFrom_leads _
  case storeSP =>
    exact (c.writeByte_leads _ _).trans (writeByte_leads _ _ _)
  case push src => exact c.push_leads _
  case pop dst => exact c.pop_leads.then_quiet rfl rfl
  all_goals exact .refl c

theorem executeByte_leads (c : Core σ) (op : Operation) :
    c.Leads (c.byteAccesses op) (c.executeByte op) := by
  cases op with
  | accumulate op src => exact (c.readOperand_leads src).then_quiet rfl rfl
  | inc dst => exact c.modify_leads dst fun v f => Alu.inc v f.carry
  | dec dst => exact c.modify_leads dst fun v f => Alu.dec v f.carry
  | shift op dst => exact c.modify_leads dst fun v f => Alu.shift op v f.carry
  | testBit n src => exact (c.readOperand_leads src).then_quiet rfl rfl
  | resetBit n dst | setBit n dst => exact c.rewrite_leads dst id _ rfl
  | _ => exact .refl c

theorem stop_leads (c : Core σ) : c.Leads [.resetDivider, .switchSpeed] c.stop := by
  refine ⟨rfl, ?_, by simp [Bus.Event.ofProcessor]⟩
  simp only [stop]
  split <;> rfl

theorem lockUp_leads (c : Core σ) (i : Instruction) :
    c.Leads [.fault (.illegalOpcode i.code i.address)] (c.lockUp i) :=
  .of_event rfl rfl rfl

theorem branch_leads {c : Core σ} {on : Option Condition} {go : Core σ → Core σ}
    {events : List Bus.Event} (h : c.Leads events (go c)) :
    c.Leads (if c.takes on then events else []) (c.branch on go).1 := by
  unfold branch
  split
  · exact h
  · exact .refl c

theorem jump_leads {c : Core σ} {on : Option Condition} {go : Core σ → Core σ}
    (h : c.Leads [] (go c)) : c.Leads [] (c.branch on go).1 := by
  have hbranch : c.Leads (if c.takes on then [] else []) (c.branch on go).1 := branch_leads h
  rwa [ite_self] at hbranch

theorem execute_leads (c : Core σ) (i : Instruction) :
    c.Leads (c.accesses i) (c.execute i).1 := by
  cases h : i.operation <;> simp only [execute, accesses, h]
  case stop => exact c.stop_leads
  case illegal => exact c.lockUp_leads i
  case jump | jumpRelative => exact jump_leads (.quiet rfl rfl)
  case call => exact branch_leads (c.call_leads _)
  case ret => exact branch_leads c.ret_leads
  case retInterrupt =>
    have hready : c.Leads [] (c.mapRegisters ({ · with ime := true, imePending := false })) :=
      .quiet rfl rfl
    exact hready.trans (ret_leads _)
  case restart => exact c.call_leads _
  case load | loadImmediate | storeA | loadA | storeAHigh | loadAHigh | storeAHighC | loadAHighC
      | storeAAbsolute | loadAAbsolute | storeSP | push | pop =>
    exact c.executeLoad_leads i
  case accumulate | inc | dec | shift | testBit | resetBit | setBit =>
    exact c.executeByte_leads _
  all_goals exact .quiet rfl rfl

theorem fetch_leads (c : Core σ) :
    c.fetch.1.address = c.registers.pc ∧ c.Leads c.fetch.1.reads c.fetch.2 := by
  obtain ⟨events, hbus, haddress, rfl⟩ := decodeWith_reads c.registers.pc c.bus
  refine ⟨haddress, hbus, rfl, fun e he => ?_⟩
  obtain ⟨k, -, rfl⟩ := List.mem_map.mp he
  rfl

theorem wakeFromHalt_leads (c : Core σ) : c.Leads [] c.wakeFromHalt := by
  unfold wakeFromHalt
  split
  · exact .quiet rfl rfl
  · exact .refl c

omit [ExternalMemory σ] in
theorem wakeFromHalt_registers (c : Core σ) : c.wakeFromHalt.registers = c.registers := by
  unfold wakeFromHalt
  split <;> rfl

theorem wakeFromStop_leads (c : Core σ) :
    c.Leads (if c.cpu.stopped then [.sampleButtons] else []) c.wakeFromStop := by
  unfold wakeFromStop
  split
  · dsimp only
    split <;> exact .of_event rfl rfl rfl
  · exact .refl c

theorem awake_leads {c : Core σ} (h : c.cpu.locked = false) : c.Leads c.samples c.awake := by
  have hstopped : c.wakeFromHalt.cpu.stopped = c.cpu.stopped :=
    congrArg Control.stopped c.wakeFromHalt_control
  have hwake := c.wakeFromHalt_leads.trans c.wakeFromHalt.wakeFromStop_leads
  rw [hstopped] at hwake
  simpa [samples, awake, h] using hwake

theorem dispatch_leads (c : Core σ) (irq : Interrupt) :
    c.Leads (.acknowledge irq :: c.registers.pushes c.registers.pc) (c.dispatch irq) := by
  let acknowledged : Core σ :=
    { cpu := { c.cpu with
        halted := false
        registers := { c.cpu.registers with ime := false } }
      bus := { c.bus with interrupts := c.bus.interrupts.acknowledge irq } }
  have hfirst : c.Leads [.acknowledge irq] acknowledged := .of_event rfl rfl rfl
  exact hfirst.trans (acknowledged.call_leads irq.vector)

omit [ExternalMemory σ] in
theorem promoteEnable_frame (c : Core σ) (wasPending : Bool) :
    (c.promoteEnable wasPending).bus = c.bus ∧
      (c.promoteEnable wasPending).cpu.cycles = c.cpu.cycles := by
  unfold promoteEnable
  split <;> exact ⟨rfl, rfl⟩

theorem runInstruction_leads (c : Core σ) :
    c.Leads (c.fetch.1.reads ++ c.fetched.accesses c.fetch.1) c.runInstruction.1 := by
  have hfetched : c.Leads c.fetch.1.reads c.fetched := c.fetch_leads.2.then_quiet rfl rfl
  obtain ⟨hbus, hcycles⟩ :=
    (c.fetched.execute c.fetch.1).1.promoteEnable_frame c.registers.imePending
  exact (hfetched.trans (c.fetched.execute_leads c.fetch.1)).then_quiet hbus hcycles

theorem stepUncounted_leads (c : Core σ) : c.Leads c.stepAccesses c.stepUncounted.1 := by
  rw [stepUncounted_eq, stepAccesses]
  cases hactivity : c.activity with
  | rest =>
    cases hlocked : c.cpu.locked with
    | true =>
      rw [samples, hlocked]
      simpa using Leads.refl c
    | false => exact awake_leads hlocked
  | dispatch irq =>
    have hdispatch := c.wakeFromHalt_leads.trans (c.wakeFromHalt.dispatch_leads irq)
    rwa [wakeFromHalt_registers] at hdispatch
  | execute i =>
    obtain ⟨hlocked, -, -, rfl⟩ := of_activity_execute hactivity
    dsimp only
    rw [List.append_assoc]
    exact (awake_leads hlocked).trans c.awake.runInstruction_leads

theorem operand_acknowledge (o : Operand) (r : Registers) (v : UInt8) (irq : Interrupt) :
    .acknowledge irq ∉ o.reads r ∧ .acknowledge irq ∉ o.writes r v := by
  cases o <;> simp [Operand.reads, Operand.writes]

theorem accesses_acknowledge (c : Core σ) (i : Instruction) (irq : Interrupt) :
    .acknowledge irq ∉ c.accesses i := by
  have hreads := fun o r => (operand_acknowledge o r 0 irq).1
  have hwrites := fun o r v => (operand_acknowledge o r v irq).2
  cases h : i.operation <;>
    simp [accesses, loadAccesses, byteAccesses, h, modifies, Registers.pushes, Registers.pops,
      hreads, hwrites]

theorem stepAccesses_acknowledge (c : Core σ) :
    (∃ irq pushed, c.activity = .dispatch irq ∧ c.stepAccesses = .acknowledge irq :: pushed ∧
      ∀ irq, .acknowledge irq ∉ pushed) ∨
    ((∀ irq, c.activity ≠ .dispatch irq) ∧ ∀ irq, .acknowledge irq ∉ c.stepAccesses) := by
  have hsamples : ∀ irq, .acknowledge irq ∉ c.samples := by simp [samples]
  unfold stepAccesses
  cases c.activity with
  | rest => exact .inr ⟨by simp, hsamples⟩
  | dispatch irq => exact .inl ⟨irq, _, rfl, rfl, by simp [Registers.pushes]⟩
  | execute i => exact .inr ⟨by simp, by simp [hsamples, Instruction.reads, accesses_acknowledge]⟩

def stepCycles : List Nat := [4, 8, 12, 16, 20, 24]

theorem cycles_mem (op : Operation) : op.cycles ∈ stepCycles := by
  cases op with
  | load dst src =>
    cases dst <;> cases src <;> simp [Operation.cycles, Operation.memoryCost, stepCycles]
  | loadImmediate o | accumulate _ o | inc o | dec o | shift _ o | testBit _ o | resetBit _ o
    | setBit _ o => cases o <;> simp [Operation.cycles, Operation.memoryCost, stepCycles]
  | ret on => cases on <;> simp [Operation.cycles, stepCycles]
  | _ => simp [Operation.cycles, stepCycles]

theorem untakenCycles_mem (op : Operation) : op.untakenCycles ∈ stepCycles := by
  unfold Operation.untakenCycles
  split
  · decide
  · decide
  · decide
  · decide
  · exact cycles_mem op

theorem instruction_cycles_mem (i : Instruction) (taken : Bool) : i.cycles taken ∈ stepCycles := by
  unfold Instruction.cycles
  split
  · exact cycles_mem _
  · exact untakenCycles_mem _

theorem idleCycles_mem : idleCycles ∈ stepCycles := by decide

theorem dispatchCycles_mem : dispatchCycles ∈ stepCycles := by decide

theorem stepUncounted_cycles_mem (c : Core σ) : c.stepUncounted.2 ∈ stepCycles := by
  unfold stepUncounted
  split
  · exact idleCycles_mem
  dsimp only
  split
  · exact dispatchCycles_mem
  split
  · exact idleCycles_mem
  · exact instruction_cycles_mem _ _

theorem divisor_dvd {n : Nat} (h : n ∈ stepCycles) (s : Speed) : n / s.divisor * s.divisor = n := by
  have hboth : ∀ n ∈ stepCycles, n / 1 * 1 = n ∧ n / 2 * 2 = n := by decide
  cases s with
  | normal => exact (hboth n h).1
  | double => exact (hboth n h).2

/-- The bus after a step is what the accesses make of it. -/
theorem step_accessed (c : Core σ) : c.bus.performAll c.stepAccesses = c.step.1.bus ∧
    (∀ e ∈ c.stepAccesses, e.ofProcessor) ∧
    c.step.1.cpu.cycles = c.cpu.cycles + c.step.2 ∧ c.step.2 ∈ stepCycles := by
  have hleads := c.stepUncounted_leads
  refine ⟨hleads.bus, hleads.processor, ?_, c.stepUncounted_cycles_mem⟩
  exact congrArg (· + c.stepUncounted.2) hleads.cycles

end Core
end Handheld
