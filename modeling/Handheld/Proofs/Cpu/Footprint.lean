import Handheld.Proofs.Bus.Footprint
import Handheld.Proofs.Cpu.Accesses

/-!
What an instruction can change. It writes at most two bytes, at the addresses that it names, and of
the registers those that it names as its destination, that it moves on, or that it uses as a stack.
-/

namespace Handheld

/-- What an instruction may name, besides the flags and the program counter. -/
inductive Part where
  | register (x : Register)
  | stackPointer
  /-- Whether interrupts are enabled, or are about to be. -/
  | interruptEnable
  deriving DecidableEq, Repr

def Operand.parts : Operand → List Part
  | .register x => [.register x]
  | .atHL => []

def Pair.parts : Pair → List Part
  | .bc => [.register .b, .register .c]
  | .de => [.register .d, .register .e]
  | .hl => [.register .h, .register .l]
  | .sp => [.stackPointer]

def StackPair.parts : StackPair → List Part
  | .bc => [.register .b, .register .c]
  | .de => [.register .d, .register .e]
  | .hl => [.register .h, .register .l]
  | .af => [.register .a]

def Pointer.parts : Pointer → List Part
  | .bc | .de => []
  | .hlIncrement | .hlDecrement => [.register .h, .register .l]

def AluOp.parts : AluOp → List Part
  | .compare => []
  | _ => [.register .a]

/-- What an operation names as its destination, as moved on, or as the stack. -/
def Operation.parts : Operation → List Part
  | .load dst _ | .loadImmediate dst | .inc dst | .dec dst | .shift _ dst | .resetBit _ dst
  | .setBit _ dst => dst.parts
  | .loadPair dst | .incPair dst | .decPair dst => dst.parts
  | .storeA p => p.parts
  | .loadA p => .register .a :: p.parts
  | .loadAHigh | .loadAHighC | .loadAAbsolute | .decimalAdjust | .complement | .rotateA _ =>
    [.register .a]
  | .accumulate op _ | .accumulateImmediate op => op.parts
  | .loadSP | .addSP | .push _ | .call _ | .ret _ | .restart _ => [.stackPointer]
  | .loadHLSum | .addPair _ => [.register .h, .register .l]
  | .pop dst => .stackPointer :: dst.parts
  | .retInterrupt => [.stackPointer, .interruptEnable]
  | .disableInterrupts | .enableInterrupts => [.interruptEnable]
  | .nop | .stop | .halt | .illegal _ | .select | .storeAHigh | .storeAHighC | .storeAAbsolute
  | .storeSP | .setCarry | .complementCarry | .jump _ | .jumpHL | .jumpRelative _
  | .testBit .. => []

def Operand.addresses (r : Registers) : Operand → List UInt16
  | .register _ => []
  | .atHL => [r.hl]

def Pointer.address (r : Registers) : Pointer → UInt16
  | .bc => r.bc
  | .de => r.de
  | .hlIncrement | .hlDecrement => r.hl

def Registers.pushed (r : Registers) : List UInt16 := [r.sp - 1, r.sp - 2]

def Instruction.stores (i : Instruction) (r : Registers) : List UInt16 :=
  match i.operation with
  | .load dst _ | .loadImmediate dst | .inc dst | .dec dst | .shift _ dst | .resetBit _ dst
  | .setBit _ dst => dst.addresses r
  | .storeA p => [p.address r]
  | .storeAHigh => [0xFF00 + i.first.toUInt16]
  | .storeAHighC => [0xFF00 + r.c.toUInt16]
  | .storeAAbsolute => [i.wordOperand]
  | .storeSP => [i.wordOperand, i.wordOperand + 1]
  | .push _ | .call _ | .restart _ => r.pushed
  | _ => []

theorem highPage_eq (low : UInt8) : highPage low = 0xFF00 + low.toUInt16 := by
  have hlt := low.toNat_lt
  rw [← UInt16.toNat_inj, highPage, UInt16.toNat_or, UInt16.toNat_add, UInt8.toNat_toUInt16]
  have hor : 0xFF00 ||| low.toNat = 2 ^ 8 * 0xFF + low.toNat :=
    (Nat.two_pow_add_eq_or_of_lt hlt 0xFF).symm
  have htop : (0xFF00 : UInt16).toNat = 0xFF00 := rfl
  rw [htop, hor]
  omega

theorem Operand.addresses_length (o : Operand) (r : Registers) : (o.addresses r).length ≤ 1 := by
  cases o <;> simp [addresses]

theorem stores_length (i : Instruction) (r : Registers) : (i.stores r).length ≤ 2 := by
  have hone (o : Operand) : (o.addresses r).length ≤ 2 :=
    Nat.le_trans (o.addresses_length r) (by decide)
  cases h : i.operation <;> simp only [Instruction.stores, h]
  case load | loadImmediate | inc | dec | shift | resetBit | setBit => exact hone _
  all_goals simp [Registers.pushed]

namespace Bus

theorem written_append (first second : List Event) :
    written (first ++ second) = written first ++ written second := List.filterMap_append

theorem written_reads (o : Operand) (r : Registers) : written (o.reads r) = [] := by
  cases o <;> rfl

theorem written_writes (o : Operand) (r : Registers) (v : UInt8) :
    written (o.writes r v) = o.addresses r := by
  cases o <;> rfl

end Bus

namespace Core

variable {σ : Type} [ExternalMemory σ]

theorem written_modifies (c : Core σ) (o : Operand) (f : UInt8 → Flags → UInt8 × Flags) :
    Bus.written (c.modifies o f) = o.addresses c.registers := by
  rw [modifies, Bus.written_append, Bus.written_reads, Bus.written_writes, List.nil_append]

omit [ExternalMemory σ] in
theorem follow_address (c : Core σ) (p : Pointer) : (c.follow p).1 = p.address c.registers := by
  cases p <;> rfl

/-- An instruction writes the bytes that it names in order, or where its branch is not taken none. -/
theorem written_accesses (c : Core σ) (i : Instruction) :
    (Bus.written (c.accesses i)).Sublist (i.stores c.registers) := by
  cases h : i.operation <;> simp only [accesses, loadAccesses, byteAccesses, Instruction.stores, h]
  case load dst src =>
    rw [Bus.written_append, Bus.written_reads, Bus.written_writes]
    exact .refl _
  case loadImmediate dst => exact Bus.written_writes dst _ _ ▸ .refl _
  case inc | dec | shift | resetBit | setBit => exact c.written_modifies _ _ ▸ .refl _
  case accumulate | testBit => exact Bus.written_reads _ _ ▸ .refl _
  case storeA p => exact c.follow_address p ▸ .refl _
  case storeAHigh | storeAHighC => exact highPage_eq _ ▸ .refl _
  case call =>
    split
    · exact .refl _
    · exact List.nil_sublist _
  case ret =>
    split <;> exact .refl _
  all_goals exact .refl _

end Core

namespace Part

def Kept (r r' : Registers) : Part → Prop
  | .register x => r'.get x = r.get x
  | .stackPointer => r'.sp = r.sp
  | .interruptEnable => r'.switches = r.switches

variable {p : Part} {r r' r'' : Registers}

theorem Kept.refl (p : Part) (r : Registers) : p.Kept r r := by
  cases p <;> rfl

theorem Kept.trans (h : p.Kept r r') (h' : p.Kept r' r'') : p.Kept r r'' := by
  cases p <;> exact Eq.trans h' h

theorem kept_flags (p : Part) (r : Registers) (f : UInt8) (pc : UInt16) :
    p.Kept r { r with f, pc } := by
  cases p with
  | register x => cases x <;> rfl
  | stackPointer | interruptEnable => rfl

theorem kept_set {x : Register} (h : p ≠ .register x) (r : Registers) (v : UInt8) :
    p.Kept r (r.set x v) := by
  cases p with
  | register y =>
    have hne : x ≠ y := fun heq => h (heq ▸ rfl)
    rw [Kept, Registers.get_set, if_neg hne]
  | stackPointer => cases x <;> rfl
  | interruptEnable => exact r.set_switches x v

theorem kept_sp (h : p ≠ .stackPointer) (r : Registers) (w : UInt16) :
    p.Kept r { r with sp := w } := by
  cases p with
  | register x => cases x <;> rfl
  | stackPointer => exact absurd rfl h
  | interruptEnable => rfl

theorem kept_switches (h : p ≠ .interruptEnable) (r : Registers) (ime imePending : Bool) :
    p.Kept r { r with ime, imePending } := by
  cases p with
  | register x => cases x <;> rfl
  | stackPointer => rfl
  | interruptEnable => exact absurd rfl h

theorem kept_two {x y : Register} (h : p ∉ [.register x, .register y]) (r : Registers)
    (v w : UInt8) : p.Kept r ((r.set x v).set y w) := by
  have hfirst : p ≠ .register x := fun heq => h (by simp [heq])
  have hsecond : p ≠ .register y := fun heq => h (by simp [heq])
  exact (kept_set hfirst r v).trans (kept_set hsecond _ w)

theorem kept_setPair {q : Pair} (h : p ∉ q.parts) (r : Registers) (w : UInt16) :
    p.Kept r (r.setPair q w) := by
  cases q with
  | bc | de | hl => exact kept_two h r (highByte w) (lowByte w)
  | sp => exact kept_sp (List.ne_of_not_mem_cons h) r w

theorem kept_setStackPair {q : StackPair} (h : p ∉ q.parts) (r : Registers) (w : UInt16) :
    p.Kept r (r.setStackPair q w) := by
  cases q with
  | bc | de | hl => exact kept_two h r (highByte w) (lowByte w)
  | af =>
    have hset := kept_set (List.ne_of_not_mem_cons h) r (highByte w)
    exact hset.trans (p.kept_flags _ (lowByte w &&& 0xF0) r.pc)

theorem kept_accumulate {op : AluOp} (h : p ∉ op.parts) (r : Registers) (v : UInt8) :
    p.Kept r (r.accumulate op v) := by
  let result := Alu.accumulate op r.a v r.flags.carry
  by_cases hcompare : op = .compare
  · subst hcompare
    exact p.kept_flags r result.2.toByte r.pc
  · have ha : p ≠ .register .a := by
      rintro rfl
      cases op <;> simp [AluOp.parts] at h hcompare
    exact (kept_set ha r result.1).trans (p.kept_flags _ result.2.toByte r.pc)

theorem kept_a (h : p ≠ .register .a) (r : Registers) (v f : UInt8) :
    p.Kept r { r with a := v, f } :=
  (kept_set h r v).trans (p.kept_flags _ f r.pc)

end Part

namespace Core

variable {σ : Type} [ExternalMemory σ] {p : Part}

theorem kept_registersAfter {i : Instruction} (h : p ∉ i.operation.parts) (r : Registers) :
    p.Kept r (registersAfter r i) := by
  cases hop : i.operation <;> rw [hop] at h <;> simp only [registersAfter, hop]
  case loadPair | incPair | decPair => exact Part.kept_setPair h r _
  case loadSP => exact Part.kept_sp (List.ne_of_not_mem_cons h) r _
  case loadHLSum | addPair =>
    exact (p.kept_flags r _ r.pc).trans (Part.kept_setPair (q := .hl) h _ _)
  case addSP =>
    exact (p.kept_flags r _ r.pc).trans (Part.kept_sp (List.ne_of_not_mem_cons h) _ _)
  case accumulateImmediate => exact Part.kept_accumulate h r _
  case decimalAdjust | complement | rotateA =>
    exact Part.kept_a (List.ne_of_not_mem_cons h) r _ _
  case setCarry | complementCarry => exact p.kept_flags r _ r.pc
  case jumpHL => exact p.kept_flags r r.f _
  case disableInterrupts => exact Part.kept_switches (List.ne_of_not_mem_cons h) r _ _
  case enableInterrupts =>
    split
    · exact .refl p r
    · exact Part.kept_switches (List.ne_of_not_mem_cons h) r r.ime true
  all_goals exact .refl p r

theorem kept_writeOperand {o : Operand} (h : p ∉ o.parts) (c : Core σ) (v : UInt8) :
    p.Kept c.registers (c.writeOperand o v).registers := by
  cases o with
  | register x => exact Part.kept_set (List.ne_of_not_mem_cons h) c.registers v
  | atHL => exact .refl p c.registers

theorem kept_readOperand (p : Part) (c : Core σ) (o : Operand) :
    p.Kept c.registers (c.readOperand o).2.registers := by
  rw [readOperand_registers]
  exact .refl p c.registers

theorem kept_rewrite {o : Operand} (h : p ∉ o.parts) (c : Core σ) (f v : UInt8) :
    p.Kept c.registers
      (((c.readOperand o).2.mapRegisters ({ · with f })).writeOperand o v).registers :=
  ((kept_readOperand p c o).trans (p.kept_flags _ f _)).trans (kept_writeOperand h _ v)

omit [ExternalMemory σ] in
theorem kept_follow {q : Pointer} (h : p ∉ q.parts) (c : Core σ) :
    p.Kept c.registers (c.follow q).2.registers := by
  cases q with
  | bc | de => exact .refl p c.registers
  | hlIncrement | hlDecrement => exact Part.kept_setPair (q := .hl) h c.registers _

theorem kept_executeLoad {i : Instruction} (h : p ∉ i.operation.parts) (c : Core σ) :
    p.Kept c.registers (c.executeLoad i).registers := by
  cases hop : i.operation <;> rw [hop] at h <;> simp only [executeLoad, hop]
  case load dst src => exact (kept_readOperand p c src).trans (kept_writeOperand h _ _)
  case loadImmediate => exact kept_writeOperand h c _
  case storeA => exact kept_follow h c
  case loadA q =>
    have ha : p ≠ .register .a := List.ne_of_not_mem_cons h
    exact (kept_follow (List.not_mem_of_not_mem_cons h) c).trans (Part.kept_set ha _ _)
  case loadAHigh | loadAHighC | loadAAbsolute =>
    exact Part.kept_set (List.ne_of_not_mem_cons h) c.registers _
  case push => exact Part.kept_sp (List.ne_of_not_mem_cons h) c.registers _
  case pop =>
    have hsp := Part.kept_sp (List.ne_of_not_mem_cons h) c.registers (c.registers.sp + 2)
    exact hsp.trans (Part.kept_setStackPair (List.not_mem_of_not_mem_cons h) _ _)
  all_goals exact .refl p c.registers

theorem kept_executeByte {op : Operation} (h : p ∉ op.parts) (c : Core σ) :
    p.Kept c.registers (c.executeByte op).registers := by
  cases op with
  | accumulate op src => exact (kept_readOperand p c src).trans (Part.kept_accumulate h _ _)
  | inc dst | dec dst | shift op dst | resetBit n dst | setBit n dst => exact kept_rewrite h c _ _
  | testBit n src => exact (kept_readOperand p c src).trans (p.kept_flags _ _ _)
  | _ => exact .refl p c.registers

omit [ExternalMemory σ] in
theorem kept_branch {c : Core σ} {on : Option Condition} {go : Core σ → Core σ}
    (h : p.Kept c.registers (go c).registers) :
    p.Kept c.registers (c.branch on go).1.registers := by
  unfold branch
  split
  · exact h
  · exact .refl p c.registers

theorem kept_call (h : p ≠ .stackPointer) (c : Core σ) (target : UInt16) :
    p.Kept c.registers (c.call target).registers :=
  (Part.kept_sp h c.registers _).trans (p.kept_flags _ _ target)

theorem kept_ret (h : p ≠ .stackPointer) (c : Core σ) : p.Kept c.registers c.ret.registers :=
  (Part.kept_sp h c.registers _).trans (p.kept_flags _ _ _)

/-- What an instruction does not name it does not change. -/
theorem kept_execute {i : Instruction} (h : p ∉ i.operation.parts) (c : Core σ) :
    p.Kept c.registers (c.execute i).1.registers := by
  cases hop : i.operation <;> simp only [execute, hop]
  case jump | jumpRelative => exact kept_branch (p.kept_flags c.registers c.registers.f _)
  case call => exact kept_branch (kept_call (List.ne_of_not_mem_cons (hop ▸ h)) c _)
  case ret => exact kept_branch (kept_ret (List.ne_of_not_mem_cons (hop ▸ h)) c)
  case restart => exact kept_call (List.ne_of_not_mem_cons (hop ▸ h)) c _
  case retInterrupt =>
    rw [hop] at h
    have hswitches := Part.kept_switches (List.ne_of_not_mem_cons (List.not_mem_of_not_mem_cons h))
      c.registers true false
    exact hswitches.trans (kept_ret (List.ne_of_not_mem_cons h) _)
  case stop =>
    simp only [stop]
    split <;> exact .refl p c.registers
  case load | loadImmediate | storeA | loadA | storeAHigh | loadAHigh | storeAHighC | loadAHighC
      | storeAAbsolute | loadAAbsolute | storeSP | push | pop =>
    exact kept_executeLoad h c
  case accumulate | inc | dec | shift | testBit | resetBit | setBit =>
    exact hop ▸ kept_executeByte h c
  case loadPair | loadSP | loadHLSum | addSP | accumulateImmediate | incPair | decPair | addPair
      | decimalAdjust | complement | setCarry | complementCarry | rotateA | jumpHL
      | disableInterrupts | enableInterrupts =>
    exact kept_registersAfter h c.registers
  all_goals exact .refl p c.registers

/-- The footprint of an instruction. Of the bus it performs its accesses alone, which write at most
two bytes, at addresses that it names. Where no register of a controller or of a unit is at one of
these, every byte of every memory that they do not reach is as it was, and reached as it was. So is
every part of the processor that the instruction does not name. -/
theorem execute_footprint {isOpen : σ → Prop} (hlaws : Dependable isOpen)
    (hsilent : Silent isOpen) (c : Core σ) (i : Instruction) :
    let d := (c.execute i).1
    let written := Bus.written (c.accesses i)
    let stores := i.stores c.registers
    (c.bus.performAll (c.accesses i) = d.bus ∧ (∀ e ∈ c.accesses i, e.ofProcessor) ∧
      written.length ≤ 2 ∧ ∀ a ∈ written, a ∈ stores) ∧
    ((∀ a ∈ stores, ¬Bus.Controls a) → d.bus.Reaches = c.bus.Reaches ∧
      ∀ p, (∀ a ∈ stores, ¬c.bus.Reaches a p) → d.bus.contents p = c.bus.contents p) ∧
    ∀ p ∉ i.operation.parts, p.Kept c.registers d.registers := by
  intro d written stores
  have hleads := c.execute_leads i
  have hstored := c.written_accesses i
  have hnamed : ∀ a ∈ written, a ∈ stores := fun a ha => hstored.subset ha
  have hlength : written.length ≤ 2 := Nat.le_trans hstored.length_le (stores_length i _)
  refine ⟨⟨hleads.bus, hleads.processor, hlength, hnamed⟩, fun hregister => ?_, fun p h =>
    kept_execute h c⟩
  obtain ⟨hreaches, hkept⟩ := Bus.performAll_contents hlaws hsilent (b := c.bus) hleads.processor
    fun a ha => hregister a (hnamed a ha)
  rw [hleads.bus] at hreaches hkept
  exact ⟨hreaches, fun p h => hkept p fun a ha => h a (hnamed a ha)⟩

theorem storeSP_footprint :
    let c : Core VolatileRam := ⟨{ registers := { sp := 0x1234 } }, Bus.bare⟩
    let i : Instruction := ⟨0x100, .storeSP, 0x08, false, 0xFF, 0xDF⟩
    let d := (c.execute i).1
    i.stores c.registers = [0xDFFF, 0xE000] ∧ (Bus.written (c.accesses i)).length ≤ 2 ∧
      d.bus.byte (.work 0 1) = c.bus.byte (.work 0 1) ∧ d.registers.sp = 0x1234 := by
  intro c i d
  have hstores : i.stores c.registers = [0xDFFF, 0xE000] := by decide
  have hlast : c.bus.cell? 0xDFFF = some (.work 1 0xFFF) := rfl
  have hecho : c.bus.cell? 0xE000 = some (.work 0 0) := rfl
  obtain ⟨⟨-, -, hlength, -⟩, hbytes, hparts⟩ :=
    execute_footprint VolatileRam.dependable VolatileRam.silent c i
  rw [hstores] at hbytes
  obtain ⟨-, hkept⟩ := hbytes (by simp [Bus.Controls])
  have hbyte := hkept (.console (.work 0 1)) (by simp [Bus.Reaches, hlast, hecho])
  exact ⟨hstores, hlength, hbyte, hparts .stackPointer (by decide)⟩

end Core
end Handheld
