import Handheld.Proofs.Bus.Kept
import Handheld.Proofs.Cpu.Dispatch
import Handheld.Proofs.Cpu.Fetch
import Handheld.Proofs.Cpu.WideArithmetic
import Handheld.Proofs.Machine.Reachable

/-!
The stack. Words that are put below the stack pointer one after another, by a push, a call, a
restart or a dispatch, come back in the other order, and no byte of memory but those they took has
changed.
-/

namespace Handheld

/-- The addresses of so many words below a stack pointer, from the top. -/
def below (sp : UInt16) : Nat → List UInt16
  | 0 => []
  | n + 1 => (sp - 1) :: (sp - 2) :: below (sp - 2) n

/-- So many words lie all in work memory, or all in the memory beside the registers. -/
def StackIn (sp : UInt16) (n : Nat) : Prop :=
  (∀ a ∈ below sp n, 0xC000 ≤ a ∧ a ≤ 0xDFFF) ∨ (∀ a ∈ below sp n, 0xFF80 ≤ a ∧ a ≤ 0xFFFE)

namespace StackIn
variable {sp : UInt16} {n : Nat}

theorem stackable (h : StackIn sp n) : ∀ a ∈ below sp n, Stackable a :=
  fun a ha => h.imp (· a ha) (· a ha)

theorem top (h : StackIn sp (n + 1)) : Stackable (sp - 1) ∧ Stackable (sp - 2) :=
  ⟨h.stackable _ (by simp [below]), h.stackable _ (by simp [below])⟩

theorem word (h : StackIn sp (n + 1)) : StackIn sp 1 := by
  have hsubset : ∀ a ∈ below sp 1, a ∈ below sp (n + 1) := by simp [below]
  exact h.imp (fun h a ha => h a (hsubset a ha)) (fun h a ha => h a (hsubset a ha))

theorem rest (h : StackIn sp (n + 1)) : StackIn (sp - 2) n :=
  h.imp (fun h a ha => h a (by simp [below, ha])) (fun h a ha => h a (by simp [below, ha]))

theorem top_toNat (h : StackIn sp (n + 1)) :
    (sp - 1).toNat + 1 = sp.toNat ∧ (sp - 2).toNat + 2 = sp.toNat := by
  obtain ⟨htop, hnext⟩ := h.top
  have hone := htop.toNat
  have htwo := hnext.toNat
  have hlt := sp.toNat_lt
  simp only [UInt16.toNat_sub, UInt16.reduceToNat] at hone htwo ⊢
  omega

theorem lt_of_mem {a : UInt16} (h : StackIn sp n) (ha : a ∈ below sp n) : a.toNat < sp.toNat := by
  induction n generalizing sp with
  | zero => cases ha
  | succ n ih =>
    obtain ⟨hone, htwo⟩ := h.top_toNat
    rw [below, List.mem_cons, List.mem_cons] at ha
    rcases ha with rfl | rfl | hrest
    · omega
    · omega
    · have hlt := ih h.rest hrest
      omega

theorem top_not_mem (h : StackIn sp (n + 1)) :
    sp - 1 ∉ below (sp - 2) n ∧ sp - 2 ∉ below (sp - 2) n := by
  obtain ⟨hone, htwo⟩ := h.top_toNat
  constructor
  · intro hmem
    have hlt := h.rest.lt_of_mem hmem
    omega
  · exact fun hmem => Nat.lt_irrefl _ (h.rest.lt_of_mem hmem)

end StackIn

variable {σ : Type} [ExternalMemory σ]

theorem highByte_and (a b : UInt16) : highByte (a &&& b) = highByte a &&& highByte b := by
  rw [← UInt8.toNat_inj, UInt8.toNat_and, toNat_highByte, toNat_highByte, toNat_highByte,
    UInt16.toNat_and]
  exact Nat.and_div_two_pow (n := 8)

theorem word_masked (w : UInt16) : word (highByte w) (lowByte w &&& 0xF0) = w &&& 0xFFF0 := by
  have hlow : lowByte (w &&& 0xFFF0) = lowByte w &&& 0xF0 := UInt16.toUInt8_and w 0xFFF0
  have hhigh : highByte (w &&& 0xFFF0) = highByte w := by
    rw [highByte_and]
    exact UInt8.and_neg_one
  rw [← hlow, ← hhigh, word_highByte_lowByte]

theorem Registers.stackPair_setStackPair (r : Registers) (dst : StackPair) (w : UInt16) :
    (r.setStackPair dst w).stackPair dst = if dst = .af then w &&& 0xFFF0 else w := by
  cases dst with
  | bc | de | hl => exact word_highByte_lowByte w
  | af => exact word_masked w

/-- Where an operation that takes a word from the stack leaves it. -/
def Operation.received (r : Registers) : Operation → UInt16
  | .pop dst => r.stackPair dst
  | _ => r.pc

namespace Core

/-- The word that an instruction pushes: for a call or a restart the address of the next one. -/
def pushedBy? (c : Core σ) (i : Instruction) : Option UInt16 :=
  match i.operation with
  | .push src => some (c.registers.stackPair src)
  | .call on => if c.takes on then some i.next else none
  | .restart _ => some i.next
  | _ => none

/-- The word that the next step pushes: for a dispatch the address of the instruction that it comes
before. -/
def pushedWord? (c : Core σ) : Option UInt16 :=
  match c.activity with
  | .rest => none
  | .dispatch _ => some c.registers.pc
  | .execute i => c.pushedBy? i

/-- The second processor comes of the first by a word that is pushed, and otherwise no memory has
changed. -/
structure Pushed (c : Core σ) (w : UInt16) (d : Core σ) : Prop where
  sp : d.registers.sp = c.registers.sp - 2
  bus : ∃ b, c.bus.KeepsBut [] b ∧
    d.bus = (b.write (c.registers.sp - 1) (highByte w)).write (c.registers.sp - 2) (lowByte w)

namespace Pushed
variable {c d : Core σ} {w : UInt16}

theorem push (c : Core σ) (w : UInt16) : c.Pushed w (c.push w) := ⟨rfl, _, .refl _, rfl⟩

theorem between {c' d' : Core σ} (h : c'.Pushed w d') (hsp : c'.registers.sp = c.registers.sp)
    (hbus : c.bus.KeepsBut [] c'.bus) (hsp' : d.registers.sp = d'.registers.sp)
    (hbus' : d.bus = d'.bus) : c.Pushed w d := by
  obtain ⟨hmoved, b, hkeep, hwritten⟩ := h
  rw [hsp] at hmoved hwritten
  exact ⟨hsp'.trans hmoved, b, hbus.trans hkeep, hbus'.trans hwritten⟩

theorem stored (h : c.Pushed w d) (hin : StackIn c.registers.sp 1) :
    d.bus.peek (c.registers.sp - 1) = highByte w ∧ d.bus.peek (c.registers.sp - 2) = lowByte w := by
  obtain ⟨-, b, -, hbus⟩ := h
  have hmemory : ∀ a ∈ [c.registers.sp - 1, c.registers.sp - 2], Bus.InMemory a :=
    fun a ha => (hin.stackable a ha).inMemory
  obtain ⟨hhigh, hlow, -⟩ := b.peek_pushed hmemory w
  rw [hbus]
  exact ⟨hhigh, hlow⟩

theorem keepsBut (h : c.Pushed w d) (hbank : c.bus.wramBank ≠ 0)
    (hin : StackIn c.registers.sp 1) :
    c.bus.KeepsBut [c.registers.sp - 1, c.registers.sp - 2] d.bus := by
  obtain ⟨-, b, hkeep, hbus⟩ := h
  obtain ⟨htop, hnext⟩ := hin.top
  have hbank' : b.wramBank ≠ 0 := hkeep.wramBank ▸ hbank
  have hfirst := Bus.write_keepsBut hbank' htop (highByte w)
  have hsecond := Bus.write_keepsBut (hfirst.wramBank ▸ hbank') hnext (lowByte w)
  rw [hbus]
  exact hkeep.trans (hfirst.trans hsecond)

end Pushed

theorem Leads.keepsBut {c d : Core σ} {events : List Bus.Event} (h : c.Leads events d)
    (hwrite : ∀ e ∈ events, ∀ a v, e ≠ .write a v) : c.bus.KeepsBut [] d.bus := by
  rw [← h.bus]
  exact c.bus.performAll_keepsBut fun e he => ⟨h.processor e he, hwrite e he⟩

theorem fetch_keepsBut {c : Core σ} (hlocked : c.cpu.locked = false) :
    c.bus.KeepsBut [] c.awake.fetch.2.bus := by
  have hsamples : ∀ e ∈ c.samples, ∀ a v, e ≠ .write a v := by
    unfold samples
    split <;> simp
  have hreads : ∀ e ∈ c.awake.fetch.1.reads, ∀ a v, e ≠ .write a v := by simp [Instruction.reads]
  exact ((awake_leads hlocked).keepsBut hsamples).trans (c.awake.fetch_leads.2.keepsBut hreads)

theorem complete_bus (c : Core σ) (i : Instruction) :
    (c.complete i).1.bus = (c.carryOut i).bus := (promoteEnable_frame ..).1

theorem carryOut_pushed {c : Core σ} {i : Instruction} {w : UInt16} (h : c.pushedBy? i = some w) :
    c.Pushed w (c.carryOut i) := by
  let ready := c.mapRegisters ({ · with pc := i.next })
  have hready {d : Core σ} (hd : ready.Pushed w d)
      (hsp : (c.carryOut i).registers.sp = d.registers.sp) (hbus : (c.carryOut i).bus = d.bus) :
      c.Pushed w (c.carryOut i) :=
    hd.between rfl (.refl _) hsp hbus
  unfold pushedBy? at h
  cases hop : i.operation <;> simp only [hop, reduceCtorEq, Option.some.injEq] at h
  case push src =>
    have hword : ready.registers.stackPair src = w := by
      rw [← h]
      cases src <;> rfl
    have hcarry : c.carryOut i = ready.push w := by
      rw [← hword]
      simp only [carryOut, execute, executeLoad, hop]
      rfl
    exact hready (.push ready w) (congrArg (·.registers.sp) hcarry) (congrArg (·.bus) hcarry)
  case call on =>
    obtain ⟨htakes, rfl⟩ : c.takes on ∧ i.next = w := by simpa using h
    have htakes' : ready.takes on := takes_congr (c := c) rfl ▸ htakes
    have hcarry : c.carryOut i = ready.call i.wordOperand := by
      simp only [carryOut, execute, hop, branch]
      exact congrArg Prod.fst (if_pos htakes')
    exact hready (.push ready _) (congrArg (·.registers.sp) hcarry) (congrArg (·.bus) hcarry)
  case restart target =>
    subst h
    have hcarry : c.carryOut i = ready.call target.toUInt16 := by
      simp only [carryOut, execute, hop]
      rfl
    exact hready (.push ready _) (congrArg (·.registers.sp) hcarry) (congrArg (·.bus) hcarry)

omit [ExternalMemory σ] in
theorem pushedBy?_congr {c c' : Core σ} (h : c'.registers = c.registers) (i : Instruction) :
    c'.pushedBy? i = c.pushedBy? i := by
  unfold pushedBy?
  rw [h, takes_congr (congrArg Registers.flags h)]

theorem step_pushed {c : Core σ} {w : UInt16} (h : c.pushedWord? = some w) :
    c.Pushed w c.step.1 := by
  unfold pushedWord? at h
  cases hactivity : c.activity with
  | rest => simp [hactivity] at h
  | dispatch irq =>
    simp only [hactivity, Option.some.injEq] at h
    subst h
    have hquiet : c.bus.KeepsBut [] (c.bus.perform (.acknowledge irq)) :=
      c.bus.perform_keepsBut rfl nofun
    rw [step_dispatch hactivity]
    exact ⟨rfl, _, hquiet, rfl⟩
  | execute i =>
    simp only [hactivity] at h
    have hregisters : c.awake.fetch.2.registers = c.registers := c.awake_registers
    have hkeeps := fetch_keepsBut (of_activity_execute hactivity).1
    rw [step_eq_complete hactivity]
    generalize c.awake.fetch.2 = fetched at *
    rw [← pushedBy?_congr hregisters] at h
    refine (carryOut_pushed h).between (congrArg Registers.sp hregisters) hkeeps ?_ ?_
    · exact complete_seen Registers.sp (fun _ _ _ => rfl) fetched i
    · exact fetched.complete_bus i

def popMany (c : Core σ) : Nat → List UInt16 × Core σ
  | 0 => ([], c)
  | n + 1 =>
    let (w, d) := c.pop
    let (words, e) := d.popMany n
    (w :: words, e)

theorem popMany_first (c : Core σ) (n : Nat) : c.popMany (n + 1) =
    (c.pop.1 :: (c.pop.2.popMany n).1, (c.pop.2.popMany n).2) := rfl

theorem popMany_last (c : Core σ) (n : Nat) : c.popMany (n + 1) =
    ((c.popMany n).1 ++ [(c.popMany n).2.pop.1], (c.popMany n).2.pop.2) := by
  induction n generalizing c with
  | zero => rfl
  | succ n ih =>
    rw [popMany_first, ih, popMany_first]
    simp only [List.cons_append]

theorem pop_eq {c : Core σ} (hlow : Region.ofAddress c.registers.sp ≠ .io)
    (hhigh : Region.ofAddress (c.registers.sp + 1) ≠ .io) :
    c.pop = (word (c.bus.peek (c.registers.sp + 1)) (c.bus.peek c.registers.sp),
      c.mapRegisters ({ · with sp := c.registers.sp + 2 })) := by
  simp only [pop, readByte, c.bus.read_eq_peek hlow, c.bus.read_eq_peek hhigh]

/-- A word that is on the stack is what is popped, by whatever pops it. -/
theorem pop_of_stored {c : Core σ} {sp w : UInt16} (hsp : c.registers.sp = sp - 2)
    (hin : StackIn sp 1) (hhigh : c.bus.peek (sp - 1) = highByte w)
    (hlow : c.bus.peek (sp - 2) = lowByte w) : c.pop = (w, c.mapRegisters ({ · with sp })) := by
  obtain ⟨htop, hnext⟩ := hin.top
  have hplace := Bus.pushed_next sp
  have hback : sp - 2 + 2 = sp := UInt16.sub_add_cancel ..
  have hpop := pop_eq (c := c) (hsp ▸ hnext.inMemory.ne_io) (by
    rw [hsp, hplace]
    exact htop.inMemory.ne_io)
  rwa [hsp, hplace, hback, hhigh, hlow, word_highByte_lowByte] at hpop

/-- The second processor comes of the first by words that are pushed one after another, and between
them by whatever keeps the stack pointer and every byte of memory. -/
inductive Stacks : Core σ → List UInt16 → Core σ → Prop where
  | nil (c : Core σ) : Stacks c [] c
  | push {c d : Core σ} {w : UInt16} {words : List UInt16} (h : Stacks (c.push w) words d) :
      Stacks c (w :: words) d
  | step {c d : Core σ} {w : UInt16} {words : List UInt16} (hw : c.pushedWord? = some w)
      (h : Stacks c.step.1 words d) : Stacks c (w :: words) d
  | between {c e d : Core σ} {words : List UInt16} (hsp : e.registers.sp = c.registers.sp)
      (hbus : c.bus.KeepsBut [] e.bus) (h : Stacks e words d) : Stacks c words d

/-- The words come back the last one first, and no more has become of memory than that they are in
it. -/
structure Returned (c : Core σ) (words : List UInt16) (d : Core σ) : Prop where
  popped : d.popMany words.length =
    (words.reverse, d.mapRegisters ({ · with sp := c.registers.sp }))
  memory : c.bus.KeepsBut (below c.registers.sp words.length) d.bus

theorem Returned.cons {c e d : Core σ} {w : UInt16} {words : List UInt16} (hw : c.Pushed w e)
    (hbank : c.bus.wramBank ≠ 0) (hin : StackIn c.registers.sp (words.length + 1))
    (h : e.bus.wramBank ≠ 0 → StackIn e.registers.sp words.length → e.Returned words d) :
    c.Returned (w :: words) d := by
  have hkeeps := hw.keepsBut hbank hin.word
  obtain ⟨hpopped, hmemory⟩ := h (hkeeps.wramBank ▸ hbank) (hw.sp ▸ hin.rest)
  rw [hw.sp] at hpopped hmemory
  obtain ⟨htop, hnext⟩ := hin.top
  obtain ⟨htop', hnext'⟩ := hin.top_not_mem
  obtain ⟨hhigh, hlow⟩ := hw.stored hin.word
  rw [← hmemory.shown _ (by rwa [htop.unecho])] at hhigh
  rw [← hmemory.shown _ (by rwa [hnext.unecho])] at hlow
  constructor
  · let left := d.mapRegisters ({ · with sp := c.registers.sp - 2 })
    have hpop : left.pop = (w, left.mapRegisters ({ · with sp := c.registers.sp })) :=
      pop_of_stored rfl hin.word hhigh hlow
    rw [List.length_cons, popMany_last, hpopped, List.reverse_cons]
    exact congrArg (fun popped => (words.reverse ++ [popped.1], popped.2)) hpop
  · exact hkeeps.trans hmemory

theorem Stacks.returned {c d : Core σ} {words : List UInt16} (h : Stacks c words d)
    (hbank : c.bus.wramBank ≠ 0) (hin : StackIn c.registers.sp words.length) :
    c.Returned words d := by
  induction h with
  | nil c => exact ⟨rfl, .refl _⟩
  | push h ih => exact .cons (.push ..) hbank hin ih
  | step hw h ih => exact .cons (step_pushed hw) hbank hin ih
  | between hsp hbus h ih =>
    rw [← hsp] at hin
    obtain ⟨hpopped, hmemory⟩ := ih (hbus.wramBank ▸ hbank) hin
    rw [hsp] at hpopped hmemory
    exact ⟨hpopped, hbus.trans hmemory⟩

def pops (c : Core σ) : Operation → Bool
  | .ret on => c.takes on
  | .retInterrupt | .pop _ => true
  | _ => false

theorem carryOut_popped {c : Core σ} {i : Instruction} {sp w : UInt16}
    (hpops : c.pops i.operation) (hsp : c.registers.sp = sp - 2) (hin : StackIn sp 1)
    (hhigh : c.bus.peek (sp - 1) = highByte w) (hlow : c.bus.peek (sp - 2) = lowByte w) :
    (c.carryOut i).registers.sp = sp ∧ i.operation.received (c.carryOut i).registers =
      if i.operation = .pop .af then w &&& 0xFFF0 else w := by
  let ready := c.mapRegisters ({ · with pc := i.next })
  have hpop : ready.pop = (w, ready.mapRegisters ({ · with sp })) :=
    pop_of_stored hsp hin hhigh hlow
  cases hop : i.operation <;> simp only [hop, pops, Bool.false_eq_true] at hpops
  case pop dst =>
    have hcarry : (c.carryOut i).registers = { ready.registers with sp }.setStackPair dst w := by
      simp only [carryOut, execute, executeLoad, hop]
      exact congrArg (fun p => (p.2.mapRegisters (·.setStackPair dst p.1)).registers) hpop
    rw [hcarry]
    simp only [Operation.pop.injEq]
    exact ⟨by cases dst <;> rfl, Registers.stackPair_setStackPair _ dst w⟩
  case ret on =>
    have htakes : ready.takes on := takes_congr (c := c) rfl ▸ hpops
    have hcarry : c.carryOut i = ready.ret := by
      simp only [carryOut, execute, hop, branch]
      exact congrArg Prod.fst (if_pos htakes)
    have hret : ready.ret.registers = { ready.registers with sp, pc := w } :=
      congrArg (fun p => (p.2.jump p.1).registers) hpop
    rw [hcarry, hret]
    exact ⟨rfl, rfl⟩
  case retInterrupt =>
    let enabled := ready.mapRegisters ({ · with ime := true, imePending := false })
    have hpop' : enabled.pop = (w, enabled.mapRegisters ({ · with sp })) :=
      pop_of_stored hsp hin hhigh hlow
    have hcarry : c.carryOut i = enabled.ret := by
      simp only [carryOut, execute, hop]
      rfl
    have hret : enabled.ret.registers = { enabled.registers with sp, pc := w } :=
      congrArg (fun p => (p.2.jump p.1).registers) hpop'
    rw [hcarry, hret]
    exact ⟨rfl, rfl⟩

theorem step_popped {c : Core σ} {i : Instruction} (h : c.activity = .execute i) {sp w : UInt16}
    (hpops : c.pops i.operation) (hsp : c.registers.sp = sp - 2) (hin : StackIn sp 1)
    (hhigh : c.bus.peek (sp - 1) = highByte w) (hlow : c.bus.peek (sp - 2) = lowByte w) :
    c.step.1.registers.sp = sp ∧ i.operation.received c.step.1.registers =
      if i.operation = .pop .af then w &&& 0xFFF0 else w := by
  have hregisters : c.awake.fetch.2.registers = c.registers := c.awake_registers
  have hkeeps := fetch_keepsBut (of_activity_execute h).1
  rw [step_eq_complete h]
  generalize c.awake.fetch.2 = fetched at *
  have hpops' : fetched.pops i.operation := by
    unfold pops at hpops ⊢
    rwa [takes_congr (congrArg Registers.flags hregisters)]
  rw [← hregisters] at hsp
  rw [← hkeeps.shown _ List.not_mem_nil] at hhigh hlow
  rw [complete_seen Registers.sp fun _ _ _ => rfl,
    complete_seen i.operation.received fun _ _ _ => by cases i.operation <;> rfl]
  exact carryOut_popped hpops' hsp hin hhigh hlow

end Core

namespace Machine

omit [ExternalMemory σ] in
theorem applyShades_wramBank (b : Bus σ) (s : MachineSettings) :
    (applyShades b s).wramBank = b.wramBank := by
  unfold applyShades
  split <;> rfl

theorem Reachable.wramBank_ne_zero {m : Machine σ} (h : m.Reachable) : m.bus.wramBank ≠ 0 := by
  induction h with
  | start h =>
    have hstart : ∀ b : Bus σ, b.wramBank = 1 → ∀ s, (applyShades b s).wramBank ≠ 0 := by
      intro b hb s
      rw [applyShades_wramBank, hb]
      decide
    cases h with
    | create cartridge settings => exact hstart _ rfl settings
    | reset m => exact hstart _ m.bus.cleared_reset.banks.work m.settings
  | step h ih =>
    rw [step_bus]
    exact Bus.performAll_wramBank ih _
  | @processorStep m h ih =>
    have hbus := m.core.step_accessed.1
    exact congrArg Bus.wramBank hbus ▸ Bus.performAll_wramBank ih _
  | perform h e ih => exact Bus.perform_wramBank ih e

end Machine

/-- However many words are pushed one after another in memory, by whatever pushes them, they are
popped in the other order, the stack pointer is back, and no byte but those below it has changed.
A step that pops a word which is still there goes on at it, or puts it into its pair. -/
theorem stack_returns (σ : Type) [ExternalMemory σ] :
    (∀ m : Machine σ, m.Reachable → m.bus.wramBank ≠ 0) ∧
    (∀ (c d : Core σ) (words : List UInt16), Core.Stacks c words d → c.bus.wramBank ≠ 0 →
      StackIn c.registers.sp words.length →
        d.popMany words.length =
          (words.reverse, d.mapRegisters ({ · with sp := c.registers.sp })) ∧
        c.bus.KeepsBut (below c.registers.sp words.length) d.bus) ∧
    ∀ (c : Core σ) (w : UInt16), c.pushedWord? = some w → StackIn c.registers.sp 1 →
      ∀ e : Core σ, e.registers.sp = c.step.1.registers.sp →
        (∀ a ∈ below c.registers.sp 1, e.bus.peek a = c.step.1.bus.peek a) →
        ∀ i, e.activity = .execute i → e.pops i.operation →
          e.step.1.registers.sp = c.registers.sp ∧
          i.operation.received e.step.1.registers =
            if i.operation = .pop .af then w &&& 0xFFF0 else w := by
  refine ⟨fun m hm => hm.wramBank_ne_zero, fun c d words h hbank hin => ?_, ?_⟩
  · have hreturned := h.returned hbank hin
    exact ⟨hreturned.popped, hreturned.memory⟩
  · intro c w hw hin e hsp hkept i hi hpops
    have hpushed := Core.step_pushed hw
    obtain ⟨hhigh, hlow⟩ := hpushed.stored hin
    rw [← hkept _ (by simp [below])] at hhigh hlow
    exact Core.step_popped hi hpops (hsp.trans hpushed.sp) hin hhigh hlow

theorem call_returns :
    let m := (Machine.programmed
      [0x01, 0x34, 0x12, 0xC5, 0xCD, 0x08, 0x01, 0x00, 0xC9]).processorSteps 1
    let c := m.core
    let d := c.step.1
    let e := d.step.1
    c.bus.wramBank ≠ 0 ∧ (e.popMany 2).1 = [0x0107, 0x1234] ∧
      c.bus.KeepsBut [0xFFFD, 0xFFFC, 0xFFFB, 0xFFFA] e.bus ∧ e.step.1.registers.pc = 0x0107 := by
  intro m c d e
  have hfirst : c.pushedWord? = some 0x1234 := by decide +kernel
  have hsecond : d.pushedWord? = some 0x0107 := by decide +kernel
  have hret : e.activity = .execute ⟨0x0108, .ret none, 0xC9, false, 0, 0⟩ := by decide +kernel
  have hsp : c.registers.sp = 0xFFFE := by decide +kernel
  have hsp' : d.registers.sp = 0xFFFC := by decide +kernel
  have hreachable : m.Reachable := Machine.programmed_reachable _ _
  clear_value m
  have hstacks : Core.Stacks c [0x1234, 0x0107] e := .step hfirst (.step hsecond (.nil e))
  obtain ⟨hbanks, hmany, hone⟩ := stack_returns VolatileRam
  have hbank : c.bus.wramBank ≠ 0 := hbanks m hreachable
  have hin : StackIn c.registers.sp 2 := by
    rw [hsp]
    exact .inr (by simp [below])
  have hin' : StackIn d.registers.sp 1 := by
    rw [hsp']
    exact .inr (by simp [below])
  obtain ⟨hpopped, hmemory⟩ := hmany c e _ hstacks hbank hin
  obtain ⟨-, hpc⟩ := hone d _ hsecond hin' e rfl (fun _ _ => rfl) _ hret rfl
  rw [hsp] at hmemory
  exact ⟨hbank, congrArg Prod.fst hpopped, hmemory, hpc⟩

end Handheld
