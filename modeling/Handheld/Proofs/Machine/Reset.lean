import Handheld.Proofs.Machine.Runs
import Handheld.Proofs.Sound.Spans

/-!
A reset against a machine built anew. What a machine was made of, which is its settings, its model
and the header of its cartridge, is out of reach of everything done to it; besides that a reset
keeps the cartridge and what the host has put on, and nothing else.
-/

namespace Handheld

namespace Apu

def connected (sinks : Channel → Option AudioSink) (c : Channel) : ChannelOutput :=
  { sink := sinks c }

end Apu

theorem Bus.moveSinks_eq (source target : Apu) : moveSinks source target =
    target.carrying (Apu.connected fun c => (source.output c).sink) target.cycles := rfl

namespace Machine

variable {σ : Type}

structure Attachments where
  video : Option VideoOutput
  sinks : Channel → Option AudioSink
  breakpoints : BreakpointSet
  held : Buttons

def attachments (m : Machine σ) : Attachments where
  video := m.bus.ppu.video
  sinks c := (m.bus.apu.output c).sink
  breakpoints := m.breakpoints
  held := m.bus.held

def attachVideo (m : Machine σ) : Option VideoOutput → Machine σ
  | some out => m.setVideo out
  | none => m

def attachSinks (m : Machine σ) (sinks : Channel → Option AudioSink) : Machine σ :=
  Channel.all.foldl (fun m c => (m.setSink c (sinks c)).2) m

def attach (m : Machine σ) (a : Attachments) : Machine σ :=
  { ((m.attachVideo a.video).attachSinks a.sinks).hold a.held with breakpoints := a.breakpoints }

theorem attachSinks_eq (m : Machine σ) (sinks : Channel → Option AudioSink) :
    m.attachSinks sinks = m.mapBus fun b =>
      { b with apu := b.apu.carrying (Apu.connected sinks) b.apu.cycles } := rfl

def made (m : Machine σ) : MachineSettings × Model × Header := (m.settings, m.bus.made)

/-- The model is the one that the settings and the cartridge ask for. -/
def WellMade (m : Machine σ) : Prop :=
  m.bus.model = m.settings.model.resolve m.bus.cartridge.header

theorem WellMade.of_made {m m' : Machine σ} (h : m.WellMade) (hmade : m'.made = m.made) :
    m'.WellMade := by
  obtain ⟨hsettings, hbus⟩ := Prod.mk.inj hmade
  obtain ⟨hmodel, hheader⟩ := Prod.mk.inj hbus
  rw [WellMade, hsettings, hmodel, hheader]
  exact h

theorem applyShades_made (b : Bus σ) (s : MachineSettings) : (applyShades b s).made = b.made := by
  unfold applyShades
  split <;> rfl

theorem create_wellMade (cartridge : Cartridge σ) (settings : MachineSettings) :
    (create cartridge settings).WellMade := by
  have hmade : (create cartridge settings).bus.made =
      (settings.model.resolve cartridge.header, cartridge.header) := applyShades_made _ settings
  obtain ⟨hmodel, hheader⟩ := Prod.mk.inj hmade
  rw [WellMade, hmodel, hheader]
  rfl

theorem reset_made (m : Machine σ) : m.reset.made = m.made :=
  congrArg (m.settings, ·) (applyShades_made m.bus.reset m.settings)

/-- A reset machine is one built anew around the cartridge, with the same put on. -/
theorem WellMade.reset_eq {m : Machine σ} (h : m.WellMade) :
    m.reset = (create m.bus.cartridge m.settings).attach m.attachments := by
  have hmodel : m.settings.model.resolve m.bus.cartridge.header = m.bus.model := h.symm
  have hcycles : Apu.cycles (Apu.afterBoot {}) = 0 :=
    congrArg Apu.cycles (Apu.kept_of_carrying Apu.afterBoot Apu.afterBoot_carrying {})
  have hapu : (Bus.moveSinks m.bus.apu {}).afterBoot = Apu.carrying (Apu.afterBoot {})
      (Apu.connected m.attachments.sinks) (Apu.cycles (Apu.afterBoot {})) := by
    rw [Bus.moveSinks_eq, Apu.afterBoot_carrying, hcycles]
    rfl
  have hvideo : m.attachments.video = m.bus.ppu.video := rfl
  simp only [reset, create, attach, attachSinks_eq, hmodel, model, Bus.reset, Bus.afterBoot, hapu,
    hvideo]
  generalize Apu.afterBoot {} = apu
  cases m.bus.ppu.video <;> unfold applyShades <;> cases m.settings.shades <;> rfl

variable [ExternalMemory σ]

inductive Action (σ : Type) where
  | step
  | processorStep
  | bus (e : Bus.Event)
  | setCpu (cpu : Cpu)
  /-- The units are worked on in a way that leaves the model and the header alone. -/
  | adjust (f : Bus σ → Bus σ) (h : ∀ b, (f b).made = b.made)
  | setVideo (out : VideoOutput)
  | takeVideo
  | setSink (c : Channel) (sink : Option AudioSink)
  | connectQueue (c : Channel) (capacity : Nat)
  | drain (c : Channel)
  | takeFault
  | persist
  | editBreakpoints (f : BreakpointSet → BreakpointSet)
  | reset

inductive Answer where
  | none
  | stepped (info : StepInfo)
  | ran (cycles : Nat)
  | value (v : UInt8)
  | video (replaced : Option VideoOutput)
  | sink (replaced : Option AudioSink)
  | drained (frames : List StereoFrame)
  | fault (f : Option Fault)

def perform (m : Machine σ) : Action σ → Answer × Machine σ
  | .step => (.stepped m.step.2, m.step.1)
  | .processorStep => (.ran m.core.step.2, { m with core := m.core.step.1 })
  | .bus (.read address) =>
    (.value (m.bus.read address).1, m.mapBus (·.perform (.read address)))
  | .bus e => (.none, m.mapBus (·.perform e))
  | .setCpu cpu => (.none, { m with core := { m.core with cpu } })
  | .adjust f _ => (.none, m.mapBus f)
  | .setVideo out => (.none, m.setVideo out)
  | .takeVideo => (.video m.takeVideo.1, m.takeVideo.2)
  | .setSink c sink => (.sink (m.setSink c sink).1, (m.setSink c sink).2)
  | .connectQueue c capacity => (.sink (m.connectQueue c capacity).1, (m.connectQueue c capacity).2)
  | .drain c =>
    (.drained (m.bus.apu.drain c).1, m.mapBus fun b => { b with apu := (b.apu.drain c).2 })
  | .takeFault => (.fault m.takeFault.1, m.takeFault.2)
  | .persist =>
    (.fault m.bus.cartridge.persist.2,
      m.mapBus fun b => { b with cartridge := b.cartridge.persist.1 })
  | .editBreakpoints f => (.none, { m with breakpoints := f m.breakpoints })
  | .reset => (.none, m.reset)

def performAll (m : Machine σ) (actions : List (Action σ)) : Machine σ :=
  actions.foldl (fun m a => (m.perform a).2) m

/-- What can be seen without acting on the machine. Of what is put on it that is all the outputs
were ever handed: the pictures, and the samples. -/
structure View where
  cpu : Cpu
  memory : UInt16 → UInt8
  interrupts : Interrupts
  fault : Option Fault
  frames : Nat
  soundCycles : Nat
  pictures : Nat
  picture : Picture
  breakpoint : Option Nat
  attachments : Attachments

def view (m : Machine σ) : View where
  cpu := m.cpu
  memory address := (m.bus.read address).1
  interrupts := m.bus.interrupts
  fault := m.bus.fault
  frames := m.frames
  soundCycles := m.bus.apu.cycles
  pictures := m.bus.ppu.frameCount
  picture := m.bus.ppu.frontBuffer
  breakpoint := m.breakpointHit
  attachments := m.attachments

/-- The answers to some actions, each with the view before it, and the view after them all. -/
def observed (m : Machine σ) : List (Action σ) → List (View × Answer) × View
  | [] => ([], m.view)
  | a :: rest =>
    let (seen, last) := (m.perform a).2.observed rest
    ((m.view, (m.perform a).1) :: seen, last)

omit [ExternalMemory σ] in
theorem mapBus_made (m : Machine σ) {f : Bus σ → Bus σ} (h : ∀ b, (f b).made = b.made) :
    (m.mapBus f).made = m.made := congrArg (m.settings, ·) (h m.bus)

theorem step_made (m : Machine σ) : m.step.1.made = m.made := by
  have hsettings : m.step.1.settings = m.settings := by
    rcases m.step_cases with ⟨-, hstep⟩ | ⟨-, hstep⟩ <;> rw [hstep]
  have hbus : m.step.1.bus.made = m.bus.made := by
    rw [m.step_bus]
    exact m.bus.performAll_made _
  rw [made, hsettings, hbus]
  rfl

theorem processorStep_made (m : Machine σ) : made { m with core := m.core.step.1 } = m.made := by
  have hbus : m.core.step.1.bus.made = m.bus.made := by
    rw [← m.core.step_accessed.1]
    exact m.bus.performAll_made _
  exact congrArg (m.settings, ·) hbus

theorem perform_made (m : Machine σ) (a : Action σ) : (m.perform a).2.made = m.made := by
  cases a with
  | step => exact m.step_made
  | processorStep => exact m.processorStep_made
  | bus e =>
    have hmade := m.mapBus_made (f := (·.perform e)) fun b => b.perform_made e
    cases e <;> exact hmade
  | adjust f h => exact m.mapBus_made h
  | persist => exact m.mapBus_made fun b => congrArg (b.model, ·) b.cartridge.persist_header
  | reset => exact m.reset_made
  | setCpu | setVideo | takeVideo | setSink | connectQueue | drain | takeFault | editBreakpoints =>
    rfl

theorem performAll_made (m : Machine σ) (actions : List (Action σ)) :
    (m.performAll actions).made = m.made := by
  induction actions generalizing m with
  | nil => rfl
  | cons a rest ih => exact (ih _).trans (m.perform_made a)

/-- After a reset, a machine that anything was done to is the machine built anew around its
cartridge, with its settings and with the same put on, and so no action tells the two apart. -/
theorem reset_leaves_no_trace (cartridge : Cartridge σ) (settings : MachineSettings)
    (before after : List (Action σ)) :
    let m := (create cartridge settings).performAll before
    let anew := (create m.bus.cartridge settings).attach m.attachments
    m.reset = anew ∧ m.reset.observed after = anew.observed after := by
  intro m anew
  have hmade : m.made = (create cartridge settings).made := performAll_made _ before
  have hsettings : m.settings = settings := congrArg Prod.fst hmade
  have hreset : m.reset = anew := by
    rw [((create_wellMade cartridge settings).of_made hmade).reset_eq, hsettings]
  exact ⟨hreset, by rw [hreset]⟩

end Machine
end Handheld
