import Handheld.Machine

/-!
A machine on the bench: its outputs can be swapped while it runs, and what a recorder or a queue
holds can still be looked at once it was taken off. It is run over many steps, counted, traced, up
to a test or up to a breakpoint.
-/

namespace Handheld

def Picture.rowColors (p : Picture) (y : Nat) : List Rgb := (List.range screenWidth).map (p.get · y)

def FrameBuffers.rowNumbers (f : FrameBuffers) (y : Nat) : List Nat :=
  (List.range screenWidth).map (f.number · y)

namespace VideoEvent

def size? : VideoEvent → Option (Nat × Nat)
  | .setSize width height => some (width, height)
  | _ => none

def picture? : VideoEvent → Option Picture
  | .frame picture => some picture
  | _ => none

end VideoEvent

structure Tap where
  blocks : Array SampleBlock := #[]
  queue : Option AudioQueue := none
  /-- Blocks already taken. -/
  taken : Nat := 0

def Tap.keep (t : Tap) : Option AudioSink → Tap
  | some (.recorder _ blocks) => { t with blocks }
  | some (.queue q) => { t with queue := some q }
  | none => t

structure Bench (σ : Type) where
  machine : Machine σ
  /-- What the video recorder was told, while it is off. -/
  video : Array VideoEvent := #[]
  /-- What the sinks that are off held. -/
  taps : Channel → Tap := fun _ => {}

namespace Bench
variable {σ : Type} [ExternalMemory σ]

def videoRecord (b : Bench σ) : Array VideoEvent :=
  match b.machine.bus.ppu.video with
  | some (.recording log) => log
  | _ => b.video

def detachVideo (b : Bench σ) : Bool × Bench σ :=
  let (out, machine) := b.machine.takeVideo
  (out.isSome, { b with video := b.videoRecord, machine })

def attachVideo (out : Array VideoEvent → VideoOutput) (b : Bench σ) : Bench σ :=
  let b := b.detachVideo.2
  { b with machine := b.machine.setVideo (out b.video) }

def tap (b : Bench σ) (c : Channel) : Tap := (b.taps c).keep (b.machine.bus.apu.output c).sink

def setTap (b : Bench σ) (c : Channel) (t : Tap) : Bench σ :=
  { b with taps := fun d => if d = c then t else b.taps d }

def setSink (sink : Option AudioSink) (b : Bench σ) (c : Channel) : Bool × Bench σ :=
  let (old, machine) := b.machine.setSink c sink
  (old.isSome, { b.setTap c (b.tap c) with machine })

def record (b : Bench σ) (c : Channel) (sampleRate : Nat) : Bool × Bench σ :=
  let (had, b) := b.setSink (some (.recorder sampleRate #[])) c
  (had, b.setTap c { b.taps c with blocks := #[], taken := 0 })

def connectQueue (b : Bench σ) (c : Channel) (capacity : Nat) : Bench σ :=
  (b.setSink (some (.queue (.create capacity b.machine.settings.sampleRate))) c).2

def takeBlocks (b : Bench σ) (c : Channel) : List SampleBlock × Bench σ :=
  let t := b.tap c
  ((t.blocks.extract t.taken t.blocks.size).toList, b.setTap c { t with taken := t.blocks.size })

def drainQueue (b : Bench σ) (c : Channel) : Option (List StereoFrame) × Bench σ :=
  match (b.machine.bus.apu.output c).sink, (b.taps c).queue with
  | some (.queue _), _ =>
    let (frames, apu) := b.machine.bus.apu.drain c
    (some frames, { b with machine := b.machine.mapBus ({ · with apu }) })
  | _, some q =>
    let (frames, q) := q.drain
    (some frames, b.setTap c { b.taps c with queue := some q })
  | _, none => (none, b)

end Bench

structure RunTotals where
  cycles : Nat := 0
  frames : Nat := 0
  deriving DecidableEq, Repr

def RunTotals.add (t : RunTotals) (info : StepInfo) : RunTotals where
  cycles := t.cycles + info.cycles
  frames := t.frames + info.frameComplete.toNat

structure TraceEntry where
  info : StepInfo
  cpu : Cpu
  deriving DecidableEq, Repr

namespace Machine
variable {σ : Type} [ExternalMemory σ]

def runSteps (totals : RunTotals) : Nat → Machine σ → RunTotals × Machine σ
  | 0, m => (totals, m)
  | n + 1, m =>
    let (m, info) := m.step
    runSteps (totals.add info) n m

def traceSteps (acc : List TraceEntry) : Nat → Machine σ → List TraceEntry × Machine σ
  | 0, m => (acc.reverse, m)
  | n + 1, m =>
    let (m, info) := m.step
    let cpu := m.cpu
    traceSteps ({ info, cpu } :: acc) n m

def runFrames (m : Machine σ) (n : Nat) : Machine σ := Nat.repeat runFrame n m

/-- Steps until a test holds, which is made before each of at most a number of steps; gives the
count of steps after those already taken. -/
def runUntil (done : Machine σ → Bool) (taken : Nat) : Nat → Machine σ → Option Nat × Machine σ
  | 0, m => (none, m)
  | n + 1, m => if done m then (some taken, m) else runUntil done (taken + 1) n m.step.1

/-- Steps until a breakpoint is hit, at most a number of them; gives the number of the step after
which it was, and its id. -/
def runToBreakpoint (taken : Nat) : Nat → Machine σ → Option (Nat × Nat) × Machine σ
  | 0, m => (none, m)
  | n + 1, m =>
    let (m, _) := m.step
    match m.breakpointHit with
    | some id => (some (taken, id), m)
    | none => runToBreakpoint (taken + 1) n m

end Machine
end Handheld
