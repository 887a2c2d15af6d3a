import Handheld.Scheduler.Basic

/-!
A run without a screen: until enough frames were delivered, a pause, or the end of the time given.
Time is counted in processor cycles, so that the outcome does not hang on the host.
-/

namespace Handheld

/-- How many times as fast as the console a machine runs that nothing paces. -/
def unpacedRate : Nat := 4

structure RunOptions where
  /-- Frames delivered before the run ends. A run always waits for the first. -/
  frames : Nat
  /-- Time for the whole run, in thousandths of a second. -/
  milliseconds : Nat
  breakpoints : List UInt16 := []
  meters : Bool := false
  deriving DecidableEq, Repr

inductive RunOutcome where
  | completed
  | paused (pc : UInt16) (reason : PauseReason)
  | timedOut
  deriving DecidableEq, Repr

namespace RunOutcome

def describe : RunOutcome → String
  | .completed => "completed"
  | .timedOut => "timed out"
  | .paused pc (.breakpoint id) => "breakpoint " ++ toString id ++ " at " ++ Hexadecimal.word pc
  | .paused pc .step => "stepped to " ++ Hexadecimal.word pc
  | .paused pc .request => "break requested at " ++ Hexadecimal.word pc
  | .paused pc (.fault f) => "fault at " ++ Hexadecimal.word pc ++ ": " ++ f.message

end RunOutcome

structure Peaks where
  square1 : Float32 := 0.0
  square2 : Float32 := 0.0
  wave : Float32 := 0.0
  noise : Float32 := 0.0

namespace Peaks

def get (p : Peaks) : Channel → Float32
  | .square1 => p.square1
  | .square2 => p.square2
  | .wave => p.wave
  | .noise => p.noise

def set (p : Peaks) (c : Channel) (x : Float32) : Peaks :=
  match c with
  | .square1 => { p with square1 := x }
  | .square2 => { p with square2 := x }
  | .wave => { p with wave := x }
  | .noise => { p with noise := x }

end Peaks

def raisePeak (peak : Float32) (sample : Sample) : Float32 :=
  if peak < sample.level.abs then sample.level.abs else peak

structure RunReport (σ : Type) where
  machine : Machine σ
  outcome : RunOutcome
  frames : Nat
  lastFrame : Option Picture
  /-- Bytes sent over the serial link. -/
  serial : ByteArray
  peaks : Option Peaks

namespace Headless

def meterCapacity : Nat := 16384

structure Run (σ : Type) where
  scheduler : Scheduler σ
  peaks : Option Peaks
  frames : Nat := 0

variable {σ : Type} [ExternalMemory σ]

def drainChannel (m : Machine σ) (p : Peaks) (c : Channel) : Machine σ × Peaks :=
  let samples := AudioQueue.interleave (m.bus.apu.output c).drain.1
  let p := p.set c (samples.foldl raisePeak (p.get c))
  (m.mapBus fun b => { b with apu := (b.apu.drain c).2 }, p)

def drainAll (m : Machine σ) (p : Peaks) : Machine σ × Peaks :=
  Channel.all.foldl (fun (m, p) c => drainChannel m p c) (m, p)

def Run.drain (r : Run σ) : Run σ :=
  match r.peaks with
  | none => r
  | some p =>
    let (machine, p) := drainAll r.scheduler.worker.machine p
    { r with
      scheduler := { r.scheduler with worker := { r.scheduler.worker with machine } }
      peaks := some p }

def delivered (m : Machine σ) : Nat :=
  match m.bus.ppu.video with
  | some (.latest n _) => n
  | _ => 0

def lastFrame (m : Machine σ) : Option Picture :=
  match m.bus.ppu.video with
  | some (.latest _ p) => p
  | _ => none

def outcomeOf : WorkerEvent → RunOutcome
  | .paused pc reason => .paused pc reason
  | .terminated => .completed

/-- Takes notice of a frame delivered, which may be the last one asked for. -/
def Run.notice (r : Run σ) (frames delivered : Nat) : Run σ × Option RunOutcome :=
  let r := { r with frames := delivered : Run σ }.drain
  (r, if frames ≤ delivered then some .completed else none)

def Run.advance (r : Run σ) (frames : Nat) : Run σ × Option RunOutcome :=
  match r with
  | { scheduler, peaks, frames := seen } =>
    match scheduler.advance with
    | (scheduler, event :: _) => ({ scheduler, peaks, frames := seen }, some (outcomeOf event))
    | (scheduler, []) =>
      let n := delivered scheduler.worker.machine
      if n = seen then ({ scheduler, peaks, frames := seen }, none)
      else Run.notice { scheduler, peaks, frames := seen } frames n

/-- Turns until there is an outcome, the deadline has come, or the count of turns is used up. -/
def Run.loop (frames deadline : Nat) : Nat → Run σ → Run σ × RunOutcome
  | 0, r => (r, .timedOut)
  | n + 1, r =>
    if deadline ≤ r.scheduler.worker.machine.cpu.cycles then (r, .timedOut)
    else
      match r.advance frames with
      | (r, some outcome) => (r, outcome)
      | (r, none) => Run.loop frames deadline n r

def prepare (m : Machine σ) (o : RunOptions) : Machine σ :=
  let m := m.setVideo (.latest 0 none)
  let breakpoints := o.breakpoints.foldl (fun s a => (s.add a).2) m.breakpoints
  let m := { m with breakpoints }
  if o.meters then Channel.all.foldl (fun m c => (m.connectQueue c meterCapacity).2) m else m

def cycleLimit (s : MachineSettings) (milliseconds : Nat) : Nat :=
  milliseconds * clockHz * (if s.frameLimit then 1 else unpacedRate) / 1000

def report (r : Run σ) (outcome : RunOutcome) : RunReport σ :=
  let r := r.drain
  let machine := r.scheduler.worker.machine
  let (serial, link) := machine.bus.serial.takeCaptured
  { machine := (machine.mapBus fun b => { b with serial := link }).takeVideo.2
    outcome
    frames := r.frames
    lastFrame := lastFrame machine
    serial
    peaks := r.peaks }

def run (m : Machine σ) (o : RunOptions) : RunReport σ :=
  let m := prepare m o
  let pacing := if m.settings.frameLimit then .clock else .unlimited
  let limit := cycleLimit m.settings o.milliseconds
  let deadline := m.cpu.cycles + limit
  let scheduler := (Scheduler.spawn m pacing).send .resume
  let start : Run σ := { scheduler, peaks := if o.meters then some {} else none }
  let (r, outcome) := Run.loop o.frames deadline (limit + 2) start
  report r outcome

end Headless
end Handheld
