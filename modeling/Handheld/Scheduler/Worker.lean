import Handheld.Machine

/-!
The worker that owns a machine and runs it under the host's commands. It is a transition system:
each turn it reads one input, may step the machine, and emits events. What the inputs are and when
they come is up to the host, so a run under any interleaving is a run over a list of inputs.
-/

namespace Handheld

inductive Command where
  /-- Run until there is a reason to pause. -/
  | resume
  | step
  /-- Pause at the next instruction boundary. -/
  | pause
  | terminate
  deriving DecidableEq, Repr

inductive PauseReason where
  | breakpoint (id : Nat)
  | step
  | request
  | fault (f : Fault)
  deriving DecidableEq, Repr

inductive WorkerEvent where
  | paused (pc : UInt16) (reason : PauseReason)
  | terminated
  deriving DecidableEq, Repr

inductive Phase where
  /-- Paused; only a command changes that. -/
  | broken
  | running
  /-- Between two frames, until the pacing source gives a signal. -/
  | waiting
  | finished
  deriving DecidableEq, Repr

/-- What a worker finds when it looks for commands and pacing signals. -/
inductive Input where
  | command (c : Command)
  /-- The host is gone. -/
  | hungUp
  | tick
  /-- The pacing source is gone. -/
  | sourceGone
  | nothing
  deriving DecidableEq, Repr

structure Worker (σ : Type) where
  machine : Machine σ
  phase : Phase := .broken
  /-- A pacing source is connected. -/
  paced : Bool

namespace Worker

/-- The reason to pause that a fault is, if the settings make it one. -/
def faultReason? (s : MachineSettings) (fault : Option Fault) : Option PauseReason :=
  if s.breakOnFault then fault.map .fault else none

variable {σ : Type} [ExternalMemory σ]

def pause (w : Worker σ) (reason : PauseReason) : Worker σ × List WorkerEvent :=
  let pc := w.machine.pc
  ({ w with phase := .broken }, [.paused pc reason])

def finish (w : Worker σ) : Worker σ × List WorkerEvent :=
  ({ w with phase := .finished }, [.terminated])

/-- One instruction while broken. Its fault is taken from the machine, whether or not it counts. -/
def stepOnce (w : Worker σ) : Worker σ × List WorkerEvent :=
  match w with
  | { machine, phase, paced } =>
    let (machine, _) := machine.step
    let (fault, machine) := machine.takeFault
    let reason := (faultReason? machine.settings fault).getD .step
    pause { machine, phase, paced } reason

/-- A reason to pause after an instruction: its fault, or else a breakpoint. -/
def pauseReason? (m : Machine σ) (fault : Option Fault) : Option PauseReason :=
  match faultReason? m.settings fault with
  | some reason => some reason
  | none => m.breakpointHit.map .breakpoint

/-- One instruction while running, after which the worker may pause or wait for the next frame. -/
def runOnce (w : Worker σ) : Worker σ × List WorkerEvent :=
  match w with
  | { machine, phase := _, paced } =>
    let (machine, info) := machine.step
    let (fault, machine) := machine.takeFault
    match pauseReason? machine fault with
    | some reason => pause { machine, phase := .running, paced } reason
    | none =>
      let waits := info.frameComplete && machine.settings.frameLimit && paced
      ({ machine, phase := if waits then .waiting else .running, paced }, [])

def whileBroken (w : Worker σ) : Input → Worker σ × List WorkerEvent
  | .command .resume => ({ w with phase := .running }, [])
  | .command .step => w.stepOnce
  | .command .terminate | .hungUp => w.finish
  | _ => (w, [])

def whileRunning (w : Worker σ) : Input → Worker σ × List WorkerEvent
  | .command .pause => w.pause .request
  | .command .terminate | .hungUp => w.finish
  | .command .resume | .command .step | .nothing => w.runOnce
  | .tick | .sourceGone => (w, [])

/-- Once the pacing source is gone the worker is never paced again. -/
def whileWaiting (w : Worker σ) : Input → Worker σ × List WorkerEvent
  | .tick => ({ w with phase := .running }, [])
  | .sourceGone => ({ w with phase := .running, paced := false }, [])
  | .command .pause => w.pause .request
  | .command .terminate | .hungUp => w.finish
  | _ => (w, [])

def react (w : Worker σ) (i : Input) : Worker σ × List WorkerEvent :=
  match w.phase with
  | .broken => w.whileBroken i
  | .running => w.whileRunning i
  | .waiting => w.whileWaiting i
  | .finished => (w, [])

/-- The turns for a list of inputs, with all their events in order. -/
def reactAll (w : Worker σ) : List Input → Worker σ × List WorkerEvent
  | [] => (w, [])
  | i :: rest =>
    let (w, now) := w.react i
    let (w, later) := w.reactAll rest
    (w, now ++ later)

end Worker
end Handheld
