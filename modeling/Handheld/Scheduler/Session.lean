import Handheld.Scheduler.Basic

/-!
A worker between a host and a pacing source that act whenever they like. It reads the commands in
the order in which they were sent; while it waits for a frame to start, and finds both a command and
a signal, it may take either.
-/

namespace Handheld

inductive Happening where
  | send (c : Command)
  /-- The host is gone, but not the commands it has sent. -/
  | hangUp
  | signal
  /-- The pacing source is gone, but not the signals it has given. -/
  | unplug
  | turn (prefersSignal : Bool)
  deriving DecidableEq, Repr

namespace Happening

def command? : Happening → Option Command
  | .send c => some c
  | _ => none

end Happening

namespace Pacing

def signal : Pacing → Pacing
  | .external ready true => .external (ready + 1) true
  | p => p

def unplug : Pacing → Pacing
  | .external ready _ => .external ready false
  | p => p

def held : Pacing → Bool
  | .unlimited => false
  | .clock => true
  | .external _ held => held

end Pacing

/-- Whether a worker in a phase executes an instruction on an input. -/
def Phase.executes : Phase → Input → Bool
  | .broken, .command .step => true
  | .running, .command .resume | .running, .command .step | .running, .nothing => true
  | _, _ => false

/-- One turn of a worker, as it is seen from outside. -/
structure Turn where
  /-- The phase in which it began. -/
  phase : Phase
  input : Input
  /-- What the machine reported of the instruction executed, if one was. -/
  executed : Option StepInfo
  events : List WorkerEvent

namespace Worker
variable {σ : Type} [ExternalMemory σ]

def turn (w : Worker σ) (i : Input) : Turn where
  phase := w.phase
  input := i
  executed := if w.phase.executes i then some w.machine.step.2 else none
  events := (w.react i).2

def turns (w : Worker σ) : List Input → List Turn
  | [] => []
  | i :: rest => w.turn i :: (w.react i).1.turns rest

end Worker

structure Session (σ : Type) extends Scheduler σ where
  hungUp : Bool := false

namespace Session
variable {σ : Type}

def start (machine : Machine σ) (pacing : Pacing) : Session σ :=
  { toScheduler := .spawn machine pacing }

def hasMail (s : Session σ) : Bool := !s.inbox.isEmpty || s.hungUp

def mail (s : Session σ) : Input × Session σ :=
  match s.inbox with
  | c :: rest => (.command c, { s with inbox := rest })
  | [] => (if s.hungUp then .hungUp else .nothing, s)

def look (s : Session σ) (prefersSignal : Bool) : Input × Session σ :=
  match s.worker.phase with
  | .finished => (.nothing, s)
  | .waiting =>
    if s.hasMail && !(prefersSignal && s.pacing.poll.1 != .nothing) then s.mail
    else (s.pacing.poll.1, { s with pacing := s.pacing.poll.2 })
  | _ => s.mail

variable [ExternalMemory σ]

def perform (s : Session σ) : Happening → Session σ × List Turn
  | .send c => ({ s with toScheduler := s.send c }, [])
  | .hangUp => ({ s with hungUp := true }, [])
  | .signal => ({ s with pacing := s.pacing.signal }, [])
  | .unplug => ({ s with pacing := s.pacing.unplug }, [])
  | .turn prefersSignal =>
    let (i, left) := s.look prefersSignal
    ({ left with worker := (s.worker.react i).1 }, [s.worker.turn i])

/-- The turns of the worker, in order, while some things happen. -/
def run (s : Session σ) : List Happening → Session σ × List Turn
  | [] => (s, [])
  | h :: rest =>
    let (s, now) := s.perform h
    let (s, later) := s.run rest
    (s, now ++ later)

end Session
end Handheld
