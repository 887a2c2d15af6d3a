import Handheld.Scheduler.Worker

/-!
A worker with the channels it is driven over: the commands sent and not yet read, and the source of
its frame starts. A worker reads its commands before its pacing source.
-/

namespace Handheld

inductive Pacing where
  /-- Frames follow one another without a wait. -/
  | unlimited
  /-- A clock, which starts a frame whenever one is waited for. -/
  | clock
  /-- A source of the host's with some signals ready; it is gone after them unless it is held. -/
  | external (ready : Nat) (held : Bool)
  deriving DecidableEq, Repr

namespace Pacing

def connected : Pacing → Bool
  | .unlimited => false
  | _ => true

/-- What a worker that waits finds at the source, and what is left of it. -/
def poll : Pacing → Input × Pacing
  | .unlimited => (.nothing, .unlimited)
  | .clock => (.tick, .clock)
  | .external (n + 1) held => (.tick, .external n held)
  | .external 0 held => (if held then .nothing else .sourceGone, .external 0 held)

end Pacing

structure Scheduler (σ : Type) where
  worker : Worker σ
  /-- Commands sent and not yet read, oldest first. -/
  inbox : List Command := []
  pacing : Pacing

namespace Scheduler
variable {σ : Type}

def spawn (machine : Machine σ) (pacing : Pacing) : Scheduler σ :=
  { worker := { machine, paced := pacing.connected }, pacing }

def send (s : Scheduler σ) (c : Command) : Scheduler σ := { s with inbox := s.inbox ++ [c] }

def nextInput (s : Scheduler σ) : Input × Scheduler σ :=
  match s with
  | { worker, inbox := c :: rest, pacing } => (.command c, { worker, inbox := rest, pacing })
  | { worker, inbox := [], pacing } =>
    match worker.phase with
    | .waiting =>
      let (i, pacing) := pacing.poll
      (i, { worker, inbox := [], pacing })
    | _ => (.nothing, { worker, inbox := [], pacing })

variable [ExternalMemory σ]

/-- One turn of the worker. -/
def advance (s : Scheduler σ) : Scheduler σ × List WorkerEvent :=
  match s.nextInput with
  | (i, { worker, inbox, pacing }) =>
    let (worker, events) := worker.react i
    ({ worker, inbox, pacing }, events)

def advanceMany : Nat → Scheduler σ → Scheduler σ
  | 0, s => s
  | n + 1, s => advanceMany n s.advance.1

/-- Turns up to the first that emits an event, at most a number of them. -/
def awaitEvent : Nat → Scheduler σ → Scheduler σ × Option WorkerEvent
  | 0, s => (s, none)
  | n + 1, s =>
    match s.advance with
    | (s, event :: _) => (s, some event)
    | (s, []) => awaitEvent n s

/-- Ends the worker and gives the machine back. Every command read before the end leaves at most one
turn between itself and the next. -/
def join (s : Scheduler σ) : Machine σ :=
  let s := s.send .terminate
  let turns := s.inbox.length
  (advanceMany turns s).worker.machine

end Scheduler
end Handheld
