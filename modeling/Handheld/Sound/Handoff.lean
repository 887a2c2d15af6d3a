import Handheld.Sound.Queue

/-!
The queue between two threads. A push and a pop are each four accesses to what the threads share,
and those of the one thread may come between those of the other in any way.
-/

namespace Handheld

/-- How far a push is, with the position it loaded. -/
inductive Handoff.Producer where
  | idle
  | sawHead (f : StereoFrame) (head : Nat)
  | sawRoom (f : StereoFrame) (head : Nat)
  | wrote (f : StereoFrame) (head : Nat)

/-- How far a pop is, with the position it loaded. -/
inductive Handoff.Consumer where
  | idle
  | sawTail (tail : Nat)
  | sawFrame (tail : Nat)
  | read (tail : Nat) (f : StereoFrame)

inductive Handoff.Side where
  | producer
  | consumer
  deriving DecidableEq, Repr

structure Handoff where
  queue : AudioQueue
  producer : Handoff.Producer := .idle
  consumer : Handoff.Consumer := .idle
  toPush : List StereoFrame
  /-- The frames whose pushes are done and were not refused. -/
  pushed : List StereoFrame := []
  popped : List StereoFrame := []
  /-- The slots written since they were last popped. -/
  fresh : List Nat := []

namespace Handoff

def start (capacity sampleRate : Nat) (frames : List StereoFrame) : Handoff :=
  { queue := .create capacity sampleRate, toPush := frames }

/-- The next access of the producer. -/
def produce (s : Handoff) : Handoff :=
  match s.producer with
  | .idle =>
    match s.toPush with
    | [] => s
    | f :: rest => { s with producer := .sawHead f s.queue.head, toPush := rest }
  | .sawHead f head =>
    if s.queue.nextIndex head = s.queue.tail then
      { s with queue := { s.queue with dropped := s.queue.dropped + 1 }, producer := .idle }
    else { s with producer := .sawRoom f head }
  | .sawRoom f head =>
    { s with
      queue := { s.queue with slots := s.queue.slots.setIfInBounds head f }
      producer := .wrote f head
      fresh := head :: s.fresh }
  | .wrote f head =>
    { s with
      queue := { s.queue with head := s.queue.nextIndex head }
      producer := .idle
      pushed := s.pushed ++ [f] }

/-- The next access of the consumer. -/
def consume (s : Handoff) : Handoff :=
  match s.consumer with
  | .idle => { s with consumer := .sawTail s.queue.tail }
  | .sawTail tail =>
    if tail = s.queue.head then { s with consumer := .idle }
    else { s with consumer := .sawFrame tail }
  | .sawFrame tail => { s with consumer := .read tail (s.queue.slots.getD tail .silent) }
  | .read tail f =>
    { s with
      queue := { s.queue with tail := s.queue.nextIndex tail }
      consumer := .idle
      popped := s.popped ++ [f]
      fresh := s.fresh.filter (· ≠ tail) }

def turn (s : Handoff) : Side → Handoff
  | .producer => s.produce
  | .consumer => s.consume

/-- The accesses in the order in which the sides take their turns. -/
def run (s : Handoff) (turns : List Side) : Handoff := turns.foldl turn s

/-- The slot that the producer found free and has not published. -/
def Producer.slot? : Producer → Option Nat
  | .sawRoom _ head | .wrote _ head => some head
  | _ => none

/-- The slot that the consumer found a frame in and has not given back. -/
def Consumer.slot? : Consumer → Option Nat
  | .sawFrame tail | .read tail _ => some tail
  | _ => none

def Consumer.frame? : Consumer → Option StereoFrame
  | .read _ f => some f
  | _ => none

end Handoff
end Handheld
