import Handheld.Sound.Queue

/-!
The ring of slots as a bounded queue. The queue is told by its history, which is the frames it
accepted and how many of them were popped; every operation answers as one on that history does.
-/

namespace Handheld

/-- The frames of interleaved samples; a last sample without its pair is left out. -/
def StereoFrame.pairs : List Sample → List StereoFrame
  | l :: r :: rest => ⟨l, r⟩ :: pairs rest
  | _ => []

namespace AudioQueue

@[simp] theorem interleave_nil : interleave [] = [] := rfl

@[simp] theorem interleave_cons (f : StereoFrame) (rest : List StereoFrame) :
    interleave (f :: rest) = f.left :: f.right :: interleave rest := rfl

theorem length_interleave (frames : List StereoFrame) :
    (interleave frames).length = 2 * frames.length := by
  induction frames with
  | nil => rfl
  | cons f rest ih => simp [ih]; omega

theorem pairs_interleave (frames : List StereoFrame) :
    StereoFrame.pairs (interleave frames) = frames := by
  induction frames with
  | nil => rfl
  | cons f rest ih => simp [StereoFrame.pairs, ih]

theorem push_sampleRate (q : AudioQueue) (f : StereoFrame) :
    (q.push f).1.sampleRate = q.sampleRate := by
  unfold push
  dsimp only
  split <;> rfl

theorem pushSamples_sampleRate (samples : List Sample) (q : AudioQueue) :
    (q.pushSamples samples).sampleRate = q.sampleRate := by
  fun_induction pushSamples samples q with
  | case1 l r rest q ih => exact ih.trans (q.push_sampleRate ⟨l, r⟩)
  | case2 => rfl

@[simp] theorem pop_sampleRate (q : AudioQueue) : q.pop.2.sampleRate = q.sampleRate := by
  unfold pop
  split <;> rfl

@[simp] theorem popMany_sampleRate (n : Nat) (q : AudioQueue) :
    (q.popMany n).2.sampleRate = q.sampleRate := by
  induction n generalizing q with
  | zero => rfl
  | succ n ih =>
    have hpop := q.pop_sampleRate
    unfold popMany
    split
    case h_1 hnone => simpa [hnone] using hpop
    case h_2 hsome => simpa [ih, hsome] using hpop

theorem mod_ne_mod {i j n : Nat} (hlt : i < j) (hnear : j < i + n) : i % n ≠ j % n := by
  intro heq
  have hzero : j - i = 0 :=
    Nat.eq_zero_of_dvd_of_lt
      (Nat.dvd_of_mod_eq_zero (Nat.sub_mod_eq_zero_of_mod_eq heq.symm)) (by omega)
  omega

theorem nextIndex_mod {q : AudioQueue} (h : 0 < q.slots.size) (i : Nat) :
    q.nextIndex (i % q.slots.size) = (i + 1) % q.slots.size := by
  have hlt := Nat.mod_lt i h
  rw [nextIndex, ← Nat.mod_add_mod]
  split
  case isTrue hlast => rw [hlast, Nat.mod_self]
  case isFalse hmore => exact (Nat.mod_eq_of_lt (by omega)).symm

/-- The ring after it accepted some frames, of which so many were popped. -/
structure Carries (q : AudioQueue) (accepted : List StereoFrame) (popped : Nat) : Prop where
  head : q.head = accepted.length % q.slots.size
  tail : q.tail = popped % q.slots.size
  popped_le : popped ≤ accepted.length
  room : accepted.length < popped + q.slots.size
  slot : ∀ i (h : i < accepted.length), popped ≤ i →
    q.slots.getD (i % q.slots.size) .silent = accepted[i]

namespace Carries

variable {q : AudioQueue} {accepted : List StereoFrame} {popped : Nat}

theorem size_pos (h : q.Carries accepted popped) : 0 < q.slots.size := by
  have hle := h.popped_le
  have hroom := h.room
  omega

theorem empty_iff (h : q.Carries accepted popped) :
    q.tail = q.head ↔ popped = accepted.length := by
  have hle := h.popped_le
  rw [h.head, h.tail]
  refine ⟨fun heq => Decidable.byContradiction fun hne => ?_, fun heq => by rw [heq]⟩
  exact mod_ne_mod (by omega) h.room heq

theorem full_iff (h : q.Carries accepted popped) :
    q.nextIndex q.head = q.tail ↔ accepted.length + 1 = popped + q.slots.size := by
  have hle := h.popped_le
  have hroom := h.room
  rw [h.head, h.tail, nextIndex_mod h.size_pos]
  refine ⟨fun heq => Decidable.byContradiction fun hne => ?_,
    fun heq => by rw [heq, Nat.add_mod_right]⟩
  exact mod_ne_mod (by omega) (by omega) heq.symm

theorem length_eq (h : q.Carries accepted popped) : q.length = accepted.length - popped := by
  obtain ⟨waiting, hwaiting⟩ := Nat.exists_eq_add_of_le h.popped_le
  have hroom := h.room
  have hlt := Nat.mod_lt popped h.size_pos
  have hhead : q.head = (popped % q.slots.size + waiting) % q.slots.size := by
    rw [h.head, hwaiting, Nat.mod_add_mod]
  rw [length, hhead, h.tail, hwaiting, Nat.add_sub_cancel_left]
  generalize popped % q.slots.size = tail at hlt
  by_cases hwrap : tail + waiting < q.slots.size
  · rw [Nat.mod_eq_of_lt hwrap, if_pos (by omega)]
    omega
  · rw [Nat.mod_eq_sub_mod (by omega), Nat.mod_eq_of_lt (by omega), if_neg (by omega)]
    omega

theorem write (h : q.Carries accepted popped) (f : StereoFrame) :
    Carries { q with slots := q.slots.setIfInBounds q.head f } accepted popped where
  head := by simp [h.head]
  tail := by simp [h.tail]
  popped_le := h.popped_le
  room := by simp [h.room]
  slot i hi hpopped := by
    have hother : q.head ≠ i % q.slots.size := by
      rw [h.head]
      exact (mod_ne_mod hi (by have := h.room; omega)).symm
    have hslot := h.slot i hi hpopped
    simp only [Array.getD_eq_getD_getElem?, Array.size_setIfInBounds] at hslot ⊢
    rw [Array.getElem?_setIfInBounds_ne hother, hslot]

theorem written (h : q.Carries accepted popped) (f : StereoFrame) :
    (q.slots.setIfInBounds q.head f).getD q.head .silent = f := by
  have hlt : q.head < q.slots.size := by rw [h.head]; exact Nat.mod_lt _ h.size_pos
  simp [Array.getD_eq_getD_getElem?, hlt]

theorem publish (h : q.Carries accepted popped) {f : StereoFrame}
    (hslot : q.slots.getD q.head .silent = f)
    (hroom : accepted.length + 1 < popped + q.slots.size) :
    Carries { q with head := q.nextIndex q.head } (accepted ++ [f]) popped where
  head := by rw [h.head, nextIndex_mod h.size_pos, List.length_append]; rfl
  tail := h.tail
  popped_le := by have := h.popped_le; simp; omega
  room := by simpa using hroom
  slot i hi hpopped := by
    rw [List.length_append, List.length_singleton] at hi
    rcases Nat.lt_or_ge i accepted.length with hold | hnew
    · rw [List.getElem_append_left hold]
      exact h.slot i hold hpopped
    · obtain rfl : i = accepted.length := by omega
      rw [List.getElem_append_right hnew]
      simpa [← h.head] using hslot

theorem front (h : q.Carries accepted popped) (hmore : popped < accepted.length) :
    q.slots.getD q.tail .silent = accepted[popped] := by
  rw [h.tail]
  exact h.slot popped hmore (Nat.le_refl _)

theorem advance (h : q.Carries accepted popped) (hmore : popped < accepted.length) :
    Carries { q with tail := q.nextIndex q.tail } accepted (popped + 1) where
  head := h.head
  tail := by rw [h.tail, nextIndex_mod h.size_pos]
  popped_le := hmore
  room := by have := h.room; simp only; omega
  slot i hi hpopped := h.slot i hi (by omega)

end Carries

theorem create_size (capacity sampleRate : Nat) :
    (create capacity sampleRate).slots.size = max 1 capacity + 1 := by
  have hsize : (create capacity sampleRate).slots.size = max 2 (capacity + 1) :=
    Array.size_replicate
  omega

theorem create_carries (capacity sampleRate : Nat) :
    (create capacity sampleRate).Carries [] 0 where
  head := (Nat.zero_mod _).symm
  tail := (Nat.zero_mod _).symm
  popped_le := Nat.le_refl _
  room := by
    rw [create_size, List.length_nil]
    omega
  slot i hi := by cases hi

inductive Operation where
  | push (f : StereoFrame)
  | bufferSamples (samples : Array Sample) (offset length : Nat)
  | pop
  | popInto (out : List Sample)

inductive Answer where
  | accepted (taken : Bool)
  | buffered
  | popped (f : Option StereoFrame)
  | filled (count : Nat) (out : List Sample)

def Answer.frames : Answer → List StereoFrame
  | .popped f => f.toList
  | .filled count out => StereoFrame.pairs (out.take (2 * count))
  | _ => []

def perform (q : AudioQueue) : Operation → Answer × AudioQueue
  | .push f => (.accepted (q.push f).2, (q.push f).1)
  | .bufferSamples samples offset length => (.buffered, q.bufferSamples samples offset length)
  | .pop => (.popped q.pop.1, q.pop.2)
  | .popInto out => (.filled (q.popInto out).1.1 (q.popInto out).1.2, (q.popInto out).2)

def performAll (q : AudioQueue) : List Operation → List Answer × AudioQueue
  | [] => ([], q)
  | o :: rest =>
    let (answer, q) := q.perform o
    let (answers, q) := q.performAll rest
    (answer :: answers, q)

end AudioQueue

structure Fifo where
  capacity : Nat
  accepted : List StereoFrame := []
  /-- How many of the frames accepted were popped. -/
  popped : Nat := 0
  dropped : Nat := 0

namespace Fifo
open AudioQueue

def queued (s : Fifo) : List StereoFrame := s.accepted.drop s.popped

def push (s : Fifo) (f : StereoFrame) : Fifo × Bool :=
  if s.queued.length = s.capacity then ({ s with dropped := s.dropped + 1 }, false)
  else ({ s with accepted := s.accepted ++ [f] }, true)

def pushAll (s : Fifo) (frames : List StereoFrame) : Fifo :=
  frames.foldl (fun s f => (s.push f).1) s

def popUpTo (s : Fifo) (n : Nat) : List StereoFrame × Fifo :=
  (s.queued.take n, { s with popped := s.popped + (s.queued.take n).length })

def perform (s : Fifo) : AudioQueue.Operation → AudioQueue.Answer × Fifo
  | .push f => (.accepted (s.push f).2, (s.push f).1)
  | .bufferSamples samples offset length =>
    (.buffered, s.pushAll (StereoFrame.pairs ((samples.toList.drop offset).take length)))
  | .pop => (.popped (s.popUpTo 1).1.head?, (s.popUpTo 1).2)
  | .popInto out =>
    let (frames, s) := s.popUpTo (out.length / 2)
    (.filled frames.length (interleave frames ++ out.drop (2 * frames.length)), s)

def performAll (s : Fifo) : List AudioQueue.Operation → List AudioQueue.Answer × Fifo
  | [] => ([], s)
  | o :: rest =>
    let (answer, s) := s.perform o
    let (answers, s) := s.performAll rest
    (answer :: answers, s)

theorem popUpTo_of_nil {s : Fifo} (h : s.queued = []) (n : Nat) : s.popUpTo n = ([], s) := by
  simp [popUpTo, h]

theorem popUpTo_succ {s : Fifo} {f : StereoFrame} {rest : List StereoFrame}
    (h : s.queued = f :: rest) (n : Nat) :
    let next := { s with popped := s.popped + 1 }
    s.popUpTo (n + 1) = (f :: (next.popUpTo n).1, (next.popUpTo n).2) := by
  intro next
  have hrest : next.queued = rest := by
    rw [queued, ← List.tail_drop]
    exact congrArg List.tail h
  have hcount : s.popped + ((rest.take n).length + 1) = s.popped + 1 + (rest.take n).length := by
    omega
  rw [popUpTo, popUpTo, h, hrest, List.take_succ_cons, List.length_cons, hcount]

/-- The frames popped on the way from one history to a longer one. -/
structure Pops (s : Fifo) (out : List StereoFrame) (s' : Fifo) : Prop where
  capacity : s'.capacity = s.capacity
  popped_le : s'.popped ≤ s'.accepted.length
  order : s'.accepted.take s'.popped = s.accepted.take s.popped ++ out

variable {s s' s'' : Fifo} {first second : List StereoFrame}

theorem Pops.trans (h : s.Pops first s') (h' : s'.Pops second s'') :
    s.Pops (first ++ second) s'' where
  capacity := h'.capacity.trans h.capacity
  popped_le := h'.popped_le
  order := by rw [h'.order, h.order, List.append_assoc]

theorem push_pops (h : s.popped ≤ s.accepted.length) (f : StereoFrame) :
    s.Pops [] (s.push f).1 := by
  unfold push
  split
  · exact ⟨rfl, h, (List.append_nil _).symm⟩
  · exact ⟨rfl, by simp; omega, by simp [List.take_append_of_le_length h]⟩

theorem pushAll_pops (h : s.popped ≤ s.accepted.length) (frames : List StereoFrame) :
    s.Pops [] (s.pushAll frames) := by
  induction frames generalizing s with
  | nil => exact ⟨rfl, h, (List.append_nil _).symm⟩
  | cons f rest ih =>
    have hpush := push_pops h f
    exact hpush.trans (ih hpush.popped_le)

theorem popUpTo_pops (h : s.popped ≤ s.accepted.length) (n : Nat) :
    s.Pops (s.popUpTo n).1 (s.popUpTo n).2 where
  capacity := rfl
  popped_le := by simp [popUpTo, queued]; omega
  order := by
    have hwhole : s.queued.take (s.queued.take n).length = s.queued.take n :=
      List.take_eq_take_iff.mpr (by simp)
    rw [popUpTo, List.take_add, ← queued, hwhole]

theorem perform_pops (h : s.popped ≤ s.accepted.length) (o : AudioQueue.Operation) :
    s.Pops (s.perform o).1.frames (s.perform o).2 := by
  cases o with
  | push f => exact push_pops h f
  | bufferSamples samples offset length => exact pushAll_pops h _
  | pop =>
    have hframes : (s.perform .pop).1.frames = (s.popUpTo 1).1 := by
      simp only [perform, popUpTo]
      cases s.queued <;> rfl
    rw [hframes]
    exact popUpTo_pops h 1
  | popInto out =>
    have hframes : (s.perform (.popInto out)).1.frames = (s.popUpTo (out.length / 2)).1 := by
      simp only [perform, Answer.frames]
      rw [← length_interleave, List.take_left, pairs_interleave]
    rw [hframes]
    exact popUpTo_pops h _

theorem performAll_pops (h : s.popped ≤ s.accepted.length)
    (operations : List AudioQueue.Operation) :
    s.Pops ((s.performAll operations).1.flatMap Answer.frames) (s.performAll operations).2 := by
  induction operations generalizing s with
  | nil => exact ⟨rfl, h, (List.append_nil _).symm⟩
  | cons o rest ih =>
    have hfirst := perform_pops h o
    exact hfirst.trans (ih hfirst.popped_le)

end Fifo

namespace AudioQueue

/-- The ring holds what the bounded queue holds, and refused as many frames. -/
structure Refines (q : AudioQueue) (s : Fifo) : Prop where
  carries : q.Carries s.accepted s.popped
  size : q.slots.size = s.capacity + 1
  dropped : q.dropped = s.dropped

namespace Refines

variable {q : AudioQueue} {s : Fifo}

theorem push (h : q.Refines s) (f : StereoFrame) :
    (q.push f).2 = (s.push f).2 ∧ (q.push f).1.Refines (s.push f).1 := by
  have hle := h.carries.popped_le
  have hroom := h.carries.room
  have hsize := h.size
  have hfull : q.nextIndex q.head = q.tail ↔ s.queued.length = s.capacity := by
    rw [h.carries.full_iff, Fifo.queued, List.length_drop]
    omega
  unfold AudioQueue.push Fifo.push
  by_cases hfit : q.nextIndex q.head = q.tail
  · rw [if_pos hfit, if_pos (hfull.mp hfit)]
    exact ⟨rfl, ⟨h.carries.head, h.carries.tail, hle, hroom, h.carries.slot⟩, hsize,
      congrArg (· + 1) h.dropped⟩
  · rw [if_neg hfit, if_neg (mt hfull.mpr hfit)]
    have hspare : s.accepted.length + 1 ≠ s.popped + q.slots.size :=
      mt h.carries.full_iff.mpr hfit
    have hnext : Carries { q with
        slots := q.slots.setIfInBounds q.head f, head := q.nextIndex q.head }
        (s.accepted ++ [f]) s.popped := by
      have hpublished := (h.carries.write f).publish (h.carries.written f) (by simp; omega)
      simpa [nextIndex] using hpublished
    exact ⟨rfl, hnext, by simpa using hsize, h.dropped⟩

theorem pushSamples (h : q.Refines s) (samples : List Sample) :
    (q.pushSamples samples).Refines (s.pushAll (StereoFrame.pairs samples)) := by
  fun_induction AudioQueue.pushSamples samples q generalizing s with
  | case1 l r rest q ih => exact ih (h.push ⟨l, r⟩).2
  | case2 samples q hshort =>
    have hnone : StereoFrame.pairs samples = [] := by
      unfold StereoFrame.pairs
      split
      case h_1 l r rest => exact absurd rfl (hshort l r rest)
      case h_2 => rfl
    rw [hnone]
    exact h

theorem pop_cases (h : q.Refines s) :
    (s.queued = [] ∧ q.pop = (none, q)) ∨
      ∃ f rest, s.queued = f :: rest ∧ q.pop.1 = some f ∧
        q.pop.2.Refines { s with popped := s.popped + 1 } := by
  unfold AudioQueue.pop
  by_cases hempty : q.tail = q.head
  · have hall := h.carries.empty_iff.mp hempty
    exact .inl ⟨List.drop_eq_nil_of_le (by omega), if_pos hempty⟩
  · have hmore : s.popped < s.accepted.length :=
      Nat.lt_of_le_of_ne h.carries.popped_le (mt h.carries.empty_iff.mpr hempty)
    rw [if_neg hempty, h.carries.front hmore]
    exact .inr ⟨_, _, List.drop_eq_getElem_cons hmore, rfl, h.carries.advance hmore, h.size,
      h.dropped⟩

theorem pop (h : q.Refines s) :
    q.pop.1 = (s.popUpTo 1).1.head? ∧ q.pop.2.Refines (s.popUpTo 1).2 := by
  rcases h.pop_cases with ⟨hnone, hpop⟩ | ⟨f, rest, hqueued, hpop, hnext⟩
  · rw [hpop, s.popUpTo_of_nil hnone]
    exact ⟨rfl, h⟩
  · rw [hpop, s.popUpTo_succ hqueued]
    exact ⟨rfl, hnext⟩

theorem popMany (h : q.Refines s) (n : Nat) :
    (q.popMany n).1 = (s.popUpTo n).1 ∧ (q.popMany n).2.Refines (s.popUpTo n).2 := by
  induction n generalizing q s with
  | zero => exact ⟨rfl, h⟩
  | succ n ih =>
    rcases h.pop_cases with ⟨hnone, hpop⟩ | ⟨f, rest, hqueued, hpop, hnext⟩
    · rw [AudioQueue.popMany, hpop, s.popUpTo_of_nil hnone]
      exact ⟨rfl, h⟩
    · have hpair : q.pop = (some f, q.pop.2) := Prod.ext hpop rfl
      obtain ⟨hframes, hlast⟩ := ih hnext
      rw [AudioQueue.popMany, hpair, s.popUpTo_succ hqueued]
      exact ⟨congrArg (f :: ·) hframes, hlast⟩

theorem perform (h : q.Refines s) (o : Operation) :
    (q.perform o).1 = (s.perform o).1 ∧ (q.perform o).2.Refines (s.perform o).2 := by
  cases o with
  | push f =>
    obtain ⟨htaken, hnext⟩ := h.push f
    exact ⟨congrArg Answer.accepted htaken, hnext⟩
  | bufferSamples samples offset length =>
    have hwindow : (samples.extract offset (offset + length)).toList =
        (samples.toList.drop offset).take length := by
      rw [Array.toList_extract, List.extract_eq_take_drop, Nat.add_sub_cancel_left]
    refine ⟨rfl, ?_⟩
    rw [AudioQueue.perform, bufferSamples, hwindow]
    exact h.pushSamples _
  | pop =>
    obtain ⟨hframe, hnext⟩ := h.pop
    exact ⟨congrArg Answer.popped hframe, hnext⟩
  | popInto out =>
    obtain ⟨hframes, hnext⟩ := h.popMany (out.length / 2)
    simp only [AudioQueue.perform, AudioQueue.popInto, Fifo.perform, hframes]
    exact ⟨trivial, hnext⟩

theorem performAll (h : q.Refines s) (operations : List Operation) :
    (q.performAll operations).1 = (s.performAll operations).1 ∧
      (q.performAll operations).2.Refines (s.performAll operations).2 := by
  induction operations generalizing q s with
  | nil => exact ⟨rfl, h⟩
  | cons o rest ih =>
    obtain ⟨hanswer, hnext⟩ := h.perform o
    obtain ⟨hanswers, hlast⟩ := ih hnext
    simp only [AudioQueue.performAll, Fifo.performAll, hanswer, hanswers]
    exact ⟨trivial, hlast⟩

end Refines

theorem create_refines (capacity sampleRate : Nat) :
    (create capacity sampleRate).Refines { capacity := max 1 capacity } where
  carries := create_carries capacity sampleRate
  size := create_size capacity sampleRate
  dropped := rfl

/-- Whatever is pushed and popped, the queue answers as a bounded queue of its capacity, one at
least: a push is refused, and counted, exactly when as many frames are queued, the frames that the
pops hand out are those accepted, each once and in their order, and its length is the number
accepted less the number popped. -/
theorem queue_is_bounded_fifo (capacity sampleRate : Nat) (operations : List Operation) :
    let run := (create capacity sampleRate).performAll operations
    let fifo := Fifo.performAll { capacity := max 1 capacity } operations
    run.1 = fifo.1 ∧
      run.2.dropped = fifo.2.dropped ∧
      run.1.flatMap Answer.frames = fifo.2.accepted.take fifo.2.popped ∧
      fifo.2.popped ≤ fifo.2.accepted.length ∧
      run.2.length = fifo.2.accepted.length - fifo.2.popped ∧
      run.2.length ≤ max 1 capacity := by
  intro run fifo
  obtain ⟨hanswers, hlast⟩ := (create_refines capacity sampleRate).performAll operations
  have hpops := Fifo.performAll_pops (s := { capacity := max 1 capacity }) (Nat.le_refl 0)
    operations
  have hsize : run.2.slots.size = max 1 capacity + 1 := by
    rw [hlast.size, hpops.capacity]
  have hroom : fifo.2.accepted.length < fifo.2.popped + run.2.slots.size := hlast.carries.room
  have hlength : run.2.length = fifo.2.accepted.length - fifo.2.popped := hlast.carries.length_eq
  refine ⟨hanswers, hlast.dropped, ?_, hpops.popped_le, hlength, by omega⟩
  rw [hanswers, hpops.order]
  rfl

end AudioQueue
end Handheld
