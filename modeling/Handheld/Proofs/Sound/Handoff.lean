import Handheld.Proofs.Sound.Queue
import Handheld.Sound.Handoff

/-!
The queue between two threads, by every order of their accesses. What a side has seen of the
other's position may be old, but old news errs on the safe side: room that was there stays there
until this side takes it, and so does a frame.
-/

namespace Handheld.Handoff

theorem nextIndex_write (q : AudioQueue) (i j : Nat) (f : StereoFrame) :
    AudioQueue.nextIndex { q with slots := q.slots.setIfInBounds i f } j = q.nextIndex j := by
  simp [AudioQueue.nextIndex]

theorem produce_alone {s : Handoff} {f : StereoFrame} {rest : List StereoFrame}
    (hidle : s.producer = .idle) (hnext : s.toPush = f :: rest) :
    let taken := (s.queue.push f).2
    let after := s.run (List.replicate (if taken then 4 else 2) .producer)
    after.queue = (s.queue.push f).1 ∧ after.producer = .idle ∧ after.toPush = rest ∧
      after.pushed = s.pushed ++ if taken then [f] else [] := by
  by_cases hfull : s.queue.nextIndex s.queue.head = s.queue.tail
  · simp [run, turn, produce, AudioQueue.push, List.replicate, hidle, hnext, hfull]
  · simp [run, turn, produce, AudioQueue.push, List.replicate, hidle, hnext, hfull,
      nextIndex_write]

theorem consume_alone {s : Handoff} (hidle : s.consumer = .idle) :
    let found := s.queue.pop.1
    let after := s.run (List.replicate (if found.isSome then 4 else 2) .consumer)
    after.queue = s.queue.pop.2 ∧ after.consumer = .idle ∧
      after.popped = s.popped ++ found.toList := by
  by_cases hempty : s.queue.tail = s.queue.head
  · simp [run, turn, consume, AudioQueue.pop, List.replicate, hidle, hempty]
  · simp [run, turn, consume, AudioQueue.pop, List.replicate, hidle, hempty]

def ProducerOk (s : Handoff) : Producer → Prop
  | .idle => True
  | .sawHead _ head => head = s.queue.head
  | .sawRoom _ head =>
    head = s.queue.head ∧ s.pushed.length + 1 < s.popped.length + s.queue.slots.size
  | .wrote f head =>
    head = s.queue.head ∧ s.pushed.length + 1 < s.popped.length + s.queue.slots.size ∧
      s.queue.slots.getD head .silent = f ∧ head ∈ s.fresh

def ConsumerOk (s : Handoff) : Consumer → Prop
  | .idle => True
  | .sawTail tail => tail = s.queue.tail
  | .sawFrame tail => tail = s.queue.tail ∧ s.popped.length < s.pushed.length
  | .read tail f => tail = s.queue.tail ∧ s.popped ++ [f] <+: s.pushed

structure Safe (s : Handoff) : Prop where
  carries : s.queue.Carries s.pushed s.popped.length
  order : s.popped <+: s.pushed
  fresh : ∀ i, s.popped.length ≤ i → i < s.pushed.length → i % s.queue.slots.size ∈ s.fresh
  producer : s.ProducerOk s.producer
  consumer : s.ConsumerOk s.consumer

theorem start_safe (capacity sampleRate : Nat) (frames : List StereoFrame) :
    (start capacity sampleRate frames).Safe where
  carries := AudioQueue.create_carries capacity sampleRate
  order := List.nil_prefix
  fresh i _ hi := by cases hi
  producer := trivial
  consumer := trivial

/-- The producer leaves alone what the consumer relies on. -/
theorem ConsumerOk.mono {s s' : Handoff} {c : Consumer} (h : s.ConsumerOk c)
    (htail : s'.queue.tail = s.queue.tail) (hpopped : s'.popped = s.popped)
    (hpushed : s.pushed <+: s'.pushed) : s'.ConsumerOk c := by
  have hlength := hpushed.length_le
  cases c with
  | idle => trivial
  | sawTail tail => exact h.trans htail.symm
  | sawFrame tail =>
    refine ⟨h.1.trans htail.symm, ?_⟩
    rw [hpopped]
    exact Nat.lt_of_lt_of_le h.2 hlength
  | read tail f =>
    refine ⟨h.1.trans htail.symm, ?_⟩
    rw [hpopped]
    exact h.2.trans hpushed

theorem Safe.head_ne_tail {s : Handoff} (h : s.Safe) (hmore : s.popped.length < s.pushed.length) :
    s.queue.head ≠ s.queue.tail := by
  intro heq
  have := h.carries.empty_iff.mp heq.symm
  omega

theorem Safe.produce {s : Handoff} (h : s.Safe) : s.produce.Safe := by
  have hpopped := h.order.length_le
  have hok := h.producer
  unfold Handoff.produce
  cases hp : s.producer with
  | idle =>
    cases s.toPush with
    | nil => exact h
    | cons f rest => exact ⟨h.carries, h.order, h.fresh, rfl, h.consumer⟩
  | sawHead f head =>
    obtain rfl : head = s.queue.head := by rwa [hp] at hok
    dsimp only
    split
    case isTrue hfull =>
      have hcarries := h.carries
      exact ⟨⟨hcarries.head, hcarries.tail, hcarries.popped_le, hcarries.room, hcarries.slot⟩,
        h.order, h.fresh, trivial, h.consumer⟩
    case isFalse hspare =>
      have hroom := mt h.carries.full_iff.mpr hspare
      have hbound := h.carries.room
      exact ⟨h.carries, h.order, h.fresh, ⟨rfl, by dsimp only; omega⟩, h.consumer⟩
  | sawRoom f head =>
    rw [hp] at hok
    obtain ⟨rfl, hroom⟩ := hok
    refine ⟨h.carries.write f, h.order, ?_, ?_, h.consumer.mono rfl rfl List.prefix_rfl⟩
    · intro i hle hlt
      exact List.mem_cons_of_mem _ (by simpa using h.fresh i hle hlt)
    · exact ⟨rfl, by simpa using hroom, h.carries.written f, List.mem_cons_self ..⟩
  | wrote f head =>
    rw [hp] at hok
    obtain ⟨rfl, hroom, hslot, hfresh⟩ := hok
    have hlonger : s.pushed <+: s.pushed ++ [f] := List.prefix_append ..
    refine ⟨h.carries.publish hslot hroom, h.order.trans hlonger, ?_, trivial,
      h.consumer.mono rfl rfl hlonger⟩
    intro i hle hlt
    rw [List.length_append, List.length_singleton] at hlt
    rcases Nat.lt_or_ge i s.pushed.length with hold | hnew
    · exact h.fresh i hle hold
    · obtain rfl : i = s.pushed.length := by omega
      exact h.carries.head ▸ hfresh

/-- The consumer takes no room from the producer, nor the slot it wrote. -/
theorem ProducerOk.mono {s s' : Handoff} {p : Producer} (h : s.ProducerOk p)
    (hhead : s'.queue.head = s.queue.head) (hslots : s'.queue.slots = s.queue.slots)
    (hpushed : s'.pushed = s.pushed) (hpopped : s.popped.length ≤ s'.popped.length)
    (hfresh : s.queue.head ∈ s.fresh → s'.queue.head ∈ s'.fresh) : s'.ProducerOk p := by
  cases p with
  | idle => trivial
  | sawHead f head => exact h.trans hhead.symm
  | sawRoom f head =>
    refine ⟨h.1.trans hhead.symm, ?_⟩
    have hroom := h.2
    rw [hpushed, hslots]
    omega
  | wrote f head =>
    obtain ⟨rfl, hroom, hslot, hwritten⟩ := h
    refine ⟨hhead.symm, ?_, hslots ▸ hslot, hhead ▸ hfresh hwritten⟩
    rw [hpushed, hslots]
    omega

theorem Safe.consume {s : Handoff} (h : s.Safe) : s.consume.Safe := by
  have hok := h.consumer
  unfold Handoff.consume
  cases hc : s.consumer with
  | idle => exact ⟨h.carries, h.order, h.fresh, h.producer, rfl⟩
  | sawTail tail =>
    obtain rfl : tail = s.queue.tail := by rwa [hc] at hok
    dsimp only
    split
    case isTrue hempty => exact ⟨h.carries, h.order, h.fresh, h.producer, trivial⟩
    case isFalse hsome =>
      have hmore : s.popped.length < s.pushed.length :=
        Nat.lt_of_le_of_ne h.carries.popped_le (mt h.carries.empty_iff.mpr hsome)
      exact ⟨h.carries, h.order, h.fresh, h.producer, rfl, hmore⟩
  | sawFrame tail =>
    rw [hc] at hok
    obtain ⟨rfl, hmore⟩ := hok
    have hnext : s.popped ++ [s.pushed[s.popped.length]] = s.pushed.take (s.popped.length + 1) := by
      rw [List.take_succ_eq_append_getElem hmore, ← List.prefix_iff_eq_take.mp h.order]
    refine ⟨h.carries, h.order, h.fresh, h.producer, rfl, ?_⟩
    dsimp only
    rw [h.carries.front hmore, hnext]
    exact List.take_prefix ..
  | read tail f =>
    rw [hc] at hok
    obtain ⟨rfl, hnext⟩ := hok
    have hmore : s.popped.length < s.pushed.length := by
      simpa [Nat.succ_le_iff] using hnext.length_le
    refine ⟨?_, hnext, ?_, h.producer.mono rfl rfl rfl (by simp) ?_, trivial⟩
    · simpa using h.carries.advance hmore
    · intro i hle hlt
      have hlater : s.popped.length < i := by simpa [Nat.succ_le_iff] using hle
      have hother : i % s.queue.slots.size ≠ s.queue.tail := by
        rw [h.carries.tail]
        exact (AudioQueue.mod_ne_mod hlater (Nat.lt_trans hlt h.carries.room)).symm
      exact List.mem_filter.mpr ⟨h.fresh i (by omega) hlt, by simpa using hother⟩
    · intro hwritten
      exact List.mem_filter.mpr ⟨hwritten, by simpa using h.head_ne_tail hmore⟩

theorem Safe.run {s : Handoff} (h : s.Safe) (turns : List Side) : (s.run turns).Safe := by
  induction turns generalizing s with
  | nil => exact h
  | cons side rest ih =>
    cases side with
    | producer => exact ih h.produce
    | consumer => exact ih h.consume

theorem Safe.slot_fresh {s : Handoff} (h : s.Safe) {slot : Nat}
    (hslot : s.consumer.slot? = some slot) :
    slot = s.queue.tail ∧ s.popped.length < s.pushed.length ∧ slot ∈ s.fresh := by
  have hok := h.consumer
  have hfound : slot = s.queue.tail ∧ s.popped.length < s.pushed.length := by
    cases hc : s.consumer <;> rw [hc] at hslot hok <;> cases hslot
    case sawFrame => exact hok
    case read => exact ⟨hok.1, by simpa [Nat.succ_le_iff] using hok.2.length_le⟩
  refine ⟨hfound.1, hfound.2, ?_⟩
  rw [hfound.1, h.carries.tail]
  exact h.fresh _ (Nat.le_refl _) hfound.2

theorem Safe.producer_slot {s : Handoff} (h : s.Safe) {slot : Nat}
    (hslot : s.producer.slot? = some slot) : slot = s.queue.head := by
  have hok := h.producer
  cases hp : s.producer <;> rw [hp] at hslot hok <;> cases hslot
  case sawRoom => exact hok.1
  case wrote => exact hok.1

/-- In whatever order the two sides make their accesses, the slot that the consumer is about to
read was written since it was last popped and is not one the producer has yet to publish, and the
frames popped, with the one just read, are the first of those pushed. -/
theorem handoff_is_safe (capacity sampleRate : Nat) (frames : List StereoFrame)
    (turns : List Side) :
    let s := (start capacity sampleRate frames).run turns
    (∀ slot, s.consumer.slot? = some slot → slot ∈ s.fresh ∧ s.producer.slot? ≠ some slot) ∧
      s.popped ++ s.consumer.frame?.toList <+: s.pushed := by
  intro s
  have h : s.Safe := (start_safe capacity sampleRate frames).run turns
  refine ⟨fun slot hslot => ?_, ?_⟩
  · obtain ⟨htail, hmore, hfresh⟩ := h.slot_fresh hslot
    refine ⟨hfresh, fun hsame => h.head_ne_tail hmore ?_⟩
    rw [← h.producer_slot hsame, htail]
  · have hok := h.consumer
    cases hc : s.consumer with
    | read tail f => rw [hc] at hok; exact hok.2
    | _ => simpa [Consumer.frame?] using h.order

end Handheld.Handoff
