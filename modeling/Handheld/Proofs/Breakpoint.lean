import Mathlib.Algebra.Group.Nat.Defs
import Mathlib.Data.List.Basic
import Mathlib.Order.Bounds.Defs
import Handheld.Breakpoint

/-!
What calls leave of a set of breakpoints, told of each id by itself. The entries are the breakpoints
that are left of the ids given, in the order of these; so the look-up at an instruction boundary
answers as a plain search among all ids would, whatever is kept at hand to avoid it.
-/

namespace Handheld

def Breakpoint.Applies (b : Breakpoint) (pc : UInt16) (r : Registers) : Prop :=
  b.enabled = true ∧ b.address = pc ∧ ∀ holds, b.condition = some holds → holds r = true

theorem Breakpoint.isHit_iff (b : Breakpoint) (pc : UInt16) (r : Registers) :
    b.isHit pc r = true ↔ b.Applies pc r := by
  rw [isHit, Applies, Bool.and_eq_true, Bool.and_eq_true, beq_iff_eq, and_assoc]
  cases b.condition <;> simp

namespace BreakpointSet

inductive Call where
  | add (address : UInt16)
  | addWhen (address : UInt16) (condition : Registers → Bool)
  | setMessage (id : Nat) (message : String)
  | setEnabled (id : Nat) (enabled : Bool)
  | remove (id : Nat)
  | clear
  | setSuspended (suspended : Bool)

inductive Answer where
  | given (id : Nat)
  | found (present : Bool)
  | done
  deriving DecidableEq

def Answer.id? : Answer → Option Nat
  | .given id => some id
  | _ => none

def perform (s : BreakpointSet) : Call → Answer × BreakpointSet
  | .add address => (.given (s.add address).1, (s.add address).2)
  | .addWhen address condition =>
    (.given (s.addWhen address condition).1, (s.addWhen address condition).2)
  | .setMessage id message => (.found (s.setMessage id message).1, (s.setMessage id message).2)
  | .setEnabled id enabled => (.found (s.setEnabled id enabled).1, (s.setEnabled id enabled).2)
  | .remove id => (.found (s.remove id).1, (s.remove id).2)
  | .clear => (.done, s.clear)
  | .setSuspended suspended => (.done, s.setSuspended suspended)

def after : List Call → BreakpointSet
  | [] => {}
  | call :: earlier => ((after earlier).perform call).2

def given : List Call → List Nat
  | [] => []
  | call :: earlier => ((after earlier).perform call).1.id?.toList ++ given earlier

def Call.new? (id : Nat) : Call → Option Breakpoint
  | .add address => some { id, address }
  | .addWhen address condition => some { id, address, condition := some condition }
  | _ => none

def Call.revise : Call → Breakpoint → Option Breakpoint
  | .setMessage id message, b => some (if b.id == id then { b with message := some message } else b)
  | .setEnabled id enabled, b => some (if b.id == id then { b with enabled } else b)
  | .remove id, b => if b.id != id then some b else none
  | .clear, _ => none
  | _, b => some b

def Call.adds (call : Call) : Bool := (call.new? 0).isSome

def added (history : List Call) : Nat := history.countP Call.adds

/-- What some calls leave of an id. The first breakpoint added has the id 1, and each later one the
next. -/
def standing (id : Nat) : List Call → Option Breakpoint
  | [] => none
  | call :: earlier =>
    if id = added earlier + 1 then call.new? id else (standing id earlier).bind call.revise

def suspendedBy : List Call → Bool
  | [] => false
  | .setSuspended suspended :: _ => suspended
  | _ :: earlier => suspendedBy earlier

theorem Call.isSome_new? (call : Call) (id : Nat) : (call.new? id).isSome = call.adds := by
  cases call <;> rfl

theorem new?_id {call : Call} {id : Nat} {b : Breakpoint} (h : call.new? id = some b) :
    b.id = id := by
  cases call <;> cases h <;> rfl

theorem revise_id {call : Call} {b b' : Breakpoint} (h : call.revise b = some b') :
    b'.id = b.id := by
  cases call with
  | setMessage | setEnabled =>
    rw [← Option.some.inj h]
    split <;> rfl
  | remove id =>
    have hkept : Option.guard (·.id != id) b = some b' := h
    rw [(Option.guard_eq_some_iff.mp hkept).1]
  | clear => cases h
  | add | addWhen | setSuspended => rw [Option.some.inj h]

theorem standing_id {id : Nat} {history : List Call} {b : Breakpoint}
    (h : standing id history = some b) : b.id = id := by
  induction history generalizing b with
  | nil => cases h
  | cons call earlier ih =>
    unfold standing at h
    split at h
    · exact new?_id h
    · obtain ⟨b', hb', hrevise⟩ := Option.bind_eq_some_iff.mp h
      exact (revise_id hrevise).trans (ih hb')

theorem added_cons (call : Call) (earlier : List Call) :
    added (call :: earlier) = added earlier + if call.adds then 1 else 0 := List.countP_cons

theorem standing_given {id : Nat} {history : List Call} (h : (standing id history).isSome) :
    1 ≤ id ∧ id ≤ added history := by
  induction history with
  | nil => cases h
  | cons call earlier ih =>
    rw [added_cons]
    unfold standing at h
    split at h
    case isTrue hnew =>
      rw [Call.isSome_new?] at h
      rw [if_pos h]
      omega
    case isFalse hold =>
      have hbefore := ih (Option.isSome_of_isSome_bind h)
      omega

theorem perform_entries (s : BreakpointSet) (call : Call) :
    (s.perform call).2.entries =
      s.entries.filterMap call.revise ++ (call.new? (s.lastId + 1)).toList := by
  cases call with
  | add address =>
    have hkept : (Call.add address).revise = some := rfl
    rw [hkept, List.filterMap_some]
    rfl
  | addWhen address condition =>
    have hkept : (Call.addWhen address condition).revise = some := rfl
    rw [hkept, List.filterMap_some]
    rfl
  | setSuspended suspended =>
    have hkept : (Call.setSuspended suspended).revise = some := rfl
    rw [hkept, List.filterMap_some]
    exact (List.append_nil _).symm
  | setMessage id message =>
    have hmap : (Call.setMessage id message).revise =
        some ∘ fun b => if b.id == id then { b with message := some message } else b := rfl
    rw [hmap, List.filterMap_eq_map]
    exact (List.append_nil _).symm
  | setEnabled id enabled =>
    have hmap : (Call.setEnabled id enabled).revise =
        some ∘ fun b => if b.id == id then { b with enabled } else b := rfl
    rw [hmap, List.filterMap_eq_map]
    exact (List.append_nil _).symm
  | remove id =>
    have hfilter : (Call.remove id).revise = Option.guard (·.id != id) := rfl
    rw [hfilter, List.filterMap_eq_filter]
    exact (List.append_nil _).symm
  | clear =>
    have hnone : Call.clear.revise = fun _ => none := rfl
    rw [hnone]
    simp [perform, clear, Call.new?]

theorem perform_lastId (s : BreakpointSet) (call : Call) :
    (s.perform call).2.lastId = s.lastId + if call.adds then 1 else 0 := by
  cases call <;> rfl

theorem perform_id? (s : BreakpointSet) (call : Call) :
    (s.perform call).1.id? = if call.adds then some (s.lastId + 1) else none := by
  cases call <;> rfl

def Armed (s : BreakpointSet) : Prop := s.armed = s.entries.any (·.enabled)

theorem Armed.perform {s : BreakpointSet} (h : s.Armed) (call : Call) :
    (s.perform call).2.Armed := by
  cases call with
  | add | addWhen | setEnabled | remove | clear => rfl
  | setSuspended => exact h
  | setMessage id message =>
    refine h.trans ?_
    simp only [BreakpointSet.perform, setMessage, update, List.any_map]
    congr 1
    funext b
    simp only [Function.comp_apply]
    split <;> rfl

theorem check_of_armed {s : BreakpointSet} (h : s.Armed) (pc : UInt16) (r : Registers) :
    s.check pc r =
      if s.suspended then none else (s.entries.find? (·.isHit pc r)).map (·.id) := by
  unfold check
  cases hsuspended : s.suspended with
  | true => rfl
  | false =>
    cases harmed : s.armed with
    | true => rfl
    | false =>
      -- The search that is left out would have come to nothing: none is enabled.
      have hnone : s.entries.find? (·.isHit pc r) = none := by
        rw [List.find?_eq_none]
        intro b hb hhit
        have hall : s.entries.any (·.enabled) = false := h.symm.trans harmed
        have hoff := List.any_eq_false.mp hall b hb
        exact hoff ((b.isHit_iff pc r).mp hhit).1
      simp [hnone]

theorem after_lastId (history : List Call) : (after history).lastId = added history := by
  induction history with
  | nil => rfl
  | cons call earlier ih => rw [after, perform_lastId, ih, added_cons]

theorem after_armed (history : List Call) : (after history).Armed := by
  induction history with
  | nil => rfl
  | cons call earlier ih => exact ih.perform call

theorem after_suspended (history : List Call) :
    (after history).suspended = suspendedBy history := by
  induction history with
  | nil => rfl
  | cons call earlier ih => cases call <;> first | exact ih | rfl

theorem after_entries (history : List Call) : (after history).entries =
    (List.range' 1 (added history)).filterMap (standing · history) := by
  induction history with
  | nil => rfl
  | cons call earlier ih =>
    -- No id given before is the one that the call may give, so the call revises what they had.
    have hold : (List.range' 1 (added earlier)).filterMap (standing · (call :: earlier)) =
        ((List.range' 1 (added earlier)).filterMap (standing · earlier)).filterMap call.revise := by
      rw [List.filterMap_filterMap]
      refine List.filterMap_congr fun id hid => ?_
      have hlt := List.mem_range'_1.mp hid
      exact if_neg (by omega)
    have hnew := call.isSome_new? (added earlier + 1)
    rw [after, perform_entries, ih, ← hold, after_lastId, added_cons]
    cases hadds : call.adds with
    | false =>
      rw [hadds, Option.isSome_eq_false_iff, Option.isNone_iff_eq_none] at hnew
      rw [hnew]
      exact List.append_nil _
    | true =>
      rw [hadds] at hnew
      obtain ⟨b, hb⟩ := Option.isSome_iff_exists.mp hnew
      have hlast : standing (1 + added earlier) (call :: earlier) = some b := by
        rw [Nat.add_comm]
        exact (if_pos rfl).trans hb
      rw [if_pos rfl, List.range'_1_concat, List.filterMap_append, hb]
      simp [hlast]

theorem mem_entries {history : List Call} {b : Breakpoint} :
    b ∈ (after history).entries ↔ standing b.id history = some b := by
  rw [after_entries, List.mem_filterMap]
  constructor
  · rintro ⟨id, -, hid⟩
    rwa [standing_id hid]
  · intro hb
    have hgiven := standing_given (Option.isSome_of_eq_some hb)
    exact ⟨b.id, List.mem_range'_1.mpr (by omega), hb⟩

theorem contains_iff (history : List Call) (id : Nat) :
    (after history).contains id = (standing id history).isSome := by
  rw [Bool.eq_iff_iff, contains, List.any_eq_true, Option.isSome_iff_exists]
  constructor
  · rintro ⟨b, hb, hid⟩
    rw [← beq_iff_eq.mp hid]
    exact ⟨b, mem_entries.mp hb⟩
  · rintro ⟨b, hb⟩
    have hid := standing_id hb
    exact ⟨b, mem_entries.mpr (hid ▸ hb), beq_iff_eq.mpr hid⟩

theorem given_eq (history : List Call) :
    given history = (List.range' 1 (added history)).reverse := by
  induction history with
  | nil => rfl
  | cons call earlier ih =>
    rw [given, perform_id?, after_lastId, ih, added_cons]
    cases call.adds with
    | false => rfl
    | true =>
      rw [if_pos rfl, if_pos rfl, List.range'_1_concat, List.reverse_concat, Nat.add_comm 1]
      rfl

theorem check_eq_some_iff (history : List Call) (pc : UInt16) (r : Registers) (id : Nat) :
    (after history).check pc r = some id ↔ suspendedBy history = false ∧
      IsLeast {i | ∃ b, standing i history = some b ∧ b.Applies pc r} id := by
  have hscan : ∀ i, (standing i history).any (·.isHit pc r) = true ↔
      ∃ b, standing i history = some b ∧ b.Applies pc r := fun i => by
    simp [Option.any_eq_true, Breakpoint.isHit_iff]
  have hfound : ((after history).entries.find? (·.isHit pc r)).map (·.id) =
      (List.range' 1 (added history)).find? fun i => (standing i history).any (·.isHit pc r) := by
    rw [after_entries, List.find?_filterMap]
    cases hfind : (List.range' 1 (added history)).find?
        fun i => (standing i history).any (·.isHit pc r) with
    | none => rfl
    | some i =>
      have hit : (standing i history).any (·.isHit pc r) = true := by
        simpa using List.find?_some hfind
      obtain ⟨b, hb, -⟩ := (hscan i).mp hit
      simp [hb, standing_id hb]
  rw [check_of_armed (after_armed history), after_suspended, hfound]
  cases suspendedBy history with
  | true => simp
  | false =>
    rw [if_neg Bool.false_ne_true, List.find?_range'_eq_some, hscan, List.mem_range'_1]
    constructor
    · rintro ⟨happlies, -, hbefore⟩
      refine ⟨rfl, happlies, fun i hi => Nat.le_of_not_lt fun hlt => ?_⟩
      have ⟨b, hb, _⟩ := hi
      have hgiven := standing_given (Option.isSome_of_eq_some hb)
      have hmiss := hbefore i hgiven.1 hlt
      rw [(hscan i).mpr hi] at hmiss
      cases hmiss
    · rintro ⟨-, happlies, hleast⟩
      have ⟨b, hb, _⟩ := happlies
      have hgiven := standing_given (Option.isSome_of_eq_some hb)
      refine ⟨happlies, by omega, fun i _ hlt => ?_⟩
      rw [Bool.not_eq_true', ← Bool.not_eq_true]
      exact fun hit => Nat.not_lt.mpr (hleast ((hscan i).mp hit)) hlt

/-- A set after any calls, as many as its ids can be counted. It looks up the breakpoint first given
among those that are left and apply, unless it is suspended; no id is given twice, and a call that
names an id finds it exactly if it is left. -/
theorem finds_standing_breakpoints (history : List Call) (hfew : history.length < 2 ^ 32) :
    let s := after history
    (∀ pc r id, s.check pc r = some id ↔ suspendedBy history = false ∧
      IsLeast {i | ∃ b, standing i history = some b ∧ b.Applies pc r} id) ∧
    (given history).Pairwise (· > ·) ∧ (∀ id ∈ given history, id < 2 ^ 32) ∧
    (∀ id, (s.perform (.remove id)).1 = .found (standing id history).isSome ∧
      (∀ enabled, (s.perform (.setEnabled id enabled)).1 = .found (standing id history).isSome) ∧
      ∀ message, (s.perform (.setMessage id message)).1 =
        .found (standing id history).isSome) := by
  intro s
  refine ⟨check_eq_some_iff history, ?_, fun id hid => ?_, fun id => ?_⟩
  · rw [given_eq, List.pairwise_reverse]
    exact List.pairwise_lt_range'
  · rw [given_eq, List.mem_reverse, List.mem_range'_1] at hid
    have hle : added history ≤ history.length := List.countP_le_length
    omega
  · rw [← contains_iff]
    exact ⟨rfl, fun _ => rfl, fun _ => rfl⟩

/-- Four breakpoints at one address. The first is disabled, the second stops only while A is 42, and
the third is removed before the fourth is added. -/
def conditionalFirst : List Call :=
  [.setSuspended false, .setSuspended true, .add 0x100, .remove 3, .setEnabled 1 false, .add 0x100,
    .addWhen 0x100 (·.a == 0x42), .add 0x100]

theorem conditionalFirst_found :
    conditionalFirst.length < 2 ^ 32 ∧
      (after conditionalFirst).check 0x100 { a := 0x42 } = some 2 ∧
      IsLeast {i | ∃ b, standing i conditionalFirst = some b ∧ b.Applies 0x100 { a := 0x42 }} 2 ∧
      given conditionalFirst = [4, 3, 2, 1] ∧ [4, 3, 2, 1].Pairwise (· > ·) ∧
      standing 3 conditionalFirst = none ∧
      ((after conditionalFirst).perform (.remove 3)).1 = .found false := by
  have hfew : conditionalFirst.length < 2 ^ 32 := by decide
  have hsecond : (after conditionalFirst).check 0x100 { a := 0x42 } = some 2 := rfl
  obtain ⟨hcheck, hgiven, -, hfound⟩ := finds_standing_breakpoints conditionalFirst hfew
  exact ⟨hfew, hsecond, ((hcheck _ _ _).mp hsecond).2, rfl, hgiven, rfl, (hfound 3).1⟩

end BreakpointSet
end Handheld
