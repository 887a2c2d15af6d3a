/-!
Histories of writes. A write reaches a cell, or none, and which one may depend on the writes before
it, since some of them switch banks. What is then in a cell is what the last write that reached it
left there.
-/

namespace Handheld

structure BusWrite where
  address : UInt16
  value : UInt8
  deriving DecidableEq, Repr

abbrev History := List BusWrite

namespace History
variable {C β : Type} [DecidableEq C]

/-- The value of the last write that reached a cell, when `reach` says what a write reaches that
comes after some others. -/
def lastInto (reach : History → UInt16 → Option C) : History → C → Option UInt8
  | [], _ => none
  | w :: earlier, c =>
    if reach earlier w.address = some c then some w.value else lastInto reach earlier c

def lastAt (history : History) (address : UInt16) : Option UInt8 :=
  history.lastInto (fun _ a => some a) address

theorem lastAt_cons (w : BusWrite) (earlier : History) (address : UInt16) :
    lastAt (w :: earlier) address =
      if w.address = address then some w.value else earlier.lastAt address := by
  simp [lastAt, lastInto]

/-- A cell that each write changes if it reaches it, and not otherwise, holds what the last write to
reach it left. -/
theorem eq_lastInto (reach : History → UInt16 → Option C) (contents : History → β)
    (stored : UInt8 → β) {c : C}
    (hwrite : ∀ w earlier, contents (w :: earlier) =
      if reach earlier w.address = some c then stored w.value else contents earlier)
    (history : History) :
    contents history = ((history.lastInto reach c).map stored).getD (contents []) := by
  induction history with
  | nil => rfl
  | cons w earlier ih =>
    rw [hwrite, lastInto]
    split
    · rfl
    · exact ih

end History
end Handheld
