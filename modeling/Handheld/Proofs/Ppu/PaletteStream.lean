import Mathlib.Data.List.Induction
import Handheld.Ppu.Palette

/-!
Palette memory written through its data register. Where the index advances, the bytes go to one cell
after another, around the memory; where it does not, all of them go to one. Reads change nothing.
-/

namespace Handheld.PaletteRam

inductive Access where
  | readIndex
  | readData
  | writeData (v : UInt8)

def perform (p : PaletteRam) : Access → Option UInt8 × PaletteRam
  | .readIndex => (some p.index, p)
  | .readData => (some p.readData, p)
  | .writeData v => (none, p.writeData v)

def performAll (p : PaletteRam) (accesses : List Access) : PaletteRam :=
  accesses.foldl (fun p a => (p.perform a).2) p

def Access.written? : Access → Option UInt8
  | .writeData v => some v
  | _ => none

def written (accesses : List Access) : List UInt8 := accesses.filterMap Access.written?

theorem performAll_concat (p : PaletteRam) (accesses : List Access) (a : Access) :
    p.performAll (accesses ++ [a]) = ((p.performAll accesses).perform a).2 :=
  List.foldl_append

theorem written_concat (accesses : List Access) (a : Access) :
    written (accesses ++ [a]) = written accesses ++ a.written?.toList := by
  cases a <;> simp [written, Access.written?]

def indexAt (advancing : Bool) (place : Nat) : UInt8 :=
  (if advancing then 0xC0 else 0x40) ||| UInt8.ofNat place

structure At (p : PaletteRam) (advancing : Bool) (place : Nat) : Prop where
  lt : place < 64
  index : p.index = indexAt advancing place

theorem writeIndex_at (p : PaletteRam) (v : UInt8) :
    (p.writeIndex v).At (v.toNat.testBit 7) (v.toNat % 64) := by
  have hall : ∀ n < 256, (UInt8.ofNat n &&& 0xBF ||| 0x40) = indexAt (n.testBit 7) (n % 64) := by
    decide +kernel
  refine ⟨Nat.mod_lt _ (by decide), ?_⟩
  have hindex := hall v.toNat v.toNat_lt
  rwa [UInt8.ofNat_toNat] at hindex

section
variable {p : PaletteRam} {advancing : Bool} {place : Nat} (h : p.At advancing place)
include h

theorem At.cell : p.cell = place := by
  have hall : ∀ advancing, ∀ place < 64, (indexAt advancing place &&& 0x3F).toNat = place := by
    decide
  rw [PaletteRam.cell, h.index, hall advancing place h.lt]

theorem At.advances : p.advances = advancing := by
  have hall : ∀ advancing, ∀ place < 64, (indexAt advancing place &&& 0x80 != 0) = advancing := by
    decide
  rw [PaletteRam.advances, h.index, hall advancing place h.lt]

theorem At.writeData (v : UInt8) :
    (p.writeData v).At advancing (if advancing then (place + 1) % 64 else place) := by
  have hnext : ∀ place < 64, (0xC0 ||| (indexAt true place + 1 &&& 0x3F)) =
      indexAt true ((place + 1) % 64) := by decide
  have hadvances := h.advances
  cases advancing with
  | false => exact ⟨h.lt, by rw [PaletteRam.writeData, hadvances]; exact h.index⟩
  | true =>
    refine ⟨Nat.mod_lt _ (by decide), ?_⟩
    rw [PaletteRam.writeData, hadvances, if_pos rfl, if_pos rfl, h.index]
    exact hnext place h.lt

theorem At.read_writeData (v : UInt8) (c : Nat) :
    (p.writeData v).data.read c = if place = c then v else p.data.read c := by
  rw [PaletteRam.writeData, h.cell, Memory.read_write]
  simp only [h.lt, and_true]

end

/-- The place of a byte by how many were written before it, when the first goes to `i`. -/
def placeOf (advancing : Bool) (i n : Nat) : Nat := if advancing then (i + n) % 64 else i

theorem placeOf_succ (advancing : Bool) (i n : Nat) : placeOf advancing i (n + 1) =
    if advancing then (placeOf advancing i n + 1) % 64 else placeOf advancing i n := by
  cases advancing with
  | false => rfl
  | true =>
    simp only [placeOf, if_true]
    omega

/-- What a stream of bytes makes of a memory when the first byte goes to `i`. -/
structure Streamed (p : PaletteRam) (advancing : Bool) (i : Nat) (bs : List UInt8)
    (q : PaletteRam) : Prop where
  atEnd : q.At advancing (placeOf advancing i bs.length)
  last : ∀ j (hj : j < bs.length), (∀ k, j < k → k < bs.length →
    placeOf advancing i k ≠ placeOf advancing i j) → q.data.read (placeOf advancing i j) = bs[j]
  untouched : ∀ c, (∀ j < bs.length, placeOf advancing i j ≠ c) → q.data.read c = p.data.read c

section
variable {p q : PaletteRam} {advancing : Bool} {i : Nat} {bs : List UInt8}

theorem Streamed.nil (h : p.At advancing i) : p.Streamed advancing i [] p where
  atEnd := by
    have hzero : placeOf advancing i 0 = i := by
      cases advancing with
      | false => rfl
      | true => exact Nat.mod_eq_of_lt h.lt
    rwa [List.length_nil, hzero]
  last j hj := absurd hj (Nat.not_lt_zero j)
  untouched c _ := rfl

theorem Streamed.concat (h : p.Streamed advancing i bs q) (v : UInt8) :
    p.Streamed advancing i (bs ++ [v]) (q.writeData v) := by
  have hlength : (bs ++ [v]).length = bs.length + 1 := List.length_append
  refine ⟨?_, fun j hj hlast => ?_, fun c hnone => ?_⟩
  · rw [hlength, placeOf_succ]
    exact h.atEnd.writeData v
  · rw [h.atEnd.read_writeData]
    rw [hlength] at hj hlast
    rcases Nat.lt_succ_iff_lt_or_eq.mp hj with hbefore | rfl
    · rw [if_neg (hlast bs.length hbefore (Nat.lt_succ_self _)), List.getElem_append_left hbefore]
      exact h.last j hbefore fun k hjk hk => hlast k hjk (Nat.lt_succ_of_lt hk)
    · rw [if_pos rfl, List.getElem_concat_length rfl]
  · rw [hlength] at hnone
    rw [h.atEnd.read_writeData, if_neg (hnone bs.length (Nat.lt_succ_self _))]
    exact h.untouched c fun j hj => hnone j (Nat.lt_succ_of_lt hj)

end

theorem performAll_streamed {p : PaletteRam} {advancing : Bool} {i : Nat} (h : p.At advancing i)
    (accesses : List Access) :
    p.Streamed advancing i (written accesses) (p.performAll accesses) := by
  induction accesses using List.reverseRecOn with
  | nil => exact .nil h
  | append_singleton accesses a ih =>
    rw [performAll_concat, written_concat]
    cases a with
    | readIndex | readData =>
      change p.Streamed advancing i (written accesses ++ []) (p.performAll accesses)
      rwa [List.append_nil]
    | writeData v => exact ih.concat v

/-- Bytes written through the data register, with reads in between, after a write of the index. If
that has bit 7 set, they go to the cells from its place on, around the memory: each such cell holds
the last byte that came to it, every other what it held, and the index has moved on by as many as
were written. If not, all of them go to one cell, and the index stays. -/
theorem stream_after_index (p : PaletteRam) (v : UInt8) (accesses : List Access) :
    let i := v.toNat % 64
    let bs := written accesses
    let q := (p.writeIndex v).performAll accesses
    (v.toNat.testBit 7 = true →
      (∀ j (hj : j < bs.length),
        (∀ k, j < k → k < bs.length → (i + k) % 64 ≠ (i + j) % 64) →
          q.data.read ((i + j) % 64) = bs[j]) ∧
      (∀ c, (∀ j < bs.length, (i + j) % 64 ≠ c) → q.data.read c = p.data.read c) ∧
      (q.perform .readIndex).1 = some (0xC0 ||| UInt8.ofNat ((i + bs.length) % 64)) ∧
      (q.perform .readData).1 = some (q.data.read ((i + bs.length) % 64))) ∧
    (v.toNat.testBit 7 = false →
      q.data.read i = bs.getLast?.getD (p.data.read i) ∧
      (∀ c ≠ i, q.data.read c = p.data.read c) ∧
      (q.perform .readIndex).1 = some (0x40 ||| UInt8.ofNat i) ∧
      (q.perform .readData).1 = some (q.data.read i)) := by
  intro i bs q
  have hstream : p.Streamed (v.toNat.testBit 7) i bs q := by
    have hrun := performAll_streamed (p.writeIndex_at v) accesses
    exact ⟨hrun.atEnd, hrun.last, hrun.untouched⟩
  have hindex := congrArg some hstream.atEnd.index
  have hdata := congrArg (fun place => some (q.data.read place)) hstream.atEnd.cell
  constructor
  · intro hbit
    rw [hbit] at hstream hindex hdata
    exact ⟨hstream.last, hstream.untouched, hindex, hdata⟩
  · intro hbit
    rw [hbit] at hstream hindex hdata
    refine ⟨?_, fun c hc => hstream.untouched c fun _ _ => hc.symm, hindex, hdata⟩
    rw [List.getLast?_eq_getElem?]
    rcases Nat.eq_zero_or_pos bs.length with hnone | hsome
    · rw [List.getElem?_eq_none (by omega)]
      exact hstream.untouched i fun j hj => absurd hj (by omega)
    · have hj : bs.length - 1 < bs.length := by omega
      rw [List.getElem?_eq_getElem hj]
      exact hstream.last (bs.length - 1) hj fun k hlater hk => absurd hlater (by omega)

/-- Four bytes with reads in between. From the last cell but one the third goes to the first. -/
def wrapping : List Access :=
  [.writeData 0x1F, .readIndex, .writeData 0x00, .writeData 0xAA, .readData, .writeData 0x55]

def wrapped (v : UInt8) : PaletteRam := (({} : PaletteRam).writeIndex v).performAll wrapping

theorem wrapped_streamed :
    (0xBE : UInt8).toNat.testBit 7 = true ∧ (0x3E : UInt8).toNat.testBit 7 = false ∧
      (wrapped 0xBE).data.read 0 = 0xAA ∧ (wrapped 0xBE).data.read 2 = 0xFF ∧
      ((wrapped 0xBE).perform .readIndex).1 = some 0xC2 ∧
      (wrapped 0x3E).data.read 0x3E = 0x55 ∧
      ((wrapped 0x3E).perform .readIndex).1 = some 0x7E := by
  have hadvancing : (0xBE : UInt8).toNat.testBit 7 = true := by decide
  have hstill : (0x3E : UInt8).toNat.testBit 7 = false := by decide
  obtain ⟨hlast, huntouched, hindex, -⟩ := (stream_after_index {} 0xBE wrapping).1 hadvancing
  obtain ⟨hone, -, hsame, -⟩ := (stream_after_index {} 0x3E wrapping).2 hstill
  have hlater : ∀ k, 2 < k → k < 4 → (62 + k) % 64 ≠ 0 := by omega
  have hfirst := hlast 2 (by decide) hlater
  have hthird := huntouched 2 (by decide)
  exact ⟨hadvancing, hstill, hfirst, hthird.trans (Memory.read_filled _ (by decide)), hindex, hone,
    hsame⟩

end Handheld.PaletteRam
