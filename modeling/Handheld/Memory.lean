/-!
A block of memory of fixed size, addressed by natural numbers. A read outside the block gives 0 and
a write outside it is dropped, so both are total; `read_write` says what a read sees after a write.
-/

namespace Handheld

theorem size_set (a : ByteArray) (i : Nat) (b : UInt8) (h : i < a.size) :
    (a.set i b h).size = a.size := by
  cases a; simp [ByteArray.set, ByteArray.size]

theorem get_set_byte (a : ByteArray) (i j : Nat) (b : UInt8) (hi : i < a.size)
    (hj : j < (a.set i b hi).size) :
    (a.set i b hi).get j hj = if i = j then b else a.get j (size_set a i b hi ▸ hj) := by
  cases a
  exact Array.getElem_set ..

structure Memory (size : Nat) where
  bytes : ByteArray
  size_eq : bytes.size = size

namespace Memory
variable {n : Nat}

@[ext] theorem ext {m m' : Memory n} (h : m.bytes = m'.bytes) : m = m' := by
  cases m; cases m'; simp_all

def filled (n : Nat) (b : UInt8) : Memory n where
  bytes := ⟨Array.replicate n b⟩
  size_eq := by simp [ByteArray.size]

def zeroed (n : Nat) : Memory n := filled n 0

def read (m : Memory n) (i : Nat) : UInt8 :=
  if h : i < n then m.bytes.get i (by rw [m.size_eq]; exact h) else 0

def write (m : Memory n) (i : Nat) (b : UInt8) : Memory n :=
  if h : i < n then
    { bytes := m.bytes.set i b (by rw [m.size_eq]; exact h)
      size_eq := by rw [size_set, m.size_eq] }
  else m

theorem read_filled (b : UInt8) {i : Nat} (h : i < n) : (filled n b).read i = b := by
  rw [read, dif_pos h]
  exact Array.getElem_replicate ..

theorem read_write (m : Memory n) (i j : Nat) (b : UInt8) :
    (m.write i b).read j = if i = j ∧ i < n then b else m.read j := by
  by_cases hi : i < n
  · have hw : m.write i b =
        { bytes := m.bytes.set i b (by rw [m.size_eq]; exact hi)
          size_eq := by rw [size_set, m.size_eq] } := dif_pos hi
    by_cases hj : j < n
    · rw [hw, read, dif_pos hj, get_set_byte, read, dif_pos hj]
      by_cases h : i = j
      · rw [if_pos h, if_pos ⟨h, hi⟩]
      · rw [if_neg h, if_neg fun both => h both.1]
    · have hne : ¬(i = j ∧ i < n) := by omega
      rw [if_neg hne, read, dif_neg hj, read, dif_neg hj]
  · rw [write, dif_neg hi, if_neg fun h => hi h.2]

theorem read_write_self (m : Memory n) {i : Nat} (h : i < n) (b : UInt8) :
    (m.write i b).read i = b := by simp [read_write, h]

theorem read_write_of_ne (m : Memory n) {i j : Nat} (h : i ≠ j) (b : UInt8) :
    (m.write i b).read j = m.read j := by simp [read_write, h]

def slice (m : Memory n) (start count : Nat) : ByteArray := m.bytes.extract start (start + count)

def writeAll (m : Memory n) (start : Nat) : List UInt8 → Memory n
  | [] => m
  | b :: bs => (m.write start b).writeAll (start + 1) bs

/-- The first `n` bytes of `bs`, with zeros after them where `bs` is shorter. -/
def ofBytes (n : Nat) (bs : List UInt8) : Memory n := (zeroed n).writeAll 0 bs

end Memory

def byteAt (image : ByteArray) (i : Nat) (fallback : UInt8) : UInt8 :=
  if h : i < image.size then image.get i h else fallback

end Handheld
