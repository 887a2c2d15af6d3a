import Mathlib.Data.Nat.Digits.Defs
import Mathlib.Tactic.LinearCombination
import Handheld.Cpu.Execute

/-!
Arithmetic on numbers wider than a byte. Bytes that are added or subtracted one after another, each
with the carry of the one below it, make the sum or difference of the numbers they are the digits
of, whether the digits are binary or packed decimal. The sums of words are two such bytes.
-/

namespace Handheld

structure Numeral where
  base : Nat
  isDigit : UInt8 → Prop
  value : UInt8 → Nat
  value_lt : ∀ b, isDigit b → value b < base

namespace Numeral

def binary : Numeral where
  base := 256
  isDigit _ := True
  value := UInt8.toNat
  value_lt b _ := b.toNat_lt

def packedDecimal : Numeral where
  base := 100
  isDigit b := b.toNat / 16 < 10 ∧ b.toNat % 16 < 10
  value b := b.toNat / 16 * 10 + b.toNat % 16
  value_lt b h := by omega

variable (k : Numeral)

def number (bytes : List UInt8) : Nat := Nat.ofDigits k.base (bytes.map k.value)

theorem number_cons (b : UInt8) (bytes : List UInt8) :
    k.number (b :: bytes) = k.value b + k.base * k.number bytes := Nat.ofDigits_cons ..

theorem number_lt {bytes : List UInt8} (h : ∀ b ∈ bytes, k.isDigit b) :
    k.number bytes < k.base ^ bytes.length := by
  induction bytes with
  | nil => exact Nat.one_pos
  | cons b rest ih =>
    have hdigit := k.value_lt b (h b (by simp))
    have hrest := ih fun c hc => h c (by simp [hc])
    have hscaled : k.base * (k.number rest + 1) ≤ k.base * k.base ^ rest.length :=
      Nat.mul_le_mul_left _ hrest
    rw [number_cons, List.length_cons, Nat.pow_succ']
    rw [Nat.mul_add_one] at hscaled
    omega

end Numeral

namespace Alu

theorem add_exact (a b : UInt8) (carry : Bool) :
    (add a b carry).1.toNat + 256 * (add a b carry).2.carry.toNat =
      a.toNat + b.toNat + carry.toNat := by
  have ha := a.toNat_lt
  have hb := b.toNat_lt
  have hcarry := carry.toNat_le
  simp only [add, UInt8.toNat_ofNat']
  by_cases hfull : 255 < a.toNat + b.toNat + carry.toNat <;> simp [hfull] <;> omega

theorem sub_exact (a b : UInt8) (borrow : Bool) :
    (sub a b borrow).1.toNat + b.toNat + borrow.toNat =
      a.toNat + 256 * (sub a b borrow).2.carry.toNat := by
  have ha := a.toNat_lt
  have hb := b.toNat_lt
  have hone : borrow.toUInt8.toNat = borrow.toNat := by cases borrow <;> rfl
  have hborrow := borrow.toNat_le
  simp only [sub, UInt8.toNat_sub, hone]
  by_cases hless : a.toNat < b.toNat + borrow.toNat <;> simp [hless] <;> omega

theorem toNat_decide (p : Prop) [Decidable p] : (decide p).toNat = if p then 1 else 0 :=
  apply_ite Bool.toNat p true false

theorem toNat_ite_add (p : Prop) [Decidable p] (a n : UInt8) :
    (if p then a + n else a).toNat = (a.toNat + if p then n.toNat else 0) % 256 := by
  split
  · exact UInt8.toNat_add a n
  · exact (Nat.mod_eq_of_lt a.toNat_lt).symm

theorem toNat_ite_sub (p : Prop) [Decidable p] (a n : UInt8) :
    (if p then a - n else a).toNat = (a.toNat + if p then 256 - n.toNat else 0) % 256 := by
  split
  · rw [UInt8.toNat_sub, Nat.add_comm]
  · exact (Nat.mod_eq_of_lt a.toNat_lt).symm

/-- A decimal adjustment as a sum, with 256 more where it takes something away. -/
theorem decimalAdjust_toNat (a : UInt8) (f : Flags) : (decimalAdjust a f).1.toNat =
    if f.subtract then
      (a.toNat + (if f.carry then 0xA0 else 0) + (if f.half then 0xFA else 0)) % 256
    else
      (a.toNat + (if f.carry ∨ 0x99 < a.toNat then 0x60 else 0) +
        (if f.half ∨ 9 < a.toNat % 16 then 0x06 else 0)) % 256 := by
  have hlow (b : UInt8) : b &&& 0x0F > 0x09 ↔ 9 < b.toNat % 16 := by
    rw [gt_iff_lt, UInt8.lt_iff_toNat_lt, UInt8.toNat_and]
    exact iff_of_eq (congrArg (9 < ·) (Nat.and_two_pow_sub_one_eq_mod b.toNat 4))
  have hhigh : a > 0x99 ↔ 0x99 < a.toNat := UInt8.lt_iff_toNat_lt
  unfold decimalAdjust
  split
  · simp only [toNat_ite_sub, Nat.mod_add_mod]
    rfl
  · -- The upper digit is adjusted first, which leaves the lower one as it is.
    have hkept (p : Prop) [Decidable p] :
        (a.toNat + if p then (0x60 : UInt8).toNat else 0) % 256 % 16 = a.toNat % 16 := by
      rw [Nat.mod_mod_of_dvd _ (by decide)]
      split
      · exact Nat.add_mul_mod_self_right a.toNat 6 16
      · rfl
    simp only [Bool.or_eq_true, decide_eq_true_eq, hlow, hhigh, toNat_ite_add, hkept, Nat.mod_add_mod]
    rfl

theorem decimalAdjust_carry (a : UInt8) (f : Flags) : (decimalAdjust a f).2.carry =
    (f.carry || !f.subtract && decide (0x99 < a.toNat)) := by
  have hhigh : a > 0x99 ↔ 0x99 < a.toNat := UInt8.lt_iff_toNat_lt
  unfold decimalAdjust
  split <;> simp [*]

open Numeral (packedDecimal) in
theorem add_decimal {a b : UInt8} (ha : packedDecimal.isDigit a) (hb : packedDecimal.isDigit b)
    (carry : Bool) :
    let sum := add a b carry
    let adjusted := decimalAdjust sum.1 sum.2
    packedDecimal.isDigit adjusted.1 ∧
      packedDecimal.value adjusted.1 + 100 * adjusted.2.carry.toNat =
        packedDecimal.value a + packedDecimal.value b + carry.toNat := by
  intro sum adjusted
  have hcarry := carry.toNat_le
  have hsum : sum.1.toNat = (a.toNat + b.toNat + carry.toNat) % 256 := UInt8.toNat_ofNat'
  have hresult := decimalAdjust_toNat sum.1 sum.2
  have hout := decimalAdjust_carry sum.1 sum.2
  have hflags : sum.2.subtract = false ∧
      sum.2.half = decide (15 < a.toNat % 16 + b.toNat % 16 + carry.toNat) ∧
      sum.2.carry = decide (255 < a.toNat + b.toNat + carry.toNat) := ⟨rfl, rfl, rfl⟩
  simp only [hflags, hsum, Bool.false_eq_true, if_false, decide_eq_true_eq] at hresult hout
  obtain ⟨hahigh, halow⟩ := ha
  obtain ⟨hbhigh, hblow⟩ := hb
  have hturn : adjusted.2.carry = decide (0x99 < a.toNat + b.toNat + carry.toNat) := by
    rw [hout, Bool.not_false, Bool.true_and, ← Bool.decide_or, decide_eq_decide]
    omega
  simp only [packedDecimal]
  rw [hturn, hresult, toNat_decide]
  clear hturn hresult hout
  split <;> split <;> split <;> omega

open Numeral (packedDecimal) in
theorem sub_decimal {a b : UInt8} (ha : packedDecimal.isDigit a) (hb : packedDecimal.isDigit b)
    (borrow : Bool) :
    let difference := sub a b borrow
    let adjusted := decimalAdjust difference.1 difference.2
    packedDecimal.isDigit adjusted.1 ∧
      packedDecimal.value adjusted.1 + packedDecimal.value b + borrow.toNat =
        packedDecimal.value a + 100 * adjusted.2.carry.toNat := by
  intro difference adjusted
  have hborrow := borrow.toNat_le
  have hdifference : difference.1.toNat + b.toNat + borrow.toNat =
      a.toNat + 256 * if a.toNat < b.toNat + borrow.toNat then 1 else 0 := by
    rw [← toNat_decide]
    exact sub_exact a b borrow
  have hresult := decimalAdjust_toNat difference.1 difference.2
  have hout := decimalAdjust_carry difference.1 difference.2
  have hflags : difference.2.subtract = true ∧
      difference.2.half = decide (a.toNat % 16 < b.toNat % 16 + borrow.toNat) ∧
      difference.2.carry = decide (a.toNat < b.toNat + borrow.toNat) := ⟨rfl, rfl, rfl⟩
  simp only [hflags, if_true, decide_eq_true_eq, Bool.not_true, Bool.false_and, Bool.or_false]
    at hresult hout
  obtain ⟨hahigh, halow⟩ := ha
  obtain ⟨hbhigh, hblow⟩ := hb
  simp only [packedDecimal]
  rw [hout, hresult, toNat_decide]
  clear hresult hout
  split at hdifference <;> simp only [*, if_true, if_false] <;> split <;> omega

end Alu

namespace Registers

theorem flags_setFlags (r : Registers) (f : Flags) : (r.setFlags f).flags = f := f.ofByte_toByte

theorem accumulate_result (r : Registers) (op : AluOp) (v : UInt8) :
    (r.accumulate op v).a = (Alu.accumulate op r.a v r.flags.carry).1 ∧
      (r.accumulate op v).flags = (Alu.accumulate op r.a v r.flags.carry).2 :=
  ⟨rfl, flags_setFlags _ _⟩

theorem decimalAdjust_result (r : Registers) :
    r.decimalAdjust.a = (Alu.decimalAdjust r.a r.flags).1 ∧
      r.decimalAdjust.flags = (Alu.decimalAdjust r.a r.flags).2 := ⟨rfl, flags_setFlags _ _⟩

/-- An operation on numbers of several bytes, the lowest first. Each byte of the first number is
brought into the accumulator, combined with that of the second and adjusted. -/
def chain (op : AluOp) (adjust : Registers → Registers) (r : Registers) :
    List UInt8 → List UInt8 → List UInt8 × Registers
  | x :: xs, y :: ys =>
    let done := adjust (({ r with a := x } : Registers).accumulate op y)
    let (rest, last) := done.chain op adjust xs ys
    (done.a :: rest, last)
  | _, _ => ([], r)

/-- Bytes and registers that an operation on numbers of `n` bytes leaves are those of a total. What
does not fit the bytes is lost, and the carry tells of it. -/
structure Exact (k : Numeral) (n : Nat) (result : List UInt8 × Registers) (total : Int) : Prop where
  length : result.1.length = n
  digits : ∀ b ∈ result.1, k.isDigit b
  number : (k.number result.1 : Int) = total % k.base ^ n
  carry : result.2.flags.carry = decide (total < 0 ∨ k.base ^ n ≤ total)

/-- An operation makes a digit of the sum, or of the difference where the sign is negative, and puts
into the carry what the digit cannot hold. -/
def MakesDigit (k : Numeral) (sign : Int) (op : AluOp) (adjust : Registers → Registers) : Prop :=
  ∀ (r : Registers) (y : UInt8), k.isDigit r.a → k.isDigit y →
    let done := adjust (r.accumulate op y)
    k.isDigit done.a ∧ (k.value done.a : Int) + sign * (k.base * done.flags.carry.toNat) =
      k.value r.a + sign * (k.value y + r.flags.carry.toNat)

theorem adds_binary : MakesDigit .binary 1 .addCarry id := by
  intro r y _ _ done
  obtain ⟨ha, hflags⟩ := r.accumulate_result .addCarry y
  have hexact := Alu.add_exact r.a y r.flags.carry
  refine ⟨trivial, ?_⟩
  simp only [done, id, ha, hflags, Numeral.binary, Alu.accumulate]
  omega

theorem subtracts_binary : MakesDigit .binary (-1) .subCarry id := by
  intro r y _ _ done
  obtain ⟨ha, hflags⟩ := r.accumulate_result .subCarry y
  have hexact := Alu.sub_exact r.a y r.flags.carry
  refine ⟨trivial, ?_⟩
  simp only [done, id, ha, hflags, Numeral.binary, Alu.accumulate]
  omega

theorem adds_decimal : MakesDigit .packedDecimal 1 .addCarry decimalAdjust := by
  intro r y hx hy done
  obtain ⟨ha, hflags⟩ := r.accumulate_result .addCarry y
  obtain ⟨ha', hflags'⟩ := (r.accumulate .addCarry y).decimalAdjust_result
  obtain ⟨hdigit, hexact⟩ := Alu.add_decimal hx hy r.flags.carry
  have hbase : Numeral.packedDecimal.base = 100 := rfl
  simp only [done, ha', hflags', ha, hflags, Alu.accumulate, hbase]
  exact ⟨hdigit, by omega⟩

theorem subtracts_decimal : MakesDigit .packedDecimal (-1) .subCarry decimalAdjust := by
  intro r y hx hy done
  obtain ⟨ha, hflags⟩ := r.accumulate_result .subCarry y
  obtain ⟨ha', hflags'⟩ := (r.accumulate .subCarry y).decimalAdjust_result
  obtain ⟨hdigit, hexact⟩ := Alu.sub_decimal hx hy r.flags.carry
  have hbase : Numeral.packedDecimal.base = 100 := rfl
  simp only [done, ha', hflags', ha, hflags, Alu.accumulate, hbase]
  exact ⟨hdigit, by omega⟩

variable {k : Numeral} {sign : Int} {op : AluOp} {adjust : Registers → Registers}

theorem MakesDigit.chain (h : MakesDigit k sign op adjust) (r : Registers) {xs ys : List UInt8}
    (hlength : ys.length = xs.length) (hx : ∀ b ∈ xs, k.isDigit b) (hy : ∀ b ∈ ys, k.isDigit b) :
    let result := r.chain op adjust xs ys
    result.1.length = xs.length ∧ (∀ b ∈ result.1, k.isDigit b) ∧
      (k.number result.1 : Int) + sign * (k.base ^ xs.length * result.2.flags.carry.toNat) =
        k.number xs + sign * (k.number ys + r.flags.carry.toNat) := by
  induction xs generalizing r ys with
  | nil =>
    obtain rfl := List.length_eq_zero_iff.mp hlength
    simp [Registers.chain, Numeral.number]
  | cons x xs ih =>
    obtain ⟨y, ys, rfl⟩ := List.exists_cons_of_length_eq_add_one hlength
    rw [List.forall_mem_cons] at hx hy
    obtain ⟨hdigit, hexact⟩ := h { r with a := x } y hx.1 hy.1
    let done := adjust (({ r with a := x } : Registers).accumulate op y)
    obtain ⟨hlen, hdigits, hrest⟩ := ih done (Nat.succ.inj hlength) hx.2 hy.2
    refine ⟨congrArg (· + 1) hlen, List.forall_mem_cons.mpr ⟨hdigit, hdigits⟩, ?_⟩
    have hresult : r.chain op adjust (x :: xs) (y :: ys) =
        (done.a :: (done.chain op adjust xs ys).1, (done.chain op adjust xs ys).2) := rfl
    simp only [hresult, Numeral.number_cons, List.length_cons, pow_succ']
    push_cast
    change (k.value done.a : Int) + sign * (k.base * done.flags.carry.toNat) =
      k.value x + sign * (k.value y + r.flags.carry.toNat) at hexact
    linear_combination hexact + k.base * hrest

/-- With nothing carried in, the whole chain computes what each digit does. -/
theorem MakesDigit.exact (h : MakesDigit k sign op adjust) (hsign : sign = 1 ∨ sign = -1)
    {r : Registers} (hclear : r.flags.carry = false) {n : Nat} {xs ys : List UInt8}
    (hxs : xs.length = n) (hys : ys.length = n) (hx : ∀ b ∈ xs, k.isDigit b)
    (hy : ∀ b ∈ ys, k.isDigit b) {total : Int}
    (htotal : total = k.number xs + sign * k.number ys) :
    Exact k n (r.chain op adjust xs ys) total := by
  obtain ⟨hlength, hdigits, hnumber⟩ := h.chain r (hys.trans hxs.symm) hx hy
  generalize r.chain op adjust xs ys = result at hlength hdigits hnumber
  have hlt := k.number_lt hdigits
  rw [hlength, hxs] at hlt
  rw [hxs, hclear, Bool.toNat_false, Nat.cast_zero, add_zero, ← htotal] at hnumber
  have hlt' : (k.number result.1 : Int) < k.base ^ n := by exact_mod_cast hlt
  refine ⟨hlength.trans hxs, hdigits, ?_, ?_⟩
  · rw [← hnumber, ← mul_assoc, mul_comm sign, mul_assoc, Int.add_mul_emod_self_left]
    exact (Int.emod_eq_of_lt (by omega) hlt').symm
  · rw [← hnumber]
    rcases hsign with rfl | rfl <;> cases result.2.flags.carry <;> simp <;> omega

open Numeral (binary packedDecimal) in
/-- Numbers of any length, added or subtracted a byte at a time from the low end. Without adjustment
the bytes are binary; with it packed decimal numbers give packed decimal ones. -/
theorem chain_exact {r : Registers} (hclear : r.flags.carry = false) {n : Nat}
    {xs ys : List UInt8} (hxs : xs.length = n) (hys : ys.length = n) :
    Exact binary n (r.chain .addCarry id xs ys) (binary.number xs + binary.number ys) ∧
    Exact binary n (r.chain .subCarry id xs ys) (binary.number xs - binary.number ys) ∧
    ((∀ b ∈ xs ++ ys, packedDecimal.isDigit b) →
      Exact packedDecimal n (r.chain .addCarry decimalAdjust xs ys)
        (packedDecimal.number xs + packedDecimal.number ys) ∧
      Exact packedDecimal n (r.chain .subCarry decimalAdjust xs ys)
        (packedDecimal.number xs - packedDecimal.number ys)) := by
  have hany : ∀ bytes : List UInt8, ∀ b ∈ bytes, binary.isDigit b := fun _ _ _ => trivial
  refine ⟨adds_binary.exact (.inl rfl) hclear hxs hys (hany xs) (hany ys) (by ring),
    subtracts_binary.exact (.inr rfl) hclear hxs hys (hany xs) (hany ys) (by ring), ?_⟩
  intro hdigits
  obtain ⟨hx, hy⟩ := List.forall_mem_append.mp hdigits
  exact ⟨adds_decimal.exact (.inl rfl) hclear hxs hys hx hy (by ring),
    subtracts_decimal.exact (.inr rfl) hclear hxs hys hx hy (by ring)⟩

theorem chained_decimals :
    let xs := [0x99, 0x12]
    let ys := [0x02, 0x87]
    let sum := ({} : Registers).chain .addCarry decimalAdjust xs ys
    let difference := ({} : Registers).chain .subCarry decimalAdjust xs ys
    Numeral.packedDecimal.number sum.1 = 1 ∧ sum.2.flags.carry = true ∧
      Numeral.packedDecimal.number difference.1 = 2597 ∧ difference.2.flags.carry = true := by
  intro xs ys sum difference
  have hx : Numeral.packedDecimal.number xs = 1299 := by decide
  have hy : Numeral.packedDecimal.number ys = 8702 := by decide
  have hdigits : ∀ b ∈ xs ++ ys, Numeral.packedDecimal.isDigit b := by
    simp [xs, ys, Numeral.packedDecimal]
  obtain ⟨-, -, hdecimal⟩ := @chain_exact {} rfl 2 xs ys rfl rfl
  obtain ⟨hsum, hdifference⟩ := hdecimal hdigits
  rw [hx, hy] at hsum hdifference
  have hone : (Numeral.packedDecimal.number sum.1 : Int) = 1 := hsum.number
  have hwrapped : (Numeral.packedDecimal.number difference.1 : Int) = 2597 := hdifference.number
  exact ⟨by exact_mod_cast hone, hsum.carry, by exact_mod_cast hwrapped, hdifference.carry⟩

end Registers

theorem toNat_lowByte (w : UInt16) : (lowByte w).toNat = w.toNat % 256 := UInt16.toNat_toUInt8 w

theorem toNat_highByte (w : UInt16) : (highByte w).toNat = w.toNat / 256 := by
  have hlt := w.toNat_lt
  have hshift : (w >>> 8).toNat = w.toNat >>> 8 := rfl
  rw [highByte, UInt16.toNat_toUInt8, hshift, Nat.shiftRight_eq_div_pow]
  omega

theorem toNat_word (high low : UInt8) :
    (word high low).toNat = 256 * high.toNat + low.toNat := by
  have hhigh := high.toNat_lt
  have hshift : (high.toUInt16 <<< 8).toNat = 2 ^ 8 * high.toNat := by
    simp [Nat.shiftLeft_eq]
    omega
  rw [word, UInt16.toNat_or, hshift, UInt8.toNat_toUInt16]
  exact (Nat.two_pow_add_eq_or_of_lt low.toNat_lt high.toNat).symm

namespace Alu

/-- The sum of two words from the sums of their bytes, the high ones with the carry of the low ones,
and the flags of the low and of the high sum. -/
def addBytes (a b : UInt16) : UInt16 × Flags × Flags :=
  let (low, lowFlags) := add (lowByte a) (lowByte b) false
  let (high, highFlags) := add (highByte a) (highByte b) lowFlags.carry
  (word high low, lowFlags, highFlags)

def signByte (offset : UInt8) : UInt8 := if offset.toInt8 < 0 then 0xFF else 0x00

theorem addBytes_word (a b : UInt16) : (addBytes a b).1 = a + b := by
  have hlow := add_exact (lowByte a) (lowByte b) false
  have hhigh := add_exact (highByte a) (highByte b) (add (lowByte a) (lowByte b) false).2.carry
  have hword : (addBytes a b).1 = word
      (add (highByte a) (highByte b) (add (lowByte a) (lowByte b) false).2.carry).1
      (add (lowByte a) (lowByte b) false).1 := rfl
  rw [hword, ← UInt16.toNat_inj, toNat_word, UInt16.toNat_add]
  simp only [toNat_lowByte, toNat_highByte, Bool.toNat_false] at hlow hhigh
  have hres := (add (highByte a) (highByte b) (add (lowByte a) (lowByte b) false).2.carry).1.toNat_lt
  have hres' := (add (lowByte a) (lowByte b) false).1.toNat_lt
  omega

theorem addBytes_flags (a b : UInt16) :
    (addBytes a b).2.1.half = decide (15 < a.toNat % 16 + b.toNat % 16) ∧
    (addBytes a b).2.1.carry = decide (255 < a.toNat % 256 + b.toNat % 256) ∧
    (addBytes a b).2.2.half = decide (0x0FFF < a.toNat % 0x1000 + b.toNat % 0x1000) ∧
    (addBytes a b).2.2.carry = decide (0xFFFF < a.toNat + b.toNat) := by
  have hcarry : (addBytes a b).2.1.carry = decide (255 < a.toNat % 256 + b.toNat % 256) := by
    rw [← toNat_lowByte, ← toNat_lowByte]
    rfl
  have hin : (addBytes a b).2.1.carry.toNat = 1 ∧ 255 < a.toNat % 256 + b.toNat % 256 ∨
      (addBytes a b).2.1.carry.toNat = 0 ∧ ¬255 < a.toNat % 256 + b.toNat % 256 := by
    rw [hcarry]
    by_cases hover : 255 < a.toNat % 256 + b.toNat % 256
    · exact .inl ⟨by rw [decide_eq_true hover]; rfl, hover⟩
    · exact .inr ⟨by rw [decide_eq_false hover]; rfl, hover⟩
  have hlow : (addBytes a b).2.1.half =
      decide (15 < (lowByte a).toNat % 16 + (lowByte b).toNat % 16) := rfl
  have hhalf : (addBytes a b).2.2.half = decide (15 < (highByte a).toNat % 16 +
      (highByte b).toNat % 16 + (addBytes a b).2.1.carry.toNat) := rfl
  have hhigh : (addBytes a b).2.2.carry = decide (255 < (highByte a).toNat +
      (highByte b).toNat + (addBytes a b).2.1.carry.toNat) := rfl
  refine ⟨?_, hcarry, ?_, ?_⟩
  · rw [hlow, toNat_lowByte, toNat_lowByte, decide_eq_decide]
    omega
  · rw [hhalf, toNat_highByte, toNat_highByte, decide_eq_decide]
    omega
  · rw [hhigh, toNat_highByte, toNat_highByte, decide_eq_decide]
    omega

theorem toInt_toInt8 (b : UInt8) :
    b.toInt8.toInt = if b.toNat < 0x80 then (b.toNat : Int) else b.toNat - 0x100 := by
  have hbits : b.toInt8.toInt = b.toBitVec.toInt := rfl
  have hnat : b.toBitVec.toNat = b.toNat := rfl
  rw [hbits, BitVec.toInt_eq_toNat_cond, hnat]
  split <;> split <;> omega

theorem toNat_signByte (b : UInt8) :
    (signByte b).toNat = if b.toNat < 0x80 then 0x00 else 0xFF := by
  have hsign : b.toInt8 < 0 ↔ ¬b.toNat < 0x80 := by
    have hlt := b.toNat_lt
    have hzero : (0 : Int8).toInt = 0 := rfl
    rw [Int8.lt_iff_toInt_lt, toInt_toInt8, hzero]
    split <;> omega
  rw [signByte, apply_ite UInt8.toNat, if_congr hsign rfl rfl, ite_not]
  rfl

theorem signExtend_eq (b : UInt8) : signExtend b = word (signByte b) b := by
  have hlimit : b < 0x80 ↔ b.toNat < 0x80 := UInt8.lt_iff_toNat_lt
  have hsign := toNat_signByte b
  by_cases hpositive : b.toNat < 0x80
  · rw [if_pos hpositive] at hsign
    rw [signExtend, if_pos (hlimit.mpr hpositive), ← UInt16.toNat_inj, toNat_word, hsign]
    exact (Nat.zero_add b.toNat).symm
  · rw [if_neg hpositive] at hsign
    have hones : signByte b = 0xFF := UInt8.toNat_inj.mp hsign
    rw [signExtend, if_neg (mt hlimit.mp hpositive), hones]
    rfl

theorem toNat_add_signExtend (w : UInt16) (b : UInt8) :
    ((w + signExtend b).toNat : Int) = (w.toNat + b.toInt8.toInt) % 2 ^ 16 := by
  have hlt := w.toNat_lt
  have hb := b.toNat_lt
  rw [signExtend_eq, UInt16.toNat_add, toNat_word, toNat_signByte, toInt_toInt8]
  split <;> omega

theorem addWords_eq (a b : UInt16) (zero : Bool) :
    let sum := addBytes a b
    addWords a b zero = (sum.1, ⟨zero, false, sum.2.2.half, sum.2.2.carry⟩) := by
  obtain ⟨-, -, hhalf, hcarry⟩ := addBytes_flags a b
  intro sum
  rw [addWords, ← addBytes_word, ← hhalf, ← hcarry]

theorem addSigned_eq (w : UInt16) (offset : UInt8) :
    let sum := addBytes w (word (signByte offset) offset)
    addSigned w offset = (sum.1, ⟨false, false, sum.2.1.half, sum.2.1.carry⟩) := by
  obtain ⟨hhalf, hcarry, -, -⟩ := addBytes_flags w (word (signByte offset) offset)
  have hlt := offset.toNat_lt
  have hdigit : (word (signByte offset) offset).toNat % 16 = offset.toNat % 16 := by
    rw [toNat_word]
    omega
  have hbyte : (word (signByte offset) offset).toNat % 256 = offset.toNat := by
    rw [toNat_word]
    omega
  intro sum
  rw [addSigned, signExtend_eq, ← addBytes_word, ← hdigit, ← hbyte, ← hhalf, ← hcarry]

/-- Sums of words carry as the sums of their bytes do: that of two words as the upper byte does, and
that of a word and a signed byte as the lower one, with the bits of the sign above it. -/
theorem word_sums_of_bytes (r : Registers) (a b : UInt16) (offset : UInt8) :
    (let sum := addBytes a b
     addWords a b r.flags.zero = (sum.1, ⟨r.flags.zero, false, sum.2.2.half, sum.2.2.carry⟩)) ∧
    (let sum := addBytes a (word (signByte offset) offset)
     addSigned a offset = (sum.1, ⟨false, false, sum.2.1.half, sum.2.1.carry⟩)) ∧
    ((addSigned a offset).1.toNat : Int) = (a.toNat + offset.toInt8.toInt) % 2 ^ 16 ∧
    ∀ i : Instruction,
      (∀ p : Pair, Core.registersAfter r { i with operation := .addPair p } =
        let sum := addBytes r.hl (r.pair p)
        (r.setFlags ⟨r.flags.zero, false, sum.2.2.half, sum.2.2.carry⟩).setHL sum.1) ∧
      let sum := addBytes r.sp (word (signByte i.first) i.first)
      let left := r.setFlags ⟨false, false, sum.2.1.half, sum.2.1.carry⟩
      Core.registersAfter r { i with operation := .addSP } = { left with sp := sum.1 } ∧
      Core.registersAfter r { i with operation := .loadHLSum } = left.setHL sum.1 := by
  refine ⟨addWords_eq a b _, addSigned_eq a offset, toNat_add_signExtend a offset, fun i => ?_⟩
  refine ⟨fun p => ?_, ?_, ?_⟩
  · simp only [Core.registersAfter, addWords_eq]
  · simp only [Core.registersAfter, addSigned_eq]
  · simp only [Core.registersAfter, addSigned_eq]

end Alu

end Handheld
