import Mathlib.Data.Nat.Log
import Mathlib.Order.Compare
import Smongo.Lib.ByteStrings

/-!
# Binary64 floating-point numbers

A float is its bit pattern; finite values are exact multiples of `2^-1074`, rounded to even.
-/

namespace Smongo

structure F64 where
  bits : BitVec 64
deriving DecidableEq

namespace F64

/-- The exponent and fraction fields as one number. -/
def magnitude (x : F64) : ℕ := x.bits.toNat % 2 ^ 63

def isNeg (x : F64) : Bool := 2 ^ 63 ≤ x.bits.toNat

def infMagnitude : ℕ := 0x7FF0000000000000

def isNaN (x : F64) : Bool := infMagnitude < x.magnitude

def isInf (x : F64) : Bool := x.magnitude = infMagnitude

def ofMagnitude (neg : Bool) (m : ℕ) : F64 := ⟨BitVec.ofNat 64 (if neg then 2 ^ 63 + m else m)⟩

def nan : F64 := ofMagnitude false 0x7FF8000000000000

def zero : F64 := ofMagnitude false 0

/-- Sign and magnitude as one integer, increasing with the value. -/
def orderKey (x : F64) : ℤ := if x.isNeg then -(x.magnitude : ℤ) else x.magnitude

def partialCmp (x y : F64) : Option Ordering :=
  if x.isNaN || y.isNaN then none else some (compare x.orderKey y.orderKey)

def eq (x y : F64) : Bool := x.partialCmp y = some .eq

def le (x y : F64) : Bool := x.partialCmp y = some .lt || x.partialCmp y = some .eq

variable {x y : F64} {m n : ℕ}

lemma eq_iff : x.eq y = true ↔ x.isNaN = false ∧ y.isNaN = false ∧ x.orderKey = y.orderKey := by
  unfold eq partialCmp
  cases x.isNaN <;> cases y.isNaN <;> simp

lemma le_iff : x.le y = true ↔ x.isNaN = false ∧ y.isNaN = false ∧ x.orderKey ≤ y.orderKey := by
  unfold le partialCmp
  cases x.isNaN <;> cases y.isNaN <;> simp [compare_lt_iff_lt, Int.le_iff_lt_or_eq]

lemma partialCmp_congr (h : x.eq y = true) (z : F64) :
    x.partialCmp z = y.partialCmp z ∧ z.partialCmp x = z.partialCmp y := by
  obtain ⟨hx, hy, hkey⟩ := eq_iff.mp h
  simp only [partialCmp, hx, hy, hkey, and_self]

/-- The absolute value of a finite float, in units of `2^-1074`. -/
def units (x : F64) : ℕ :=
  let exponent := x.magnitude / 2 ^ 52
  let fraction := x.magnitude % 2 ^ 52
  if exponent = 0 then fraction else (2 ^ 52 + fraction) * 2 ^ (exponent - 1)

/-- The float nearest to `n / 2^shift` units, ties to even, overflow to infinity. -/
def round (neg : Bool) (n shift : ℕ) : F64 :=
  let e := n.log2 - shift - 52
  let quantum := 2 ^ (e + shift)
  let q := n / quantum
  let r := n % quantum
  let q' := if quantum < 2 * r ∨ (2 * r = quantum ∧ q % 2 = 1) then q + 1 else q
  ofMagnitude neg (min (e * 2 ^ 52 + q') infMagnitude)

def ofInt (n : ℤ) : F64 := round (n < 0) (n.natAbs * 2 ^ 1074) 0

def signedUnits (x : F64) : ℤ := if x.isNeg then -(x.units : ℤ) else x.units

def add (x y : F64) : F64 :=
  if x.isNaN || y.isNaN then nan
  else if x.isInf then (if y.isInf && x.isNeg != y.isNeg then nan else x)
  else if y.isInf then y
  else
    let sum := x.signedUnits + y.signedUnits
    if sum = 0 then ofMagnitude (x.isNeg && y.isNeg) 0
    else round (sum < 0) sum.natAbs 0

def mul (x y : F64) : F64 :=
  let neg := x.isNeg != y.isNeg
  if x.isNaN || y.isNaN then nan
  else if x.isInf || y.isInf then
    (if x.units = 0 || y.units = 0 then nan else ofMagnitude neg infMagnitude)
  else round neg (x.units * y.units) 1074

def neg (x : F64) : F64 := ofMagnitude (!x.isNeg) x.magnitude

def sub (x y : F64) : F64 := x.add y.neg

/-- The float nearest to a number, given twice the number rounded down and whether that is
exact. -/
def roundHalves (neg : Bool) (halves : ℕ) (exact : Bool) : F64 :=
  round neg (2 * halves + if exact then 0 else 1) 2

def div (x y : F64) : F64 :=
  let neg := x.isNeg != y.isNeg
  if x.isNaN || y.isNaN || (x.isInf && y.isInf) || (x.units = 0 && y.units = 0) then nan
  else if x.isInf || y.units = 0 then ofMagnitude neg infMagnitude
  else if y.isInf then ofMagnitude neg 0
  else
    let num := 2 * x.units * 2 ^ 1074
    roundHalves neg (num / y.units) (num % y.units = 0)

def sqrt (x : F64) : F64 :=
  if x.isNaN || x.units = 0 then x
  else if x.isNeg then nan
  else if x.isInf then x
  else
    let square := 4 * x.units * 2 ^ 1074
    roundHalves false square.sqrt (square.sqrt * square.sqrt = square)

def sum (xs : List F64) : F64 := xs.foldl add zero

/-- Truncation towards zero, saturating at `lo` and `hi`; `nan` goes to zero. -/
def toIntSat (lo hi : ℤ) (x : F64) : ℤ :=
  if x.isNaN then 0
  else
    let n : ℤ := x.units / 2 ^ 1074
    max lo (min hi (if x.isNeg then -n else n))

lemma magnitude_of_eq (h : x.eq y = true) :
    x.magnitude = y.magnitude ∧ (x.isNeg = y.isNeg ∨ y.magnitude = 0) := by
  obtain ⟨-, -, hkey⟩ := eq_iff.mp h
  unfold orderKey at hkey
  cases hx : x.isNeg <;> cases hy : y.isNeg <;>
    simp only [hx, hy, Bool.false_eq_true, if_false, if_true] at hkey
  · exact ⟨by omega, .inl rfl⟩
  · exact ⟨by omega, .inr (by omega)⟩
  · exact ⟨by omega, .inr (by omega)⟩
  · exact ⟨by omega, .inl rfl⟩

lemma units_of_eq (h : x.eq y = true) :
    x.units = y.units ∧ (x.isNeg = y.isNeg ∨ y.units = 0) := by
  obtain ⟨hmagnitude, hsign⟩ := magnitude_of_eq h
  unfold units
  rw [hmagnitude]
  exact ⟨rfl, hsign.imp_right fun hzero => by rw [hzero]; rfl⟩

lemma toIntSat_congr (h : x.eq y = true) (lo hi : ℤ) : x.toIntSat lo hi = y.toIntSat lo hi := by
  obtain ⟨hx, hy, -⟩ := eq_iff.mp h
  obtain ⟨hunits, hsign⟩ := units_of_eq h
  unfold toIntSat
  rw [hx, hy, hunits]
  rcases hsign with hsign | hzero
  · rw [hsign]
  · simp only [hzero, Int.ofNat_zero, Int.zero_ediv, Int.neg_zero, ite_self]

def isIntegral (x : F64) : Bool := !x.isNaN && !x.isInf && x.units % 2 ^ 1074 = 0

def integer (x : F64) : ℤ := x.signedUnits / 2 ^ 1074

def bytes (x : F64) : Bytes := Bytes.bigEndian 8 x.bits.toNat

-- 0.1 + 0.2 = 0.30000000000000004, and 2^53 + 1 is a tie that rounds to even
example : (ofInt 1).add (ofInt 2) = ofInt 3 ∧
    (F64.mk 0x3FB999999999999A#64).add ⟨0x3FC999999999999A#64⟩ = ⟨0x3FD3333333333334#64⟩ ∧
    ofInt (2 ^ 53 + 1) = ofInt (2 ^ 53) ∧
    (F64.mk 0x3FB999999999999A#64).mul (ofInt 3) = ⟨0x3FD3333333333334#64⟩ ∧
    (ofInt 1).div (ofInt 10) = ⟨0x3FB999999999999A#64⟩ ∧
    (ofInt 2).sqrt = ⟨0x3FF6A09E667F3BCD#64⟩ ∧ (ofInt 2).sub (ofInt 5) = ofInt (-3) := by
  decide +kernel

lemma magnitude_ofMagnitude {neg : Bool} (h : m < 2 ^ 63) :
    (ofMagnitude neg m).magnitude = m := by
  rw [magnitude, ofMagnitude, BitVec.toNat_ofNat]
  split <;> omega

lemma isNeg_ofMagnitude {neg : Bool} (h : m < 2 ^ 63) : (ofMagnitude neg m).isNeg = neg := by
  rw [isNeg, ofMagnitude, BitVec.toNat_ofNat]
  cases neg
  · simp only [Bool.false_eq_true, if_false, decide_eq_false_iff_not]
    omega
  · simp only [if_true, decide_eq_true_iff]
    omega

/-- The integer nearest to `n / quantum`, ties to even. -/
def nearest (n quantum : ℕ) : ℕ :=
  if quantum < 2 * (n % quantum) ∨ (2 * (n % quantum) = quantum ∧ n / quantum % 2 = 1) then
    n / quantum + 1
  else n / quantum

lemma nearest_mono {quantum : ℕ} (h : m ≤ n) : nearest m quantum ≤ nearest n quantum := by
  have hdiv : m / quantum ≤ n / quantum := Nat.div_le_div_right h
  have hm := Nat.div_add_mod m quantum
  have hn := Nat.div_add_mod n quantum
  unfold nearest
  rcases hdiv.lt_or_eq with hlt | heq
  · split <;> split <;> omega
  · rw [heq] at hm ⊢
    split <;> split <;> omega

/-- The exponent field that `round` gives to `n / 2^shift`, if it is not zero, less one. -/
def roundExponent (n shift : ℕ) : ℕ := n.log2 - shift - 52

def roundMagnitude (n shift : ℕ) : ℕ :=
  roundExponent n shift * 2 ^ 52 + nearest n (2 ^ (roundExponent n shift + shift))

lemma nearest_le_of_roundExponent (n shift : ℕ) :
    nearest n (2 ^ (roundExponent n shift + shift)) ≤ 2 ^ 53 := by
  have hlt : n < 2 ^ (53 + (roundExponent n shift + shift)) := by
    refine Nat.lt_log2_self.trans_le (Nat.pow_le_pow_right (by omega) ?_)
    rw [roundExponent]
    omega
  have hdiv : n / 2 ^ (roundExponent n shift + shift) < 2 ^ 53 := by
    rw [Nat.div_lt_iff_lt_mul (Nat.two_pow_pos _), ← pow_add]
    exact hlt
  unfold nearest
  split <;> omega

lemma le_nearest_of_roundExponent {shift : ℕ} (h : 0 < roundExponent n shift) :
    2 ^ 52 ≤ nearest n (2 ^ (roundExponent n shift + shift)) := by
  have hn : n ≠ 0 := by
    rintro rfl
    rw [roundExponent, Nat.log2_zero] at h
    omega
  have hle : 2 ^ (52 + (roundExponent n shift + shift)) ≤ n := by
    refine (Nat.pow_le_pow_right (by omega) ?_).trans (Nat.log2_self_le hn)
    rw [roundExponent] at h ⊢
    omega
  have hdiv : 2 ^ 52 ≤ n / 2 ^ (roundExponent n shift + shift) := by
    rw [Nat.le_div_iff_mul_le (Nat.two_pow_pos _), ← pow_add]
    exact hle
  unfold nearest
  split <;> omega

lemma roundMagnitude_mono (shift : ℕ) (h : m ≤ n) :
    roundMagnitude m shift ≤ roundMagnitude n shift := by
  have hlog : m.log2 ≤ n.log2 := by
    rw [Nat.log2_eq_log_two, Nat.log2_eq_log_two]
    exact Nat.log_mono_right h
  have hexp : roundExponent m shift ≤ roundExponent n shift := by
    rw [roundExponent, roundExponent]
    omega
  unfold roundMagnitude
  rcases hexp.lt_or_eq with hlt | heq
  · -- the largest result with one exponent is the smallest with the next
    have hm := nearest_le_of_roundExponent m shift
    have hn := le_nearest_of_roundExponent (Nat.zero_lt_of_lt hlt)
    omega
  · rw [heq]
    exact Nat.add_le_add_left (nearest_mono h) _

def intMagnitude (n : ℤ) : ℕ := min (roundMagnitude (n.natAbs * 2 ^ 1074) 0) infMagnitude

lemma intMagnitude_lt (n : ℤ) : intMagnitude n < 2 ^ 63 :=
  (Nat.min_le_right _ infMagnitude).trans_lt (by decide)

lemma intMagnitude_mono {m n : ℤ} (h : m.natAbs ≤ n.natAbs) : intMagnitude m ≤ intMagnitude n := by
  have hround := roundMagnitude_mono 0 (Nat.mul_le_mul_right (2 ^ 1074) h)
  unfold intMagnitude
  omega

lemma ofInt_eq (n : ℤ) : ofInt n = ofMagnitude (n < 0) (intMagnitude n) := rfl

lemma isNaN_ofInt (n : ℤ) : (ofInt n).isNaN = false := by
  rw [isNaN, ofInt_eq, magnitude_ofMagnitude (intMagnitude_lt n), decide_eq_false_iff_not, not_lt]
  exact Nat.min_le_right _ _

lemma orderKey_ofInt (n : ℤ) :
    (ofInt n).orderKey = if n < 0 then -(intMagnitude n : ℤ) else intMagnitude n := by
  rw [orderKey, ofInt_eq, magnitude_ofMagnitude (intMagnitude_lt n),
    isNeg_ofMagnitude (intMagnitude_lt n)]
  simp only [decide_eq_true_iff]

lemma orderKey_ofInt_mono {m n : ℤ} (h : m ≤ n) : (ofInt m).orderKey ≤ (ofInt n).orderKey := by
  rw [orderKey_ofInt, orderKey_ofInt]
  split
  · next hm =>
    split
    · next hn =>
      have hle : intMagnitude n ≤ intMagnitude m := intMagnitude_mono (by omega)
      omega
    · omega
  · next hm =>
    have hle : intMagnitude m ≤ intMagnitude n := intMagnitude_mono (by omega)
    omega

lemma nearest_of_dvd {quantum : ℕ} (hpos : 0 < quantum) (h : quantum ∣ n) :
    nearest n quantum = n / quantum := by
  rw [nearest, Nat.mod_eq_zero_of_dvd h, if_neg]
  omega

/-- Two multiples of the quantum of the smaller one do not round to the same float. -/
lemma roundMagnitude_lt (h : m < n) (hm : 2 ^ roundExponent m 0 ∣ m)
    (hn : 2 ^ roundExponent m 0 ∣ n) : roundMagnitude m 0 < roundMagnitude n 0 := by
  have hexp : roundExponent m 0 ≤ roundExponent n 0 := by
    have hlog : m.log2 ≤ n.log2 := by
      rw [Nat.log2_eq_log_two, Nat.log2_eq_log_two]
      exact Nat.log_mono_right h.le
    rw [roundExponent, roundExponent]
    omega
  unfold roundMagnitude
  rcases hexp.lt_or_eq with hlt | heq
  · have hsmall : m / 2 ^ roundExponent m 0 < 2 ^ 53 := by
      rw [Nat.div_lt_iff_lt_mul (Nat.two_pow_pos _), ← pow_add]
      refine Nat.lt_log2_self.trans_le (Nat.pow_le_pow_right (by omega) ?_)
      rw [roundExponent]
      omega
    have hlarge := le_nearest_of_roundExponent (Nat.zero_lt_of_lt hlt)
    rw [Nat.add_zero, nearest_of_dvd (Nat.two_pow_pos _) hm]
    omega
  · rw [← heq, Nat.add_zero, nearest_of_dvd (Nat.two_pow_pos _) hm,
      nearest_of_dvd (Nat.two_pow_pos _) hn]
    exact Nat.add_lt_add_left (Nat.div_lt_div_of_lt_of_dvd hn h) _

lemma roundExponent_mul_two_pow_le (hm : m < 2 ^ 53) (k : ℕ) :
    roundExponent (m * 2 ^ k) 0 ≤ k := by
  have hlog : (m * 2 ^ k).log2 < 53 + k := by
    rcases Nat.eq_zero_or_pos m with hzero | hpos
    · rw [hzero, Nat.zero_mul, Nat.log2_zero]
      omega
    · rw [Nat.log2_lt (Nat.mul_ne_zero hpos.ne' (Nat.two_pow_pos k).ne'), pow_add]
      exact Nat.mul_lt_mul_of_pos_right hm (Nat.two_pow_pos k)
  rw [roundExponent]
  omega

lemma roundMagnitude_units (x : F64) : roundMagnitude x.units 0 = x.magnitude := by
  have hmagnitude := Nat.div_add_mod x.magnitude (2 ^ 52)
  have hfraction : x.magnitude % 2 ^ 52 < 2 ^ 52 := Nat.mod_lt _ (by decide)
  rw [units]
  split
  · next hzero =>
    have hexp := roundExponent_mul_two_pow_le (m := x.magnitude % 2 ^ 52) (by omega) 0
    rw [Nat.pow_zero, Nat.mul_one] at hexp
    rw [roundMagnitude, Nat.le_zero.mp hexp, Nat.add_zero, Nat.pow_zero,
      nearest_of_dvd Nat.one_pos (Nat.one_dvd _), Nat.div_one, Nat.zero_mul, Nat.zero_add]
    rwa [hzero, Nat.mul_zero, Nat.zero_add] at hmagnitude
  · generalize x.magnitude / 2 ^ 52 = e at *
    generalize x.magnitude % 2 ^ 52 = f at *
    have hexp : roundExponent ((2 ^ 52 + f) * 2 ^ (e - 1)) 0 = e - 1 := by
      apply le_antisymm (roundExponent_mul_two_pow_le (by omega) _)
      have hlog : 52 + (e - 1) ≤ ((2 ^ 52 + f) * 2 ^ (e - 1)).log2 := by
        rw [Nat.le_log2 (Nat.mul_ne_zero (by omega) (Nat.two_pow_pos _).ne'), pow_add]
        exact Nat.mul_le_mul_right _ (Nat.le_add_right _ _)
      rw [roundExponent]
      omega
    rw [roundMagnitude, hexp, Nat.add_zero, nearest_of_dvd (Nat.two_pow_pos _)
      (Nat.dvd_mul_left _ _), Nat.mul_div_cancel _ (Nat.two_pow_pos _)]
    omega

lemma orderKey_ofInt_of_isIntegral (h : x.isIntegral = true) :
    (ofInt x.integer).orderKey = x.orderKey := by
  simp only [isIntegral, Bool.and_eq_true, Bool.not_eq_true', decide_eq_true_eq] at h
  obtain ⟨⟨hnan, -⟩, hdvd⟩ := h
  obtain ⟨k, hk⟩ := Nat.dvd_of_mod_eq_zero hdvd
  have hmagnitude : ∀ n : ℤ, n.natAbs = k → intMagnitude n = x.magnitude := by
    intro n hn
    rw [intMagnitude, hn, Nat.mul_comm, ← hk, roundMagnitude_units]
    exact min_eq_left (Nat.le_of_not_lt fun hlt => by simp [isNaN, hlt] at hnan)
  have hzero : k = 0 → x.magnitude = 0 := fun h => by
    rw [← roundMagnitude_units, hk, h, Nat.mul_zero]
    rfl
  have hcast : (2 ^ 1074 : ℤ) = ((2 ^ 1074 : ℕ) : ℤ) := by
    rw [Int.natCast_pow]
    rfl
  have hq := Int.natCast_ne_zero.mpr (Nat.two_pow_pos 1074).ne'
  rw [orderKey_ofInt, orderKey, integer, signedUnits, hk, hcast]
  cases x.isNeg with
  | false =>
    rw [if_neg Bool.false_ne_true, if_neg Bool.false_ne_true, Int.natCast_mul,
      Int.mul_ediv_cancel_left _ hq, if_neg (by omega), hmagnitude _ (Int.natAbs_natCast k)]
  | true =>
    rw [if_pos rfl, if_pos rfl, Int.natCast_mul, ← Int.mul_neg, Int.mul_ediv_cancel_left _ hq,
      hmagnitude _ (by omega)]
    split
    · rfl
    · rw [hzero (by omega)]
      rfl

lemma roundMagnitude_mul_two_pow_lt (hm : m < 2 ^ 53) (h : m < n) (k : ℕ) :
    roundMagnitude (m * 2 ^ k) 0 < roundMagnitude (n * 2 ^ k) 0 := by
  have hdvd : ∀ l : ℕ, 2 ^ roundExponent (m * 2 ^ k) 0 ∣ l * 2 ^ k := fun l =>
    Nat.dvd_trans (Nat.pow_dvd_pow 2 (roundExponent_mul_two_pow_le hm k)) (Nat.dvd_mul_left _ _)
  apply roundMagnitude_lt _ (hdvd m) (hdvd n)
  exact Nat.mul_lt_mul_of_pos_right h (Nat.two_pow_pos k)

lemma intMagnitude_lt_of_lt {m n : ℤ} (hm : m.natAbs < 2 ^ 53) (h : m.natAbs < n.natAbs) :
    intMagnitude m < intMagnitude n := by
  have hlt := roundMagnitude_mul_two_pow_lt hm h 1074
  have hfinite : roundMagnitude (m.natAbs * 2 ^ 1074) 0 < infMagnitude := by
    have hexp := roundExponent_mul_two_pow_le hm 1074
    have hnearest := nearest_le_of_roundExponent (m.natAbs * 2 ^ 1074) 0
    rw [roundMagnitude, infMagnitude]
    omega
  unfold intMagnitude
  omega

lemma le_ofInt_iff {b n : ℤ} (hb : b.natAbs < 2 ^ 53) :
    (ofInt b).le (ofInt n) = true ↔ b ≤ n := by
  rw [le_iff, isNaN_ofInt, isNaN_ofInt]
  refine ⟨fun ⟨_, _, hle⟩ => ?_, fun h => ⟨rfl, rfl, orderKey_ofInt_mono h⟩⟩
  by_contra hlt
  have hmono := orderKey_ofInt_mono (show n ≤ b - 1 by omega)
  rw [orderKey_ofInt b] at hle
  rw [orderKey_ofInt (b - 1)] at hmono
  split at hle
  · have := intMagnitude_lt_of_lt hb (n := b - 1) (by omega)
    omega
  · split at hmono
    · have := intMagnitude_lt_of_lt hb (n := b - 1) (by omega)
      omega
    · have := intMagnitude_lt_of_lt (m := b - 1) (n := b) (by omega) (by omega)
      omega

end F64

end Smongo
