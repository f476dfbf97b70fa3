import Smongo.Lib.Float64

/-!
# The decimal text of a float

`Display` writes the shortest decimal that rounds to the float, without an exponent.  It is read
back as the same float, so that floats with the same text are equal.
-/

namespace Smongo

open List

namespace F64

def digitChar (d : ℕ) : Char := Char.ofNat (48 + d)

/-- The last `w` decimal digits. -/
def padded : ℕ → ℕ → List Char
  | 0, _ => []
  | w + 1, n => padded w (n / 10) ++ [digitChar (n % 10)]

def readDigits (cs : List Char) : ℕ := cs.foldl (fun n c => 10 * n + (c.toNat - 48)) 0

section

variable (w n : ℕ)

lemma length_padded : (padded w n).length = w := by
  induction w generalizing n with
  | zero => rfl
  | succ w ih => simp [padded, ih]

lemma isDigit_of_mem_padded {c : Char} (h : c ∈ padded w n) : c.isDigit = true := by
  have hdigit : ∀ d < 10, (digitChar d).isDigit = true := by decide
  induction w generalizing n with
  | zero => cases h
  | succ w ih =>
    rcases mem_append.mp h with h | h
    · exact ih _ h
    · rw [mem_singleton.mp h]
      exact hdigit _ (Nat.mod_lt _ (by decide))

lemma readDigits_padded : readDigits (padded w n) = n % 10 ^ w := by
  have hdigit : ∀ d < 10, (digitChar d).toNat - 48 = d := by decide
  induction w generalizing n with
  | zero => simp [padded, readDigits, Nat.mod_one]
  | succ w ih =>
    have hmod := Nat.mod_mul (x := n) (a := 10) (b := 10 ^ w)
    unfold readDigits at ih ⊢
    rw [padded, foldl_append, ih, foldl_cons, foldl_nil, hdigit _ (Nat.mod_lt _ (by decide)),
      Nat.pow_succ', hmod]
    omega

end

/-- A decimal with `places` digits behind the point. -/
structure Decimal where
  digits : ℕ
  places : ℕ
deriving DecidableEq

namespace Decimal

variable (d e : Decimal)

def text : List Char :=
  padded (Nat.log 10 (d.digits / 10 ^ d.places) + 1) (d.digits / 10 ^ d.places) ++
    if d.places = 0 then [] else '.' :: padded d.places d.digits

/-- The magnitude of the float nearest to the decimal. -/
def read : ℕ :=
  let num := 2 * d.digits * 2 ^ 1074
  let den := 10 ^ d.places
  -- the last bit says that something was cut off
  min (roundMagnitude (2 * (num / den) + if num % den = 0 then 0 else 1) 2) infMagnitude

lemma text_injective (h : d.text = e.text) : d = e := by
  have hwhole : ∀ n, readDigits (padded (Nat.log 10 n + 1) n) = n := fun n => by
    rw [readDigits_padded, Nat.mod_eq_of_lt (Nat.lt_pow_succ_log_self (by decide) n)]
  have hdot : ∀ w n, ∀ c ∈ padded w n, decide (c ≠ '.') = true := fun w n c hc => by
    have hc := isDigit_of_mem_padded w n hc
    rw [decide_eq_true_iff]
    rintro rfl
    cases hc
  have hsplit : ∀ d : Decimal, d.text.takeWhile (· ≠ '.') = padded
      (Nat.log 10 (d.digits / 10 ^ d.places) + 1) (d.digits / 10 ^ d.places) := fun d => by
    rw [text, takeWhile_append_of_pos (hdot _ _)]
    split_ifs <;> simp
  have hint : padded (Nat.log 10 (d.digits / 10 ^ d.places) + 1) (d.digits / 10 ^ d.places) =
      padded (Nat.log 10 (e.digits / 10 ^ e.places) + 1) (e.digits / 10 ^ e.places) := by
    rw [← hsplit, h, hsplit]
  have hquot := congrArg readDigits hint
  rw [hwhole, hwhole] at hquot
  rw [text, text, hint] at h
  have hfrac := append_cancel_left h
  obtain ⟨n, p⟩ := d
  obtain ⟨m, q⟩ := e
  dsimp only at *
  split_ifs at hfrac with hp hq hq
  · subst hp hq
    simpa using hquot
  · have hfrac := (cons.inj hfrac).2
    obtain rfl : p = q := by simpa [length_padded] using congrArg length hfrac
    have hrem := congrArg readDigits hfrac
    rw [readDigits_padded, readDigits_padded] at hrem
    rw [← Nat.div_add_mod n (10 ^ p), ← Nat.div_add_mod m (10 ^ p), hquot, hrem]

end Decimal

/-- The decimal without zeros at its end. -/
def trimmed : ℕ → ℕ → Decimal
  | n, 0 => ⟨n, 0⟩
  | n, p + 1 => if n % 10 = 0 then trimmed (n / 10) p else ⟨n, p + 1⟩

/-- With `10^(up - down)` as the last place: the decimal below or above the float that rounds to
it, the nearer one if both do. -/
def attempt (x : F64) (up down : ℕ) : Option Decimal :=
  let num := x.units * 10 ^ down
  let den := 2 ^ 1074 * 10 ^ up
  let below := trimmed (num / den * 10 ^ (up - down)) (down - up)
  let above := trimmed ((num / den + 1) * 10 ^ (up - down)) (down - up)
  if below.read = x.magnitude ∧ (above.read = x.magnitude → 2 * (num % den) < den) then some below
  else if above.read = x.magnitude then some above
  else none

/-- The first decimal that rounds to the float, with one digit more at a time; in any case the
exact one does. -/
def shortest (x : F64) : Decimal :=
  let whole := Nat.log 10 (x.units / 2 ^ 1074)
  let zeros := if x.units < 2 ^ 1074 then Nat.clog 10 ((2 ^ 1074 + x.units - 1) / x.units) else 0
  ((List.range 17).findSome? fun n => x.attempt whole (zeros + n)).getD
    ⟨x.units * 5 ^ 1074, 1074⟩

def unsignedChars (x : F64) : List Char := if x.isInf then ['i', 'n', 'f'] else x.shortest.text

def displayChars (x : F64) : List Char :=
  if x.isNaN then ['N', 'a', 'N'] else (if x.isNeg then ['-'] else []) ++ x.unsignedChars

def display (x : F64) : String := String.ofList x.displayChars

-- 0.1, 0.1 + 0.2, 2^53 + 2, 1e21, and the largest float below 0.1 with a minus sign
example : (F64.mk 0x3FB999999999999A#64).display = "0.1" ∧
    (F64.mk 0x3FD3333333333334#64).display = "0.30000000000000004" ∧
    (ofInt (2 ^ 53 + 2)).display = "9007199254740994" ∧
    (ofInt (10 ^ 21)).display = "1000000000000000000000" ∧
    (F64.mk 0xBFB9999999999999#64).display = "-0.09999999999999999" := by
  decide +kernel

variable {x y : F64}

lemma roundMagnitude_four_mul (n : ℕ) : roundMagnitude (2 * (2 * n)) 2 = roundMagnitude n 0 := by
  have hexp : roundExponent (2 * (2 * n)) 2 = roundExponent n 0 := by
    rcases Nat.eq_zero_or_pos n with rfl | hpos
    · rfl
    · rw [roundExponent, roundExponent, Nat.log2_two_mul (by omega), Nat.log2_two_mul (by omega)]
      omega
  have hnearest : ∀ q, nearest (2 * (2 * n)) (2 * (2 * q)) = nearest n q := fun q => by
    unfold nearest
    rw [Nat.mul_div_mul_left _ _ (by decide), Nat.mul_div_mul_left _ _ (by decide),
      Nat.mul_mod_mul_left, Nat.mul_mod_mul_left]
    split <;> split <;> omega
  have hpow : 2 ^ (roundExponent n 0 + 2) = 2 * (2 * 2 ^ roundExponent n 0) := by
    rw [Nat.pow_add]
    omega
  rw [roundMagnitude, hexp, hpow, hnearest, roundMagnitude, Nat.add_zero]

lemma read_shortest (h : x.isNaN = false) : x.shortest.read = x.magnitude := by
  have hattempt : ∀ {up down d}, x.attempt up down = some d → d.read = x.magnitude := by
    intro up down d hd
    unfold attempt at hd
    dsimp only at hd
    split_ifs at hd with hbelow habove
    · cases hd
      exact hbelow.1
    · cases hd
      exact habove
  rw [shortest]
  generalize hfound : findSome? _ _ = found
  cases found with
  | some d =>
    obtain ⟨n, -, hd⟩ := exists_of_findSome?_eq_some hfound
    exact hattempt hd
  | none =>
    have hten : ∀ k, 2 * (x.units * 5 ^ k) * 2 ^ k = 2 * x.units * 10 ^ k := fun k => by
      rw [← Nat.mul_assoc, Nat.mul_assoc (2 * x.units), ← Nat.mul_pow]
    have hle : x.magnitude ≤ infMagnitude := Nat.le_of_not_lt fun hlt => by simp [isNaN, hlt] at h
    rw [Option.getD_none, Decimal.read, hten, Nat.mul_div_cancel _ (Nat.pow_pos (by decide)),
      Nat.mul_mod_left, if_pos rfl, Nat.add_zero, roundMagnitude_four_mul, roundMagnitude_units,
      Nat.min_eq_left hle]

lemma eq_of_magnitude (hsign : x.isNeg = y.isNeg) (h : x.magnitude = y.magnitude) : x = y := by
  obtain ⟨a⟩ := x
  obtain ⟨b⟩ := y
  have ha := a.isLt
  have hb := b.isLt
  simp only [isNeg, magnitude, decide_eq_decide] at hsign h
  congr 1
  apply BitVec.eq_of_toNat_eq
  omega

lemma Decimal.text_eq_cons (d : Decimal) : ∃ c cs, d.text = c :: cs ∧ c.isDigit = true := by
  rw [text]
  generalize d.digits / 10 ^ d.places = n
  cases hpad : padded (Nat.log 10 n + 1) n with
  | nil => simpa [hpad] using length_padded (Nat.log 10 n + 1) n
  | cons c cs => exact ⟨c, _, rfl, isDigit_of_mem_padded _ n (hpad ▸ mem_cons_self)⟩

lemma unsignedChars_eq_cons (x : F64) : ∃ c cs, x.unsignedChars = c :: cs ∧ c ≠ '-' ∧ c ≠ 'N' ∧
    (c = 'i' ↔ x.isInf = true) := by
  rw [unsignedChars]
  split
  · next hinf => exact ⟨'i', _, rfl, by decide, by decide, by simp [hinf]⟩
  · next hfinite =>
    obtain ⟨c, cs, htext, hdigit⟩ := x.shortest.text_eq_cons
    have hne : ∀ c' : Char, c'.isDigit = false → c ≠ c' := by
      rintro c' hc' rfl
      rw [hdigit] at hc'
      cases hc'
    exact ⟨c, cs, htext, hne _ rfl, hne _ rfl, iff_of_false (hne _ rfl) hfinite⟩

lemma magnitude_of_unsignedChars (hx : x.isNaN = false) (hy : y.isNaN = false)
    (h : x.unsignedChars = y.unsignedChars) : x.magnitude = y.magnitude := by
  obtain ⟨c, cs, hchars, -, -, hi⟩ := x.unsignedChars_eq_cons
  obtain ⟨c', cs', hchars', -, -, hi'⟩ := y.unsignedChars_eq_cons
  obtain rfl : c = c' := (cons.inj (hchars.symm.trans (h.trans hchars'))).1
  by_cases hinf : c = 'i'
  · have hx := hi.mp hinf
    have hy := hi'.mp hinf
    rw [isInf, decide_eq_true_iff] at hx hy
    rw [hx, hy]
  · rw [unsignedChars, unsignedChars, if_neg fun hx => hinf (hi.mpr hx),
      if_neg fun hy => hinf (hi'.mpr hy)] at h
    rw [← read_shortest hx, ← read_shortest hy, Decimal.text_injective _ _ h]

/-- Floats have the same text iff they are the same, or none of them is a number. -/
lemma display_eq_iff : x.display = y.display ↔ x = y ∨ (x.isNaN ∧ y.isNaN) := by
  rw [display, display, String.ofList_inj, displayChars, displayChars]
  obtain ⟨c, cs, hx, hminus, hN, -⟩ := x.unsignedChars_eq_cons
  obtain ⟨c', cs', hy, hminus', hN', -⟩ := y.unsignedChars_eq_cons
  constructor
  · intro h
    cases hxn : x.isNaN <;> cases hyn : y.isNaN <;> simp only [hxn, hyn, Bool.false_eq_true,
      if_false, if_true] at h
    · refine .inl ?_
      cases hxs : x.isNeg <;> cases hys : y.isNeg <;> simp only [hxs, hys, Bool.false_eq_true,
        if_false, if_true, nil_append, cons_append, cons.injEq, true_and] at h
      · exact eq_of_magnitude (hxs.trans hys.symm) (magnitude_of_unsignedChars hxn hyn h)
      · exact absurd (cons.inj (hx.symm.trans h)).1 hminus
      · exact absurd (cons.inj (hy.symm.trans h.symm)).1 hminus'
      · exact eq_of_magnitude (hxs.trans hys.symm) (magnitude_of_unsignedChars hxn hyn h)
    · rw [hx] at h
      cases hxs : x.isNeg <;> simp [hxs] at h
      exact absurd h.1 hN
    · rw [hy] at h
      cases hys : y.isNeg <;> simp [hys] at h
      exact absurd h.1.symm hN'
    · exact .inr ⟨rfl, rfl⟩
  · rintro (rfl | ⟨hxn, hyn⟩)
    · rfl
    · rw [if_pos hxn, if_pos hyn]

end F64

end Smongo
