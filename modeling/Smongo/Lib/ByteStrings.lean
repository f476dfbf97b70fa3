import Mathlib.Algebra.Group.Int.Defs
import Mathlib.Algebra.Group.Nat.Defs
import Mathlib.Data.List.Lex
import Mathlib.Data.List.Infix
import Mathlib.Tactic.Common

/-!
# Byte strings

Byte strings are lists of bytes in lexicographic order.
-/

namespace Smongo

open List

instance linearOrderByte : LinearOrder UInt8 where
  le_refl := UInt8.le_refl
  le_trans _ _ _ := UInt8.le_trans
  lt_iff_le_not_ge a b := by
    simp only [UInt8.lt_iff_toNat_lt, UInt8.le_iff_toNat_le]
    omega
  le_antisymm _ _ := UInt8.le_antisymm
  le_total := UInt8.le_total
  toDecidableLE := inferInstance
  toDecidableLT := inferInstance
  toDecidableEq := inferInstance

abbrev Bytes := List UInt8

namespace Bytes

def cmp (a b : Bytes) : Ordering := if a < b then .lt else if a = b then .eq else .gt

lemma cmp_eq_lt {a b : Bytes} : cmp a b = .lt ↔ a < b := by
  unfold cmp
  split_ifs with h h'
  · simp [h]
  · simp [h]
  · simp [h]

lemma cmp_eq_eq {a b : Bytes} : cmp a b = .eq ↔ a = b := by
  unfold cmp
  split_ifs with h h'
  · simpa using ne_of_lt (α := Bytes) h
  · simp [h']
  · simp [h']

lemma cmp_eq_gt {a b : Bytes} : cmp a b = .gt ↔ b < a := by
  unfold cmp
  split_ifs with h h'
  · exact iff_of_false (by simp) (lt_asymm (α := Bytes) h)
  · exact iff_of_false (by simp) (h' ▸ lt_irrefl (α := Bytes) b)
  · simpa using lt_of_le_of_ne (α := Bytes) (not_lt.mp h) (Ne.symm h')

lemma prefix_of_between {p k k' : Bytes} (hpk : ¬ k < p) (hkk' : ¬ k' < k)
    (hp : p <+: k') : p <+: k := by
  induction p generalizing k k' with
  | nil => exact nil_prefix
  | cons a p ih =>
    obtain ⟨t, rfl⟩ := hp
    cases k with
    | nil => exact absurd (nil_lt_cons a p) hpk
    | cons b k =>
      simp only [cons_append, cons_lt_cons_iff, not_or, not_and] at hpk hkk'
      obtain rfl : a = b := le_antisymm (not_lt.mp hpk.1) (not_lt.mp hkk'.1)
      rw [cons_prefix_cons]
      exact ⟨rfl, ih (hpk.2 rfl) (hkk'.2 rfl) (prefix_append p t)⟩

lemma not_lt_of_prefix {p k : Bytes} (hp : p <+: k) : ¬ k < p := by
  induction p generalizing k with
  | nil => exact not_lt_nil k
  | cons a p ih =>
    obtain ⟨t, rfl⟩ := hp
    simp only [cons_append, cons_lt_cons_iff, not_or, not_and]
    exact ⟨lt_irrefl a, fun _ => ih (prefix_append p t)⟩

def bigEndian : ℕ → ℕ → Bytes
  | 0, _ => []
  | w + 1, n => UInt8.ofNat (n / 256 ^ w) :: bigEndian w n

@[simp] lemma length_bigEndian (w n : ℕ) : (bigEndian w n).length = w := by
  induction w with
  | zero => rfl
  | succ w ih => simp [bigEndian, ih]

variable (b : Bytes)

def ofBigEndian : ℕ := b.foldl (fun n byte => n * 256 + byte.toNat) 0

lemma ofBigEndian_concat (byte : UInt8) :
    ofBigEndian (b ++ [byte]) = ofBigEndian b * 256 + byte.toNat := by
  simp [ofBigEndian]

lemma ofBigEndian_cons (byte : UInt8) :
    ofBigEndian (byte :: b) = byte.toNat * 256 ^ b.length + ofBigEndian b := by
  induction b using reverseRecOn with
  | nil => simp [ofBigEndian]
  | append_singleton b last ih =>
    rw [← cons_append, ofBigEndian_concat, ofBigEndian_concat, ih, length_append,
      length_singleton, pow_succ, Nat.add_mul, Nat.mul_assoc, Nat.add_assoc]

lemma ofBigEndian_lt : ofBigEndian b < 256 ^ b.length := by
  induction b using reverseRecOn with
  | nil => simp [ofBigEndian]
  | append_singleton b byte ih =>
    have hbyte : byte.toNat < 256 := byte.toNat_lt
    rw [ofBigEndian_concat, length_append, length_singleton, pow_succ]
    omega

lemma ofBigEndian_bigEndian (w n : ℕ) : ofBigEndian (bigEndian w n) = n % 256 ^ w := by
  induction w with
  | zero => simp [bigEndian, ofBigEndian, Nat.mod_one]
  | succ w ih =>
    rw [bigEndian, ofBigEndian_cons, length_bigEndian, ih, Nat.mod_pow_succ, UInt8.toNat_ofNat',
      Nat.add_comm, Nat.mul_comm]

lemma lt_of_ofBigEndian_take_lt {n : ℕ} {a b : Bytes} (ha : n ≤ a.length) (hb : n ≤ b.length)
    (h : ofBigEndian (a.take n) < ofBigEndian (b.take n)) : a < b := by
  induction n generalizing a b with
  | zero => simp [ofBigEndian] at h
  | succ n ih =>
    obtain ⟨x, a, rfl⟩ := exists_cons_of_length_pos (by omega : 0 < a.length)
    obtain ⟨y, b, rfl⟩ := exists_cons_of_length_pos (by omega : 0 < b.length)
    rw [length_cons] at ha hb
    have hlenA : (a.take n).length = n := by simp; omega
    have hlenB : (b.take n).length = n := by simp; omega
    rw [take_succ_cons, take_succ_cons, ofBigEndian_cons, ofBigEndian_cons, hlenA, hlenB] at h
    rw [cons_lt_cons_iff]
    rcases lt_trichotomy x y with hxy | rfl | hxy
    · exact .inl hxy
    · exact .inr ⟨rfl, ih (by omega) (by omega) (by omega)⟩
    · -- a greater first byte makes the greater number
      have hB := ofBigEndian_lt (b.take n)
      rw [hlenB] at hB
      have hstep : (y.toNat + 1) * 256 ^ n ≤ x.toNat * 256 ^ n :=
        Nat.mul_le_mul_right _ (UInt8.lt_iff_toNat_lt.mp hxy)
      rw [Nat.add_mul, Nat.one_mul] at hstep
      omega

def utf8 (s : String) : Bytes := s.toByteArray.data.toList

def ofUtf8 : Option String := String.fromUTF8? ⟨b.toArray⟩

@[simp] lemma ofUtf8_utf8 (s : String) : ofUtf8 (utf8 s) = some s := by
  have hs : (⟨s.toByteArray.data⟩ : ByteArray).IsValidUTF8 := s.isValidUTF8
  simp [ofUtf8, utf8, String.fromUTF8?, String.fromUTF8, hs]

lemma utf8_injective : Function.Injective utf8 := by
  intro s t h
  simpa using congrArg ofUtf8 h

lemma utf8_eq_flatMap (s : String) : utf8 s = s.toList.flatMap String.utf8EncodeChar := by
  rw [utf8, ← String.utf8Encode_toList]
  simp [utf8Encode]

def hexDigit (n : ℕ) : Char := if n < 10 then Char.ofNat (48 + n) else Char.ofNat (87 + n)

def hex : String :=
  String.ofList (b.flatMap fun x => [hexDigit (x.toNat / 16), hexDigit (x.toNat % 16)])

lemma hexDigit_injOn {m n : ℕ} (hm : m < 16) (hn : n < 16) (h : hexDigit m = hexDigit n) :
    m = n := by
  have key : ∀ i : Fin 16, ∀ j : Fin 16, hexDigit i = hexDigit j → i = j := by decide
  exact congrArg Fin.val (key ⟨m, hm⟩ ⟨n, hn⟩ h)

lemma utf8Size_hexDigit {n : ℕ} (hn : n < 16) : (hexDigit n).utf8Size = 1 := by
  have key : ∀ i : Fin 16, (hexDigit i).utf8Size = 1 := by decide
  exact key ⟨n, hn⟩

lemma hex_injective : Function.Injective hex := by
  intro a b h
  rw [hex, hex, String.ofList_inj] at h
  induction a generalizing b with
  | nil =>
    cases b with
    | nil => rfl
    | cons y b => simp at h
  | cons x a ih =>
    cases b with
    | nil => simp at h
    | cons y b =>
      simp only [flatMap_cons, cons_append, nil_append, cons.injEq] at h
      obtain ⟨hhigh, hlow, htail⟩ := h
      have hx := x.toNat_lt
      have hy := y.toNat_lt
      have hdiv := hexDigit_injOn (by omega) (by omega) hhigh
      have hmod := hexDigit_injOn (by omega) (by omega) hlow
      have hxy : x = y := UInt8.toNat_inj.mp (by omega)
      rw [hxy, ih htail]

lemma length_utf8_hex : (utf8 (hex b)).length = 2 * b.length := by
  rw [utf8_eq_flatMap, hex, String.toList_ofList]
  induction b with
  | nil => rfl
  | cons x b ih =>
    have hx := x.toNat_lt
    simp only [flatMap_cons, cons_append, nil_append, length_append,
      String.length_utf8EncodeChar, length_cons,
      utf8Size_hexDigit (n := x.toNat / 16) (by omega),
      utf8Size_hexDigit (n := x.toNat % 16) (by omega)] at ih ⊢
    omega

end Bytes

end Smongo
