import Mathlib.Data.List.TakeWhile
import Smongo.Aggregation.SortKeys
import Smongo.Lib.FloatText

/-!
# Collation

Strings are ordered by `compare_str`, other values as without a collation.
-/

namespace Smongo

open Bytes

structure Collation where
  strength : UInt8 := 3
  numericOrdering : Bool := false

def stripDiacritics (s : String) : String :=
  String.ofList (s.toList.map fun c => match c with
    | 'à' | 'á' | 'â' | 'ã' | 'ä' | 'å' => 'a'
    | 'è' | 'é' | 'ê' | 'ë' => 'e'
    | 'ì' | 'í' | 'î' | 'ï' => 'i'
    | 'ò' | 'ó' | 'ô' | 'õ' | 'ö' => 'o'
    | 'ù' | 'ú' | 'û' | 'ü' => 'u'
    | 'ñ' => 'n'
    | 'ç' => 'c'
    | c => c)

inductive Segment
  | text (s : String)
  | number (x : F64)

def stringCmp (a b : String) : Ordering := (utf8 a).cmp (utf8 b)

section

variable (lower : String → String) (parse : String → Option F64)

def digitSegment (numStr : String) : Segment :=
  match parse numStr with
  | some n => .number n
  | none => .text numStr

/-- A leading minus is taken for the start of a number, which is then empty. -/
def splitFrom : ℕ → Bool → List Char → List Segment
  | 0, _, _ | _ + 1, _, [] => []
  | fuel + 1, first, chars@(c :: _) =>
    if c.isDigit || (c = '-' && first) then
      digitSegment parse (String.ofList (chars.takeWhile fun c => c.isDigit || c = '.')) ::
        splitFrom fuel false (chars.dropWhile fun c => c.isDigit || c = '.')
    else
      .text (String.ofList (chars.takeWhile (!·.isDigit))) ::
        splitFrom fuel false (chars.dropWhile (!·.isDigit))

def splitNumeric (s : String) : List Segment := splitFrom parse (s.length + 2) true s.toList

def Segment.cmp (caseInsensitive : Bool) : Segment → Segment → Ordering
  | .number a, .number b => floatCmp a b
  | .text a, .text b =>
    if caseInsensitive then stringCmp (lower a) (lower b) else stringCmp a b
  | .number _, .text _ => .lt
  | .text _, .number _ => .gt

def numericStringCmp (a b : String) (caseInsensitive : Bool) : Ordering :=
  let segsA := splitNumeric parse a
  let segsB := splitNumeric parse b
  (((segsA.zip segsB).map fun s => s.1.cmp lower caseInsensitive s.2).find? (· ≠ .eq)).getD
    (compare segsA.length segsB.length)

namespace Collation

variable (c : Collation)

def caseInsensitive : Bool := c.strength ≤ 2

def sortKey (s : String) : String :=
  if 3 ≤ c.strength then s
  else if c.strength = 1 then stripDiacritics (lower s)
  else lower s

def compareStr (a b : String) : Ordering :=
  if c.numericOrdering then numericStringCmp lower parse a b c.caseInsensitive
  else stringCmp (c.sortKey lower a) (c.sortKey lower b)

/-- The rule for a string before a number has no counterpart for a number before a string. -/
def compareBson : Option Bson → Option Bson → Ordering
  | some (.string a), some (.string b) => c.compareStr lower parse a b
  | some (.string a), some b =>
    match if c.numericOrdering then bsonToF64 b else none with
    | some y => (parse a).elim .gt (floatCmp · y)
    | none => Smongo.compareBson (some (.string a)) (some b)
  | a, b => Smongo.compareBson a b

end Collation

end

section

variable {lower : String → String} {parse : String → Option F64} {c : Collation}

/-- What `str::parse::<f64>` does on digits and points. -/
structure ReadsDigits (parse : String → Option F64) : Prop where
  empty : parse "" = none
  digits : ∀ cs : List Char, cs ≠ [] → cs.all Char.isDigit →
    parse (.ofList cs) = some (.ofInt (F64.readDigits cs))
  not_nan : ∀ cs : List Char, cs.all (fun c => c.isDigit || c = '.') →
    ∀ x ∈ parse (.ofList cs), x.isNaN = false

/-! ### The order of strings -/

def Segment.key (fold : String → String) : Segment → ValueKey
  | .number x => .mk 0 x.orderKey []
  | .text s => .mk 1 0 (utf8 (fold s))

def Segment.isNaN : Segment → Bool
  | .number x => x.isNaN
  | .text _ => false

lemma Segment.cmp_measured (ci : Bool) : MeasuredOn {s : Segment | s.isNaN = false}
    (Segment.cmp lower ci) (Segment.key (if ci then lower else id)) := by
  intro a ha b hb
  cases a <;> cases b <;> rw [Segment.key, Segment.key, compare_mk]
  case number.number x y =>
    rw [Segment.cmp, floatCmp_of_not_nan ha hb]
    exact Ordering.then_eq.symm
  case text.text x y => cases ci <;> rfl
  all_goals rfl

/-- The first segments that differ decide, and a string that goes on is greater. -/
lemma compare_segments {κ : Type} [LinearOrder κ] {α : Type} {cmp : α → α → Ordering} {key : α → κ}
    {s : Set α} (h : MeasuredOn s cmp key) {l m : List α} (hl : ∀ a ∈ l, a ∈ s)
    (hm : ∀ a ∈ m, a ∈ s) :
    (((l.zip m).map fun p => cmp p.1 p.2).find? (· ≠ .eq)).getD (compare l.length m.length) =
      (LinearOrder.toOrd : Ord (List κ)).compare (l.map key) (m.map key) := by
  induction l generalizing m with
  | nil =>
    cases m with
    | nil => exact (compare_eq_iff_eq.mpr rfl).symm
    | cons b m => exact (compare_lt_iff_lt.mpr (List.nil_lt_cons _ _)).symm
  | cons a l ih =>
    cases m with
    | nil => exact (compare_gt_iff_gt.mpr (List.nil_lt_cons _ _)).symm
    | cons b m =>
      rw [List.forall_mem_cons] at hl hm
      rw [List.map_cons, List.map_cons, compare_cons, ← h a hl.1 b hm.1, ← ih hl.2 hm.2,
        List.zip_cons_cons, List.map_cons, List.find?_cons]
      cases cmp a b with
      | eq => simp [Nat.compare_eq_ite_lt]
      | lt | gt => rfl

lemma splitFrom_not_nan (hparse : ReadsDigits parse) (fuel : ℕ) (first : Bool) (chars : List Char) :
    ∀ g ∈ splitFrom parse fuel first chars, g.isNaN = false := by
  induction fuel generalizing first chars with
  | zero => simp [splitFrom]
  | succ fuel ih =>
    cases chars with
    | nil => simp [splitFrom]
    | cons c chars =>
      rw [splitFrom]
      split
      · refine List.forall_mem_cons.mpr ⟨?_, ih _ _⟩
        have hnan := hparse.not_nan ((c :: chars).takeWhile fun c => c.isDigit || c = '.')
          List.all_takeWhile
        unfold digitSegment
        cases hp : parse (.ofList ((c :: chars).takeWhile fun c => c.isDigit || c = '.')) with
        | none => rfl
        | some x => exact hnan x hp
      · exact List.forall_mem_cons.mpr ⟨rfl, ih _ _⟩

variable (lower parse c) in
def stringKey (s : String) : List ValueKey :=
  if c.numericOrdering then
    (splitNumeric parse s).map (Segment.key (if c.caseInsensitive then lower else id))
  else [.mk 0 0 (utf8 (c.sortKey lower s))]

lemma compareStr_measured (hparse : ReadsDigits parse) :
    MeasuredOn Set.univ (c.compareStr lower parse) (stringKey lower parse c) := by
  intro s _ t _
  rw [Collation.compareStr, stringKey, stringKey]
  cases c.numericOrdering with
  | true =>
    exact compare_segments (Segment.cmp_measured _) (splitFrom_not_nan hparse _ _ _)
      (splitFrom_not_nan hparse _ _ _)
  | false =>
    simp only [Bool.false_eq_true, if_false]
    rw [compare_cons, compare_mk]
    exact Ordering.then_eq.symm

/-! ### The order of values -/

/-- A `NaN` makes all numbers equal, and a string that reads as a number is greater than the
numbers. -/
structure Collatable (parse : String → Option F64) (c : Collation) (values : Set (Option Bson)) :
    Prop where
  nan : ∀ v, some v ∈ values → v.isNaN → ∀ a, some a ∈ values → ∀ b, some b ∈ values →
    ∀ x ∈ bsonToF64 a, ∀ y ∈ bsonToF64 b, floatCmp x y = .eq
  numeric : c.numericOrdering = true → ∀ s, some (.string s) ∈ values → ∀ b, some b ∈ values →
    ∀ x ∈ parse s, ∀ y ∈ bsonToF64 b, floatCmp x y = .gt

/-- The same value for all strings, and for all numbers if they are tied. -/
def levelled (tied : Bool) (v : Bson) : Bson :=
  match v with
  | .string _ => .string ""
  | v => if tied ∧ (bsonToF64 v).isSome then .int32 0 else v

def valueStringKey (lower : String → String) (parse : String → Option F64) (c : Collation) :
    Option Bson → List ValueKey
  | some (.string s) => stringKey lower parse c s
  | _ => []

lemma levelled_eq (tied : Bool) (v : Bson) :
    levelled tied v = if sortTypeOrder v = 3 then .string ""
    else if tied ∧ sortTypeOrder v = 2 then .int32 0 else v := by
  cases tied <;> cases v <;> rfl

lemma sortTypeOrder_levelled (tied : Bool) (v : Bson) :
    sortTypeOrder (levelled tied v) = sortTypeOrder v := by
  cases tied <;> cases v <;> rfl

lemma compareBson_of_types {v w : Bson} (h : sortTypeOrder v ≠ sortTypeOrder w) :
    compareBson (some v) (some w) = compare (sortTypeOrder v) (sortTypeOrder w) := by
  cases hplace : compare (sortTypeOrder v) (sortTypeOrder w) with
  | eq => exact absurd (compare_eq_iff_eq.mp hplace) h
  | lt | gt => simp only [compareBson, hplace]

lemma bsonToF64_isSome_iff (v : Bson) : (bsonToF64 v).isSome ↔ sortTypeOrder v = 2 := by
  cases v <;> simp [bsonToF64, sortTypeOrder]

lemma sortTypeOrder_eq_string {v : Bson} (h : sortTypeOrder v = 3) : ∃ s, v = .string s := by
  cases v <;> simp_all [sortTypeOrder]

lemma compareBson_numbers {v w : Bson} {x y : F64} (hx : bsonToF64 v = some x)
    (hy : bsonToF64 w = some y) : compareBson (some v) (some w) = floatCmp x y := by
  cases v <;> cases hx <;> cases w <;> cases hy <;> rfl

section

variable {values : Set (Option Bson)}

/-- Different types are compared by their places. -/
lemma Collation.compareBson_of_types (h : Collatable parse c values) {v w : Bson}
    (hv : some v ∈ values) (hw : some w ∈ values) (htypes : sortTypeOrder v ≠ sortTypeOrder w) :
    c.compareBson lower parse (some v) (some w) =
      compare (sortTypeOrder v) (sortTypeOrder w) := by
  have hplain := Smongo.compareBson_of_types htypes
  cases v
  case string s =>
    rw [Collation.compareBson]
    · split
      · next y hy =>
        obtain ⟨hon, hy⟩ : c.numericOrdering = true ∧ bsonToF64 w = some y := by
          split at hy <;> simp_all
        have hplace := (bsonToF64_isSome_iff w).mp (by rw [hy]; rfl)
        rw [hplace]
        cases hp : parse s with
        | none => rfl
        | some x => exact h.numeric hon s hv w hw x hp y hy
      · exact hplain
    · rintro t rfl
      exact htypes rfl
  all_goals exact hplain

section

variable (h : Collatable parse c values) {tied : Bool}
  (htied : tied = true ↔ ∃ v, some v ∈ values ∧ v.isNaN)

include htied in
lemma isNaN_levelled {v : Bson} (hv : some v ∈ values) : (levelled tied v).isNaN = false := by
  cases v with
  | double x =>
    cases tied with
    | true => rfl
    | false => exact Bool.eq_false_iff.mpr fun hnan => Bool.false_ne_true (htied.mpr ⟨_, hv, hnan⟩)
  | _ => cases tied <;> rfl

include h htied in
lemma compareBson_levelled {v w : Bson} (hv : some v ∈ values) (hw : some w ∈ values)
    (htypes : sortTypeOrder v = sortTypeOrder w) (hstring : sortTypeOrder v ≠ 3) :
    compareBson (some v) (some w) =
      compareBson (some (levelled tied v)) (some (levelled tied w)) := by
  rw [levelled_eq, levelled_eq, ← htypes, if_neg hstring, if_neg hstring]
  by_cases hnumber : tied ∧ sortTypeOrder v = 2
  · obtain ⟨x, hx⟩ := Option.isSome_iff_exists.mp ((bsonToF64_isSome_iff v).mpr hnumber.2)
    obtain ⟨y, hy⟩ := Option.isSome_iff_exists.mp
      ((bsonToF64_isSome_iff w).mpr (htypes ▸ hnumber.2))
    obtain ⟨u, hu, hnan⟩ := htied.mp hnumber.1
    rw [compareBson_numbers hx hy, h.nan u hu hnan v hv w hw x hx y hy, if_pos hnumber,
      if_pos hnumber]
    decide +kernel
  · rw [if_neg hnumber, if_neg hnumber]

include h htied in
lemma compareBson_collated (hparse : ReadsDigits parse) :
    MeasuredOn values (c.compareBson lower parse) fun v =>
      toLex (valueKey (v.map (levelled tied)), valueStringKey lower parse c v) := by
  intro a ha b hb
  have hnan : ∀ v ∈ values, (v.map (levelled tied)).any Bson.isNaN = false := by
    rintro (_ | v) hv
    · rfl
    · exact isNaN_levelled htied hv
  have hlex : ∀ (p q : ValueKey) (l m : List ValueKey),
      (LinearOrder.toOrd : Ord (ValueKey ×ₗ List ValueKey)).compare (toLex (p, l)) (toLex (q, m)) =
        ((LinearOrder.toOrd : Ord ValueKey).compare p q).then
          ((LinearOrder.toOrd : Ord (List ValueKey)).compare l m) := fun _ _ _ _ => rfl
  rw [hlex, ← compareBson_measured _ (hnan a ha) _ (hnan b hb)]
  rcases a with _ | v <;> rcases b with _ | w
  · exact (compare_eq_iff_eq.mpr rfl).symm
  · cases w <;> rfl
  · cases v <;> rfl
  rw [Option.map_some, Option.map_some]
  by_cases htypes : sortTypeOrder v = sortTypeOrder w
  · by_cases hstring : sortTypeOrder v = 3
    · obtain ⟨s, rfl⟩ := sortTypeOrder_eq_string hstring
      obtain ⟨t, rfl⟩ := sortTypeOrder_eq_string (htypes ▸ hstring)
      exact compareStr_measured hparse s trivial t trivial
    · have hkey : ∀ u, sortTypeOrder u ≠ 3 → valueStringKey lower parse c (some u) = [] := by
        intro u hu
        cases u <;> first | rfl | exact absurd rfl hu
      rw [← compareBson_levelled h htied ha hb htypes hstring, hkey v hstring,
        hkey w (htypes ▸ hstring), compare_eq_iff_eq.mpr rfl, Ordering.then_eq]
      cases v <;> first | rfl | exact absurd rfl hstring
  · have hne : compare (sortTypeOrder v) (sortTypeOrder w) ≠ .eq := fun h =>
      htypes (compare_eq_iff_eq.mp h)
    rw [Collation.compareBson_of_types h ha hb htypes, compareBson_of_types
      (by rwa [sortTypeOrder_levelled, sortTypeOrder_levelled]), sortTypeOrder_levelled,
      sortTypeOrder_levelled]
    cases hc : compare (sortTypeOrder v) (sortTypeOrder w) with
    | eq => exact absurd hc hne
    | lt | gt => rfl

end

lemma Collation.compareBson_numbers {v w : Bson} {x y : F64} (hx : bsonToF64 v = some x)
    (hy : bsonToF64 w = some y) :
    c.compareBson lower parse (some v) (some w) = floatCmp x y := by
  rw [← Smongo.compareBson_numbers hx hy]
  cases v <;> first | rfl | cases hx

lemma floatCmp_nan {z : F64} (hz : z.isNaN = true) (x : F64) :
    floatCmp x z = .eq ∧ floatCmp z x = .eq := by
  simp [floatCmp, F64.partialCmp, hz]

lemma collatable_of_total (h : TotalOn values (c.compareBson lower parse)) :
    Collatable parse c values where
  nan := by
    intro v hv hnan a ha b hb x hx y hy
    obtain ⟨z, rfl, hz⟩ : ∃ z : F64, v = .double z ∧ z.isNaN = true := by
      cases v <;> simp_all [Bson.isNaN]
    have hz' : bsonToF64 (.double z) = some z := rfl
    -- a number is not greater than the `NaN`, which is not greater than another number
    have hle : ∀ a', some a' ∈ values → ∀ b', some b' ∈ values → ∀ x' ∈ bsonToF64 a',
        ∀ y' ∈ bsonToF64 b', floatCmp x' y' ≠ .gt := by
      intro a' ha' b' hb' x' hx' y' hy'
      rw [← Collation.compareBson_numbers hx' hy']
      apply h.trans _ ha' _ hv _ hb'
      · rw [Collation.compareBson_numbers hx' hz', (floatCmp_nan hz x').1]
        nofun
      · rw [Collation.compareBson_numbers hz' hy', (floatCmp_nan hz y').2]
        nofun
    have hswap := h.swap _ ha _ hb
    rw [Collation.compareBson_numbers hx hy, Collation.compareBson_numbers hy hx] at hswap
    have hge := hle b hb a ha y hy x hx
    rw [hswap] at hge
    cases hxy : floatCmp x y with
    | eq => rfl
    | lt => exact absurd (by rw [hxy]; rfl) hge
    | gt => exact absurd hxy (hle a ha b hb x hx y hy)
  numeric := by
    intro hon s hs b hb x hx y hy
    have hplace : sortTypeOrder b = 2 := (bsonToF64_isSome_iff b).mp (by rw [hy]; rfl)
    have hright : c.compareBson lower parse (some b) (some (.string s)) = .lt := by
      have htypes := compareBson_of_types (v := b) (w := .string s) (by rw [hplace]; nofun)
      rw [hplace] at htypes
      refine Eq.trans ?_ htypes
      cases b <;> first | rfl | cases hy
    have hleft : c.compareBson lower parse (some (.string s)) (some b) = floatCmp x y := by
      rw [Collation.compareBson, if_pos hon, hy, hx]
      · rfl
      · rintro t rfl
        cases hy
    have hswap := h.swap _ hb _ hs
    rwa [hleft, hright] at hswap

end

/-! ### Decimal integers -/

def decimalInteger (s : String) : Option ℤ :=
  let value := fun digits : List Char =>
    if digits ≠ [] ∧ digits.all Char.isDigit then some (F64.readDigits digits : ℤ) else none
  match s.toList with
  | '-' :: digits => (value digits).map (-·)
  | digits => value digits

def isNegated (s : String) : Bool := s.toList.head? = some '-'

section

variable (hparse : ReadsDigits parse)
include hparse

lemma splitFrom_digits {ds : List Char} (hne : ds ≠ []) (hdigits : ds.all Char.isDigit) (fuel : ℕ)
    (first : Bool) :
    splitFrom parse (fuel + 1) first ds = [.number (.ofInt (F64.readDigits ds))] := by
  have hall : ∀ d ∈ ds, (d.isDigit || d = '.') = true := fun d hd => by
    rw [List.all_eq_true.mp hdigits d hd, Bool.true_or]
  obtain ⟨d, ds, rfl⟩ := List.exists_cons_of_ne_nil hne
  rw [splitFrom, if_pos (by rw [List.all_eq_true.mp hdigits d List.mem_cons_self, Bool.true_or]),
    List.takeWhile_eq_self_iff.mpr hall, List.dropWhile_eq_nil_iff.mpr hall, digitSegment,
    hparse.digits _ hne hdigits]
  cases fuel <;> rfl

/-- A minus is cut off and then read as a text. -/
lemma splitNumeric_decimalInteger {s : String} {m : ℤ} (h : decimalInteger s = some m) :
    splitNumeric parse s =
      (if isNegated s then [.text "", .text "-"] else []) ++ [.number (.ofInt m.natAbs)] ∧
      m = if isNegated s then -(m.natAbs : ℤ) else m.natAbs := by
  rw [decimalInteger] at h
  split at h
  · next ds hs =>
    obtain ⟨k, hk, rfl⟩ := Option.map_eq_some_iff.mp h
    obtain ⟨⟨hne, hdigits⟩, hk⟩ := Option.ite_none_right_eq_some.mp hk
    obtain ⟨d, ds, rfl⟩ := List.exists_cons_of_ne_nil hne
    have hd : d.isDigit = true := List.all_eq_true.mp hdigits d List.mem_cons_self
    cases hk
    have hneg : isNegated s = true := by rw [isNegated, hs]; rfl
    have hminus : '-'.isDigit = false := rfl
    have hfirst : splitFrom parse (ds.length + 4) true ('-' :: d :: ds) =
        .text "" :: splitFrom parse (ds.length + 3) false ('-' :: d :: ds) := by
      rw [splitFrom, if_pos (by decide), List.takeWhile_cons_of_neg (by decide),
        List.dropWhile_cons_of_neg (by decide), digitSegment, String.ofList_nil, hparse.empty]
    have hsecond : splitFrom parse (ds.length + 3) false ('-' :: d :: ds) =
        .text "-" :: splitFrom parse (ds.length + 2) false (d :: ds) := by
      rw [splitFrom, if_neg (by decide), List.takeWhile_cons_of_pos (by decide),
        List.dropWhile_cons_of_pos (by decide), List.takeWhile_cons_of_neg (by simp [hd]),
        List.dropWhile_cons_of_neg (by simp [hd])]
    rw [hneg, splitNumeric, hs, ← String.length_toList, hs, List.length_cons, List.length_cons,
      hfirst, hsecond, splitFrom_digits hparse hne hdigits]
    simp
  · obtain ⟨⟨hne, hdigits⟩, hk⟩ := Option.ite_none_right_eq_some.mp h
    cases hk
    have hneg : isNegated s = false := by
      rw [isNegated, decide_eq_false_iff_not]
      intro hhead
      have hdigit := List.all_eq_true.mp hdigits '-' (List.mem_of_mem_head? hhead)
      cases hdigit
    rw [hneg, splitNumeric, splitFrom_digits hparse hne hdigits]
    simp

lemma compareStr_decimalInteger (hon : c.numericOrdering = true) {s t : String} {m n : ℤ}
    (hs : decimalInteger s = some m) (ht : decimalInteger t = some n) :
    c.compareStr lower parse s t =
      if isNegated s = isNegated t then floatCmp (.ofInt m.natAbs) (.ofInt n.natAbs)
      else if isNegated s then .gt else .lt := by
  have hself : ∀ ci a, Segment.cmp lower ci (.text a) (.text a) = .eq := fun ci a => by
    cases ci <;> exact Bytes.cmp_eq_eq.mpr rfl
  have hnumbers : ∀ ci x y, Segment.cmp lower ci (.number x) (.number y) = floatCmp x y :=
    fun _ _ _ => rfl
  rw [Collation.compareStr, if_pos hon, numericStringCmp, (splitNumeric_decimalInteger hparse hs).1,
    (splitNumeric_decimalInteger hparse ht).1]
  cases isNegated s <;> cases isNegated t
  case false.true | true.false => rfl
  all_goals
    simp only [if_true, if_false, Bool.false_eq_true, List.nil_append, List.cons_append,
      List.zip_cons_cons, List.map_cons, hself, hnumbers]
    cases floatCmp (.ofInt m.natAbs) (.ofInt n.natAbs) <;> rfl

end

/-- Two numbers compare as their floats iff they are not rounded to one float. -/
lemma floatCmp_ofInt_iff (k l : ℕ) :
    floatCmp (.ofInt k) (.ofInt l) = compare (k : ℤ) l ↔ k = l ∨ F64.ofInt k ≠ F64.ofInt l := by
  rw [floatCmp_of_not_nan (F64.isNaN_ofInt _) (F64.isNaN_ofInt _)]
  have hinj : (F64.ofInt k).orderKey = (F64.ofInt l).orderKey → F64.ofInt k = F64.ofInt l := by
    intro h
    rw [F64.orderKey_ofInt, F64.orderKey_ofInt, if_neg (by omega), if_neg (by omega),
      Int.natCast_inj] at h
    rw [F64.ofInt_eq, F64.ofInt_eq, h, decide_eq_false (by omega), decide_eq_false (by omega)]
  rcases Nat.lt_trichotomy k l with hlt | rfl | hlt
  · have hle := F64.orderKey_ofInt_mono (Int.ofNat_le.mpr hlt.le)
    rw [compare_lt_iff_lt.mpr (Int.ofNat_lt.mpr hlt), compare_lt_iff_lt, or_iff_right hlt.ne,
      hle.lt_iff_ne]
    exact not_congr ⟨hinj, congrArg _⟩
  · simp
  · have hle := F64.orderKey_ofInt_mono (Int.ofNat_le.mpr hlt.le)
    rw [compare_gt_iff_gt.mpr (Int.ofNat_lt.mpr hlt), compare_gt_iff_gt, or_iff_right hlt.ne',
      hle.lt_iff_ne']
    exact not_congr ⟨hinj, congrArg _⟩

/-- A collation orders the values iff they are comparable, and decimal integers compare as integers
iff neither has a minus and they are not rounded to one float, or both have one and are equal. -/
theorem collation_orders_iff (hparse : ReadsDigits parse) (values : Set (Option Bson)) :
    (TotalOn values (c.compareBson lower parse) ↔ Collatable parse c values) ∧
    (c.numericOrdering = true → ∀ s t m n, decimalInteger s = some m → decimalInteger t = some n →
      (c.compareBson lower parse (some (.string s)) (some (.string t)) = compare m n ↔
        isNegated s = isNegated t ∧
          (m = n ∨ isNegated s = false ∧ F64.ofInt m ≠ F64.ofInt n))) := by
  classical
  refine ⟨⟨collatable_of_total, fun h => ?_⟩, fun hon s t m n hs ht => ?_⟩
  · exact (compareBson_collated h decide_eq_true_iff hparse).totalOn
  have hm := (splitNumeric_decimalInteger hparse hs).2
  have hn := (splitNumeric_decimalInteger hparse ht).2
  change c.compareStr lower parse s t = _ ↔ _
  rw [compareStr_decimalInteger hparse hon hs ht]
  cases hneg : isNegated s <;> cases hneg' : isNegated t <;>
    simp only [hneg, hneg', if_true, if_false, Bool.false_eq_true] at hm hn
  case false.false =>
    have hiff := floatCmp_ofInt_iff m.natAbs n.natAbs
    rw [← Int.natCast_inj, ← hm, ← hn] at hiff
    simpa [← hm, ← hn] using hiff
  case true.true =>
    have hfloat : floatCmp (.ofInt m.natAbs) (.ofInt n.natAbs) = compare m n ↔ m = n := by
      rw [floatCmp_of_not_nan (F64.isNaN_ofInt _) (F64.isNaN_ofInt _)]
      rcases lt_trichotomy m n with hlt | rfl | hlt
      · have hle := F64.orderKey_ofInt_mono (show (n.natAbs : ℤ) ≤ m.natAbs by omega)
        rw [compare_lt_iff_lt.mpr hlt, compare_lt_iff_lt]
        exact iff_of_false hle.not_gt hlt.ne
      · simp
      · have hle := F64.orderKey_ofInt_mono (show (m.natAbs : ℤ) ≤ n.natAbs by omega)
        rw [compare_gt_iff_gt.mpr hlt, compare_gt_iff_gt]
        exact iff_of_false hle.not_gt hlt.ne'
    simpa using hfloat
  case true.false =>
    refine iff_of_false (fun h => ?_) (by simp)
    have hgt : n < m := compare_gt_iff_gt.mp h.symm
    omega
  case false.true =>
    refine iff_of_false (fun h => ?_) (by simp)
    have hlt : m < n := compare_lt_iff_lt.mp h.symm
    omega

end

namespace Sample

def parseDigits (s : String) : Option F64 :=
  if s.toList ≠ [] ∧ s.toList.all Char.isDigit then some (.ofInt (F64.readDigits s.toList))
  else none

end Sample

section

open Sample

lemma parseDigits_reads : ReadsDigits parseDigits where
  empty := rfl
  digits cs hne hdigits := by
    rw [parseDigits, String.toList_ofList, if_pos ⟨by simpa using hne, hdigits⟩]
  not_nan cs _ x hx := by
    rw [← Option.some.inj (Option.ite_none_right_eq_some.mp hx).2]
    exact F64.isNaN_ofInt _

theorem collation_orders_values : let c : Collation := { strength := 1, numericOrdering := true }
    TotalOn {some (.string "x"), some (.string "7"), some (.int32 3), some (.int64 5), none}
      (c.compareBson id parseDigits) := by
  intro c
  apply (collation_orders_iff parseDigits_reads _).1.mpr
  constructor
  · rintro v (⟨⟨⟩⟩ | ⟨⟨⟩⟩ | ⟨⟨⟩⟩ | ⟨⟨⟩⟩ | ⟨⟨⟩⟩) ⟨⟩
  · have hgreater : ∀ s ∈ ["x", "7"], ∀ b ∈ [.string "x", .string "7", Bson.int32 3, .int64 5],
        ∀ x ∈ parseDigits s, ∀ y ∈ bsonToF64 b, floatCmp x y = .gt := by decide +kernel
    intro _ s hs b hb
    exact hgreater s (by simpa using hs) b (by simpa using hb)

theorem numeric_collation_not_symmetric : let c : Collation := { numericOrdering := true }
    let cmp := c.compareBson id parseDigits
    cmp (some (.string "5")) (some (.int32 5)) = .eq ∧
      cmp (some (.int32 5)) (some (.string "5")) = .lt ∧
      cmp (some (.string "-1")) (some (.string "0")) = .gt := by
  decide +kernel

end

end Smongo
