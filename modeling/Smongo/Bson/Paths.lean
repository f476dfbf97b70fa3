import Smongo.Bson.Value

/-!
# Dot-notation paths

Reads along a dotted path enter arrays through decimal positions; writes enter documents only.
-/

namespace Smongo

open List

def splitDots (key : String) : List String := (key.toList.splitOn '.').map String.ofList

def parseUsize (s : String) : Option ℕ :=
  let digits := match s.toList with
    | '+' :: rest => rest
    | chars => chars
  if digits.isEmpty || !digits.all Char.isDigit then none
  else
    let n := digits.foldl (fun n c => 10 * n + (c.toNat - '0'.toNat)) 0
    if n < 2 ^ 64 then some n else none

def Bson.child (part : String) : Bson → Option Bson
  | .document d => Document.get d part
  | .array items => (parseUsize part).bind fun i => items[i]?
  | _ => none

def walk : List String → Bson → Option Bson
  | [], current => some current
  | part :: parts, current => (current.child part).bind (walk parts)

variable (doc : Document) (key : String)

def getValue : Option Bson :=
  match splitDots key with
  | [] => none
  | first :: rest => (doc.get first).bind (walk rest)

def fieldExists : Bool := (walk (splitDots key) (.document doc)).isSome

def setPath (d : Document) : List String → Bson → Document
  | [], _ => d
  | [last], value => d.insert last value
  | part :: parts, value =>
    let inner := match d.get part with
      | some (.document e) => e
      | _ => []
    d.insert part (.document (setPath inner parts value))

/-- The error returns of the source need an empty path, which `split` never yields. -/
def setValue (value : Bson) : Document := setPath doc (splitDots key) value

def unsetPath (d : Document) : List String → Document
  | [] => d
  | [last] => d.remove last
  | part :: parts =>
    match d.get part with
    | some (.document e) => d.insert part (.document (unsetPath e parts))
    | _ => d

def unsetValue : Document := unsetPath doc (splitDots key)

def rootField : Option String := (splitDots key).head?

lemma get_setPath {d : Document} {part : String} {parts : List String} {value : Bson}
    {k : String} (hk : k ≠ part) :
    (setPath d (part :: parts) value).get k = d.get k := by
  cases parts with
  | nil => rw [setPath, Document.get_insert, if_neg hk]
  | cons next parts =>
    rw [setPath, Document.get_insert, if_neg hk]
    exact cons_ne_nil next parts

section

variable {doc : Document} {key k : String} (hk : rootField key ≠ some k)
include hk

lemma get_setValue_of_ne {value : Bson} :
    (setValue doc key value).get k = doc.get k := by
  unfold setValue rootField at *
  cases hparts : splitDots key with
  | nil => rfl
  | cons part parts =>
    rw [hparts] at hk
    exact get_setPath fun h => hk (by rw [h]; rfl)

lemma get_unsetValue_of_ne :
    (unsetValue doc key).get k = doc.get k := by
  unfold unsetValue rootField at *
  rcases hparts : splitDots key with _ | ⟨part, _ | ⟨next, parts⟩⟩
  · rfl
  · rw [hparts] at hk
    rw [unsetPath, Document.get_remove, if_neg fun h => hk (by rw [h]; rfl)]
  · rw [hparts] at hk
    have hne : k ≠ part := fun h => hk (by rw [h]; rfl)
    rw [unsetPath]
    · split
      · rw [Document.get_insert, if_neg hne]
      · rfl
    · exact cons_ne_nil next parts

end

/-- The path leads through embedded documents to an array with elements and goes on. -/
def entersArray (d : Document) : List String → Bool
  | part :: next :: parts =>
    match d.get part with
    | some (.document e) => entersArray e (next :: parts)
    | some (.array items) => !items.isEmpty
    | _ => false
  | _ => false

section

variable {d : Document} {part next : String} {parts path other : List String} {value : Bson}

lemma getValue_eq_walk :
    getValue doc key = walk (splitDots key) (.document doc) := by
  rw [getValue]
  cases h : splitDots key with
  | nil => exact absurd (map_eq_nil_iff.mp h) (splitOn_ne_nil _ _)
  | cons first rest => rfl

lemma walk_setPath_cons :
    walk (part :: other) (.document (setPath d (part :: next :: parts) value)) =
      walk other (.document (setPath (match d.get part with
        | some (.document e) => e
        | _ => []) (next :: parts) value)) := by
  change (Document.get (setPath d (part :: next :: parts) value) part).bind (walk other) = _
  rw [setPath, Document.get_insert, if_pos rfl]
  · rfl
  · exact cons_ne_nil next parts

lemma walk_setPath_self (hpath : path ≠ []) :
    walk path (.document (setPath d path value)) = some value := by
  induction path generalizing d with
  | nil => exact absurd rfl hpath
  | cons part parts ih =>
    cases parts with
    | nil =>
      change (Document.get (Document.insert d part value) part).bind (walk []) = _
      rw [Document.get_insert, if_pos rfl]
      rfl
    | cons next parts => rw [walk_setPath_cons, ih (cons_ne_nil next parts)]

lemma walk_eq_none {v : Bson} (hv : ∀ part, v.child part = none) (hother : other ≠ []) :
    walk other v = none := by
  cases other with
  | nil => exact absurd rfl hother
  | cons k rest => rw [walk, hv]; rfl

lemma walk_setPath_of_apart (hpath : entersArray d path = false) (hdown : ¬ path <+: other)
    (hup : ¬ other <+: path) :
    walk other (.document (setPath d path value)) = walk other (.document d) := by
  induction path generalizing d other with
  | nil => exact absurd nil_prefix hdown
  | cons part parts ih =>
    cases other with
    | nil => exact absurd nil_prefix hup
    | cons k rest =>
      change _ = (Document.get d k).bind (walk rest)
      by_cases hk : k = part
      · subst hk
        rw [prefix_cons_inj] at hdown hup
        cases parts with
        | nil => exact absurd nil_prefix hdown
        | cons next parts =>
          have hrest : rest ≠ [] := fun h => hup (h ▸ nil_prefix)
          have hnew : walk rest (.document (setPath [] (next :: parts) value)) = none := by
            rw [ih (by cases parts <;> rfl) hdown hup, walk_eq_none (fun _ => rfl) hrest]
          rw [walk_setPath_cons]
          rw [entersArray] at hpath
          cases hget : d.get k with
          | none => exact hnew
          | some v =>
            rw [hget] at hpath
            cases v with
            | document e => exact ih hpath hdown hup
            | array items =>
              obtain rfl : items = [] := by simpa using hpath
              exact hnew.trans (walk_eq_none (fun part => by simp [Bson.child]) hrest).symm
            | _ => exact hnew.trans (walk_eq_none (fun _ => rfl) hrest).symm
      · change (Document.get _ k).bind _ = _
        rw [get_setPath hk]

/-- An element of the array is no longer there. -/
lemma exists_walk_setPath_ne (hpath : entersArray d path = true)
    (hdots : ∀ s ∈ path, '.' ∉ s.toList) :
    ∃ other, (∀ s ∈ other, '.' ∉ s.toList) ∧ ¬ path <+: other ∧ ¬ other <+: path ∧
      walk other (.document (setPath d path value)) ≠ walk other (.document d) := by
  induction path generalizing d with
  | nil => exact absurd hpath Bool.false_ne_true
  | cons part parts ih =>
    rw [forall_mem_cons] at hdots
    cases parts with
    | nil => exact absurd hpath Bool.false_ne_true
    | cons next parts =>
      rw [entersArray] at hpath
      split at hpath
      · rename_i e hget
        obtain ⟨other, hother, hdown, hup, hne⟩ := ih hpath hdots.2
        refine ⟨part :: other, forall_mem_cons.mpr ⟨hdots.1, hother⟩, ?_, ?_, ?_⟩
        · rwa [prefix_cons_inj]
        · rwa [prefix_cons_inj]
        · rw [walk_setPath_cons]
          change _ ≠ (Document.get d part).bind (walk other)
          rw [hget]
          exact hne
      · rename_i items hget
        obtain ⟨alt, hne, hparse, hdot⟩ :
            ∃ alt, alt ≠ next ∧ parseUsize alt = some 0 ∧ '.' ∉ alt.toList := by
          by_cases hnext : next = "0"
          · exact ⟨"+0", by rw [hnext]; decide, rfl, by decide⟩
          · exact ⟨"0", Ne.symm hnext, rfl, by decide⟩
        refine ⟨[part, alt], by simp [hdots.1, hdot], ?_, ?_, ?_⟩
        · simp [cons_prefix_cons, hne.symm]
        · simp [cons_prefix_cons, hne]
        · rw [walk_setPath_cons]
          change (Document.get _ alt).bind _ ≠ (Document.get d part).bind (walk [alt])
          rw [get_setPath hne, hget]
          cases items with
          | nil => exact absurd hpath Bool.false_ne_true
          | cons item items => simp [walk, Bson.child, hparse, Document.get]
      · exact absurd hpath Bool.false_ne_true

end

lemma splitDots_dotless : ∀ s ∈ splitDots key, '.' ∉ s.toList := by
  have h (chars : List Char) : ∀ part ∈ chars.splitOn '.', '.' ∉ part := by
    induction chars with
    | nil => simp
    | cons c chars ih =>
      rw [splitOn_cons_eq_if_modifyHead]
      cases hparts : chars.splitOn '.' <;> grind [modifyHead_nil, modifyHead_cons]
  simpa [splitDots] using h key.toList

lemma exists_splitDots_eq {parts : List String} (hparts : parts ≠ [])
    (hdots : ∀ s ∈ parts, '.' ∉ s.toList) : ∃ key, splitDots key = parts := by
  refine ⟨String.ofList (['.'].intercalate (parts.map String.toList)), ?_⟩
  rw [splitDots, String.toList_ofList, splitOn_intercalate _ (by simpa using hdots)
    (by simpa using hparts), map_map]
  simp

lemma getValue_setValue (value : Bson) :
    getValue (setValue doc key value) key = some value := by
  rw [getValue_eq_walk]
  exact walk_setPath_self fun h => splitOn_ne_nil _ _ (map_eq_nil_iff.mp h)

/-- What is set at a path is read back there, and the paths beside it are unchanged iff the path
does not go through an array with elements, which is replaced by a document. -/
theorem field_path_lens_iff (doc : Document) (key : String) (value : Bson) :
    (getValue (setValue doc key value) key = some value ∧
      ∀ other, ¬ splitDots key <+: splitDots other → ¬ splitDots other <+: splitDots key →
        getValue (setValue doc key value) other = getValue doc other) ↔
      entersArray doc (splitDots key) = false := by
  rw [and_iff_right (getValue_setValue doc key value)]
  simp only [getValue_eq_walk, setValue]
  constructor
  · intro h
    by_contra hpath
    obtain ⟨parts, hdots, hdown, hup, hne⟩ :=
      exists_walk_setPath_ne (eq_true_of_ne_false hpath) (splitDots_dotless key)
    obtain ⟨other, rfl⟩ := exists_splitDots_eq (by rintro rfl; exact hup nil_prefix) hdots
    exact hne (h other hdown hup)
  · exact fun hpath other => walk_setPath_of_apart hpath

theorem set_through_array_loses_element :
    getValue [("a", .array [.int32 1, .int32 2])] "a.1" = some (.int32 2) ∧
      getValue (setValue [("a", .array [.int32 1, .int32 2])] "a.0" (.int32 9)) "a.1" = none :=
  ⟨rfl, rfl⟩

end Smongo
