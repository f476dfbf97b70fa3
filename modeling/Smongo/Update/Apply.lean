import Smongo.Query.Eval

/-!
# Update operators

An update is a document of operators, applied in a fixed order.
-/

namespace Smongo

open List Outcome

/-- Keep an integer result in the integer type when it fits by double arithmetic. -/
def fitsInt (lo hi : ℤ) (result : F64) : Bool :=
  (F64.ofInt lo).le result && result.le (F64.ofInt hi) && result.isIntegral

/-- The numeric operators compute in `f64` and keep the type of the current value if they can. -/
def combineNumbers (op : F64 → F64 → F64) (current operand : F64) (target : Bson) : Bson :=
  let result := op current operand
  match target with
  | .int32 _ =>
    if fitsInt (-2 ^ 31) (2 ^ 31 - 1) result then
      .int32 (.ofInt (result.toIntSat (-2 ^ 31) (2 ^ 31 - 1)))
    else .double result
  | .int64 _ =>
    if fitsInt (-2 ^ 63) (2 ^ 63 - 1) result then
      .int64 (.ofInt (result.toIntSat (-2 ^ 63) (2 ^ 63 - 1)))
    else .double result
  | _ => .double result

def addNumbers (env : Env) (current : Option Bson) (increment : Bson) : Outcome String Bson :=
  match bsonToF64 increment with
  | none => .error ("$inc value must be numeric, got: " ++ env.debug increment)
  | some inc =>
    match current with
    | none => .ok increment
    | some target =>
      match bsonToF64 target with
      | some n => .ok (combineNumbers F64.add n inc target)
      | none => .error ("Cannot apply numeric operation to non-numeric field: " ++ env.debug target)

def multiplyNumbers (env : Env) (current : Option Bson) (multiplier : Bson) : Outcome String Bson :=
  match bsonToF64 multiplier with
  | none => .error ("$mul value must be numeric, got: " ++ env.debug multiplier)
  | some factor =>
    match current with
    | none => .ok (.int32 0)
    | some target =>
      match bsonToF64 target with
      | some n => .ok (combineNumbers F64.mul n factor target)
      | none => .error ("Cannot apply $mul to non-numeric field: " ++ env.debug target)

def compareNumbers (a b : Bson) : Option Ordering := do
  let x ← bsonToF64 a
  let y ← bsonToF64 b
  x.partialCmp y

def sortTypeOrder : Bson → ℕ
  | .null => 1
  | .int32 _ | .int64 _ | .double _ => 2
  | .string _ => 3
  | .document _ => 4
  | .array _ => 5
  | .boolean _ => 6
  | .objectId _ => 7
  | .dateTime _ => 8
  | _ => 9

/-- The order of the aggregation stages; a missing value comes first. -/
def compareBson : Option Bson → Option Bson → Ordering
  | none, none => .eq
  | none, some _ => .lt
  | some _, none => .gt
  | some a, some b =>
    match compare (sortTypeOrder a) (sortTypeOrder b) with
    | .eq =>
      match a, b with
      | .string x, .string y => Bytes.cmp (Bytes.utf8 x) (Bytes.utf8 y)
      | .boolean x, .boolean y => compare x y
      | .objectId x, .objectId y => x.bytes.cmp y.bytes
      | .dateTime x, .dateTime y => compare x.toInt y.toInt
      | _, _ =>
        match bsonToF64 a, bsonToF64 b with
        | some x, some y => floatCmp x y
        | _, _ => .eq
    | o => o

def integerOf : Bson → Option Int64
  | .int32 n => some n.toInt64
  | .int64 n => some n
  | _ => none

def directed (dir : Int64) (o : Ordering) : Ordering := if dir < 0 then o.swap else o

def compareBySortDoc (a b : Bson) : Document → Ordering
  | [] => .eq
  | (field, direction) :: rest =>
    let valueOf := fun (v : Bson) =>
      match v with
      | .document d => getValue d field
      | _ => none
    match directed ((integerOf direction).getD 1) (compareBson (valueOf a) (valueOf b)) with
    | .eq => compareBySortDoc a b rest
    | o => o

/-- `$position` counts from the end when negative.  `-n` wraps at `i64::MIN`. -/
def insertAtPosition (arr elements : List Bson) : Option Int64 → List Bson
  | none => arr ++ elements
  | some pos =>
    let idx := if pos < 0 then arr.length - asUsize (-pos).toInt
      else min (asUsize pos.toInt) arr.length
    elements.zipIdx.foldl (fun arr p => arr.insertIdx (idx + p.2) p.1) arr

def sortPushed (arr : List Bson) : Option Bson → Outcome String (List Bson)
  | none => .ok arr
  | some (.document sortDoc) =>
    .ok (arr.insertionSort fun a b => compareBySortDoc a b sortDoc ≠ .gt)
  | some sortSpec =>
    match integerOf sortSpec with
    | some d => .ok (arr.insertionSort fun a b => directed d (compareBson (some a) (some b)) ≠ .gt)
    | none => .error "$sort must be 1, -1, or a document"

def slicePushed (arr : List Bson) : Option Bson → Outcome String (List Bson)
  | none => .ok arr
  | some sliceVal =>
    match integerOf sliceVal with
    | some n =>
      if n = 0 then .ok []
      else if 0 < n then .ok (arr.take (asUsize n.toInt))
      else .ok (arr.drop (arr.length - asUsize (-n).toInt))
    | none => .error "$slice must be numeric"

def eachElements : Bson → Option (Document × List Bson)
  | .document modifiers =>
    match Document.get modifiers "$each" with
    | some (.array elements) => some (modifiers, elements)
    | _ => none
  | _ => none

def applyEach (f : Document → String → Bson → Outcome String Document) :
    Document → Document → Outcome String Document
  | [], doc => .ok doc
  | (key, operand) :: rest, doc => do applyEach f rest (← f doc key operand)

section

variable (env : Env)

def applySet : Document → Document → Outcome String Document :=
  applyEach fun doc key value => .ok (setValue doc key value)

def applyUnset : Document → Document → Outcome String Document :=
  applyEach fun doc key _ => .ok (unsetValue doc key)

def applyInc : Document → Document → Outcome String Document :=
  applyEach fun doc key increment => do
    .ok (setValue doc key (← addNumbers env (getValue doc key) increment))

def applyMul : Document → Document → Outcome String Document :=
  applyEach fun doc key multiplier => do
    .ok (setValue doc key (← multiplyNumbers env (getValue doc key) multiplier))

def applyBound (wanted : Ordering) : Document → Document → Outcome String Document :=
  applyEach fun doc key bound =>
    match getValue doc key with
    | some current =>
      if compareNumbers bound current = some wanted then .ok (setValue doc key bound)
      else .ok doc
    | none => .ok (setValue doc key bound)

def applyMin : Document → Document → Outcome String Document := applyBound .lt

def applyMax : Document → Document → Outcome String Document := applyBound .gt

def applyCurrentDate (tick : ℕ) (spec doc : Document) : Outcome String Document :=
  .ok (spec.zipIdx.foldl
    (fun doc (f, i) => setValue doc f.1 (.dateTime (env.dateTimeNow tick i))) doc)

def applyRename : Document → Document → Outcome String Document :=
  applyEach fun doc oldName newName =>
    match newName with
    | .string target =>
      match getValue doc oldName with
      | some value => .ok (setValue (unsetValue doc oldName) target value)
      | none => .ok doc
    | other => .error ("$rename target must be a string, got: " ++ env.debug other)

def arrayToExtend (operator : String) (doc : Document) (key : String) :
    Outcome String (List Bson) :=
  match getValue doc key with
  | some (.array items) => .ok items
  | none => .ok []
  | some other => .error ("Cannot apply " ++ operator ++ " to non-array field: " ++ env.debug other)

variable (arr : List Bson)

def addIfAbsent (elem : Bson) : List Bson :=
  if arr.any fun x => x.eq elem then arr else arr ++ [elem]

def applyAddToSet : Document → Document → Outcome String Document :=
  applyEach fun doc key valueSpec => do
    let arr ← arrayToExtend env "$addToSet" doc key
    let arr := match eachElements valueSpec with
      | some (_, elements) => elements.foldl addIfAbsent arr
      | none => addIfAbsent arr valueSpec
    .ok (setValue doc key (.array arr))

def pushOnto (valueSpec : Bson) : Outcome String (List Bson) :=
  match eachElements valueSpec with
  | some (modifiers, elements) => do
    let position := (modifiers.get "$position").bind integerOf
    let arr ← sortPushed (insertAtPosition arr elements position) (modifiers.get "$sort")
    slicePushed arr (modifiers.get "$slice")
  | none => .ok (arr ++ [valueSpec])

def applyPush : Document → Document → Outcome String Document :=
  applyEach fun doc key valueSpec => do
    let arr ← arrayToExtend env "$push" doc key
    let arr ← pushOnto arr valueSpec
    .ok (setValue doc key (.array arr))

def pullMatching (query : Document) : List Bson → Outcome String (List Bson)
  | [] => .ok []
  | .document d :: rest => do
    let hit ← (evalQuery env d query).unwrapOr false
    let kept ← pullMatching query rest
    .ok (if hit then kept else .document d :: kept)
  | elem :: rest => do .ok (elem :: (← pullMatching query rest))

def pullFrom : Bson → Outcome String (List Bson)
  | .document query => pullMatching env query arr
  | condition => .ok (arr.filter fun elem => !elem.eq condition)

def applyPull : Document → Document → Outcome String Document :=
  applyEach fun doc key condition =>
    match getValue doc key with
    | some (.array arr) => do .ok (setValue doc key (.array (← pullFrom env arr condition)))
    | _ => .ok doc

def applyPop : Document → Document → Outcome String Document :=
  applyEach fun doc key direction =>
    match getValue doc key with
    | some (.array (x :: xs)) =>
      let popped := fun (dir : Int32) =>
        if dir = -1 then .ok (setValue doc key (.array xs))
        else if dir = 1 then .ok (setValue doc key (.array (x :: xs).dropLast))
        else .error ("$pop direction must be -1 or 1, got: " ++ toString dir.toInt)
      match direction with
      | .int32 n => popped n
      | .int64 n => popped n.toInt32
      | other => .error ("$pop direction must be -1 or 1, got: " ++ env.debug other)
    | _ => .ok doc

def operatorOrder : List String :=
  ["$set", "$setOnInsert", "$unset", "$inc", "$mul", "$min", "$max", "$currentDate", "$rename",
    "$addToSet", "$push", "$pull", "$pop"]

def applyOperator (tick : ℕ) (isUpsertInsert : Bool) (operator : String) (spec doc : Document) :
    Outcome String Document :=
  match operator with
  | "$set" => applySet spec doc
  | "$setOnInsert" => if isUpsertInsert then applySet spec doc else .ok doc
  | "$unset" => applyUnset spec doc
  | "$inc" => applyInc env spec doc
  | "$mul" => applyMul env spec doc
  | "$min" => applyMin spec doc
  | "$max" => applyMax spec doc
  | "$currentDate" => applyCurrentDate env tick spec doc
  | "$rename" => applyRename env spec doc
  | "$addToSet" => applyAddToSet env spec doc
  | "$push" => applyPush env spec doc
  | "$pull" => applyPull env spec doc
  | "$pop" => applyPop env spec doc
  | _ => .ok doc

def applyOperators (tick : ℕ) (isUpsertInsert : Bool) (update : Document) :
    List String → Document → Outcome String Document
  | [], doc => .ok doc
  | operator :: rest, doc =>
    match update.get operator with
    | some (.document spec) => do
      applyOperators tick isUpsertInsert update rest
        (← applyOperator env tick isUpsertInsert operator spec doc)
    | some _ => .error (operator ++ " must be a document")
    | none => applyOperators tick isUpsertInsert update rest doc

def startsWithDollar (key : String) : Bool := key.toList.head? = some '$'

/-- Array filters are empty in the updates of `update_one` and `update_many`. -/
def applyUpdateImpl (tick : ℕ) (doc update : Document) (isUpsertInsert : Bool) :
    Outcome String Document :=
  match update.find? fun f => !startsWithDollar f.1 with
  | some (key, _) => .error ("Update keys must be operators starting with $, found: " ++ key)
  | none => applyOperators env tick isUpsertInsert update operatorOrder doc

def applyUpdate (tick : ℕ) (doc update : Document) : Outcome String Document :=
  applyUpdateImpl env tick doc update false

def applyUpdateForUpsert (tick : ℕ) (doc update : Document) : Outcome String Document :=
  applyUpdateImpl env tick doc update true

end

/-! ### Fields an update leaves alone -/

def Untouched (k : String) (update : Document) : Prop :=
  ∀ operator ∈ operatorOrder, ∀ spec, update.get operator = some (.document spec) →
    ∀ f ∈ spec, rootField f.1 ≠ some k ∧
      ∀ target, operator = "$rename" → f.2 = .string target → rootField target ≠ some k

variable {env : Env} {k : String}

lemma untouched_set {field : String} (h : rootField field ≠ some k) (value : Bson) :
    Untouched k [("$set", .document [(field, value)])] := by
  intro operator _ spec hget f hf
  rw [Document.get_cons] at hget
  split at hget
  · next hop =>
    cases hget
    rw [mem_singleton] at hf
    subst hf
    refine ⟨h, fun target hrename => ?_⟩
    have hset : operator = "$set" := hop
    rw [hset] at hrename
    exact absurd hrename (by decide)
  · cases hget

variable {spec doc doc' : Document} {tick : ℕ} {upsert : Bool}

lemma applyEach_get {f : Document → String → Bson → Outcome String Document}
    (hf : ∀ key operand, (key, operand) ∈ spec → ∀ d d', f d key operand = .ok d' →
      d'.get k = d.get k)
    (h : applyEach f spec doc = .ok doc') : doc'.get k = doc.get k := by
  induction spec generalizing doc with
  | nil =>
    cases h
    rfl
  | cons field spec ih =>
    obtain ⟨key, operand⟩ := field
    obtain ⟨d, hd, hrest⟩ := bind_eq_ok.mp h
    rw [ih (fun key' operand' hmem => hf key' operand' (mem_cons_of_mem _ hmem)) hrest]
    exact hf key operand mem_cons_self doc d hd

lemma applyEach_get_of_set {f : Document → String → Bson → Outcome String Document}
    (hf : ∀ d key operand d', f d key operand = .ok d' →
      d' = d ∨ (∃ v, d' = setValue d key v) ∨ d' = unsetValue d key)
    (hk : ∀ f ∈ spec, rootField f.1 ≠ some k)
    (h : applyEach f spec doc = .ok doc') : doc'.get k = doc.get k := by
  refine applyEach_get (fun key operand hmem d d' hd => ?_) h
  have hne : rootField key ≠ some k := hk _ hmem
  rcases hf d key operand d' hd with rfl | ⟨v, rfl⟩ | rfl
  · rfl
  · exact get_setValue_of_ne hne
  · exact get_unsetValue_of_ne hne

lemma applyCurrentDate_get (hk : ∀ f ∈ spec, rootField f.1 ≠ some k)
    (h : applyCurrentDate env tick spec doc = .ok doc') :
    doc'.get k = doc.get k := by
  cases h
  have key : ∀ (fs : List ((String × Bson) × ℕ)) (d : Document),
      (∀ f ∈ fs, rootField f.1.1 ≠ some k) →
      Document.get (fs.foldl
        (fun doc (f, i) => setValue doc f.1 (.dateTime (env.dateTimeNow tick i))) d) k =
        d.get k := by
    intro fs
    induction fs with
    | nil => exact fun _ _ => rfl
    | cons f fs ih =>
      intro d hfs
      rw [foldl_cons, ih _ fun g hg => hfs g (mem_cons_of_mem _ hg)]
      exact get_setValue_of_ne (hfs f mem_cons_self)
  refine key _ _ fun f hf => hk f.1 ?_
  exact (mem_zipIdx' hf).2 ▸ getElem_mem _

lemma applyRename_get (hk : ∀ f ∈ spec, rootField f.1 ≠ some k ∧
      ∀ target, f.2 = .string target → rootField target ≠ some k)
    (h : applyRename env spec doc = .ok doc') : doc'.get k = doc.get k := by
  refine applyEach_get (fun key operand hmem d d' hd => ?_) h
  obtain ⟨hold, hnew⟩ := hk _ hmem
  cases operand with
  | string target =>
    simp only at hd
    split at hd
    · cases hd
      rw [get_setValue_of_ne (hnew target rfl), get_unsetValue_of_ne hold]
    · cases hd
      rfl
  | _ => cases hd

lemma of_bind_setValue {α : Type} {m : Outcome String α} {d d' : Document} {key : String}
    {value : α → Bson} (h : (m >>= fun a => .ok (setValue d key (value a))) = .ok d') :
    d' = d ∨ (∃ v, d' = setValue d key v) ∨ d' = unsetValue d key := by
  obtain ⟨a, -, ha⟩ := bind_eq_ok.mp h
  exact .inr (.inl ⟨value a, (ok.inj ha).symm⟩)

lemma applyOperator_get {operator : String} (hk : ∀ f ∈ spec, rootField f.1 ≠ some k ∧
      ∀ target, operator = "$rename" → f.2 = .string target → rootField target ≠ some k)
    (h : applyOperator env tick upsert operator spec doc = .ok doc') :
    doc'.get k = doc.get k := by
  have hpaths : ∀ f ∈ spec, rootField f.1 ≠ some k := fun f hf => (hk f hf).1
  have hcase {f} (h : applyEach f spec doc = .ok doc') (hf) := applyEach_get_of_set hf hpaths h
  unfold applyOperator at h
  split at h
  · exact hcase h (by grind)
  · split at h
    · exact hcase h (by grind)
    · cases h
      rfl
  · exact hcase h (by grind)
  · exact hcase h fun d key v d' => of_bind_setValue
  · exact hcase h fun d key v d' => of_bind_setValue
  · exact hcase h (by grind)
  · exact hcase h (by grind)
  · exact applyCurrentDate_get hpaths h
  · exact applyRename_get (fun f hf => ⟨(hk f hf).1, fun t => (hk f hf).2 t rfl⟩) h
  · exact hcase h fun d key v d' => of_bind_setValue
  · refine hcase h fun d key v d' hd => ?_
    obtain ⟨arr, -, hpush⟩ := bind_eq_ok.mp hd
    exact of_bind_setValue hpush
  · refine hcase h fun d key v d' hd => ?_
    split at hd
    · exact of_bind_setValue hd
    · exact .inl (ok.inj hd).symm
  · exact hcase h (by grind)
  · cases h
    rfl

lemma applyOperators_get {update : Document} {operators : List String}
    (hsub : ∀ op ∈ operators, op ∈ operatorOrder) (hk : Untouched k update)
    (h : applyOperators env tick upsert update operators doc = .ok doc') :
    doc'.get k = doc.get k := by
  induction operators generalizing doc with
  | nil =>
    cases h
    rfl
  | cons operator rest ih =>
    have hrest : ∀ op ∈ rest, op ∈ operatorOrder := fun op hop => hsub op (mem_cons_of_mem _ hop)
    rw [applyOperators] at h
    split at h
    · next spec hspec =>
      obtain ⟨d, hd, hd'⟩ := bind_eq_ok.mp h
      rw [ih hrest hd']
      exact applyOperator_get (hk operator (hsub operator mem_cons_self) spec hspec) hd
    · cases h
    · exact ih hrest h

lemma applyUpdateImpl_get {update : Document}
    (hk : Untouched k update) (h : applyUpdateImpl env tick doc update upsert = .ok doc') :
    doc'.get k = doc.get k := by
  unfold applyUpdateImpl at h
  split at h
  · cases h
  · exact applyOperators_get (fun _ hop => hop) hk h

end Smongo
