import Smongo.Aggregation.GeoNear
import Smongo.Lib.FloatText

/-!
# Accumulators

What is computed from the documents of a group.  Expressions and the debug texts of values are
parameters.
-/

namespace Smongo

open List Outcome

structure AccumRuntime where
  evaluateExpression : Document → Bson → Outcome AggregationError Bson
  debug : Bson → String
  /-- The number of values above which a vector cannot be allocated. -/
  capacity : ℕ

section

variable (rt : AccumRuntime)

def evaluateAll (docs : List Document) (expr : Bson) : Outcome AggregationError (List Bson) :=
  docs.mapM (rt.evaluateExpression · expr)

end

structure SumState where
  intSum : Int64
  hasDouble : Bool
  dblSum : F64

def SumState.add (st : SumState) : Bson → SumState
  | .int32 n => ⟨st.intSum + n.toInt64, st.hasDouble, st.dblSum.add (.ofInt n.toInt)⟩
  | .int64 n => ⟨st.intSum + n, st.hasDouble, st.dblSum.add (.ofInt n.toInt)⟩
  | .double x => ⟨st.intSum, true, st.dblSum.add x⟩
  | _ => st

section

variable (rt : AccumRuntime)

def accumSum (docs : List Document) (expr : Bson) : Outcome AggregationError Bson := do
  let vals ← evaluateAll rt docs expr
  let st := vals.foldl SumState.add ⟨0, false, .ofInt 0⟩
  .ok (if st.hasDouble then .double st.dblSum else .int64 st.intSum)

def accumAvg (docs : List Document) (expr : Bson) : Outcome AggregationError Bson := do
  let vals ← evaluateAll rt docs expr
  let nums := vals.filterMap bsonToF64
  .ok (if nums = [] then .null
    else .double ((F64.sum nums).div (.ofInt nums.length)))

/-- `$min` and `$max`: a value replaces the current one when it compares in this way. -/
def accumExtreme (wins : Ordering) (docs : List Document) (expr : Bson) :
    Outcome AggregationError Bson := do
  let vals ← evaluateAll rt docs expr
  .ok ((vals.foldl (fun best val =>
    match val, best with
    | .null, _ => best
    | _, none => some val
    | _, some current => if compareBson (some val) (some current) = wins then some val else best)
    none).getD .null)

def accumFirst (docs : List Document) (expr : Bson) : Outcome AggregationError Bson :=
  match docs.head? with
  | some doc => rt.evaluateExpression doc expr
  | none => .ok .null

def accumLast (docs : List Document) (expr : Bson) : Outcome AggregationError Bson :=
  match docs.getLast? with
  | some doc => rt.evaluateExpression doc expr
  | none => .ok .null

def accumPush (docs : List Document) (expr : Bson) : Outcome AggregationError Bson := do
  let vals ← evaluateAll rt docs expr
  .ok (.array vals)

/-- Values with the same debug text are the same to a set. -/
def accumAddToSet (docs : List Document) (expr : Bson) : Outcome AggregationError Bson := do
  let vals ← evaluateAll rt docs expr
  .ok (.array (vals.foldl (fun result val =>
    if rt.debug val ∈ result.map rt.debug then result else result ++ [val]) []))

def accumMergeObjects (docs : List Document) (expr : Bson) : Outcome AggregationError Bson := do
  let vals ← evaluateAll rt docs expr
  .ok (.document (vals.foldl (fun merged val =>
    match val with
    | .document d => d.foldl (fun merged f => Document.insert merged f.1 f.2) merged
    | _ => merged) []))

def accumStddev (docs : List Document) (expr : Bson) (population : Bool) :
    Outcome AggregationError Bson := do
  let vals ← evaluateAll rt docs expr
  let nums := vals.filterMap bsonToF64
  let n := nums.length
  .ok (if n = 0 ∨ (population = false ∧ n < 2) then .null else
      let mean := (F64.sum nums).div (.ofInt n)
      let squares := nums.map fun x => (x.sub mean).mul (x.sub mean)
      .double ((F64.sum squares).div (.ofInt (if population then n else n - 1))).sqrt)

def accumTopBottom (docs : List Document) (spec : Document) (ascending : Bool) (n : ℕ) :
    Outcome AggregationError Bson :=
  match getDocument spec "sortBy" with
  | none => .error (.missingField "sortBy required")
  | some sortBy => do
    let output := (spec.get "output").getD (.string "$$ROOT")
    let sorted := stageSort docs sortBy
    let selected ← evaluateAll rt ((if ascending then sorted else sorted.reverse).take n) output
    .ok (if n = 1 then selected.head?.getD .null else .array selected)

def extractN (spec : Document) : Outcome AggregationError ℕ :=
  match (spec.get "n").bind integerOf with
  | some n => .ok (usize n)
  | none => .error (.missingField "n required")

/-- `$firstN` and `$lastN` of the documents chosen; the vector is allocated for `n` values. -/
def accumPushN (chosen : ℕ → List Document) (expr : Bson) (spec : Document) :
    Outcome AggregationError Bson := do
  let n ← extractN spec
  if rt.capacity < n then .panic else accumPush rt (chosen n) expr

def evaluateAccumulator (docs : List Document) : Bson → Outcome AggregationError Bson
  | .document [] => .error (.invalidOperator "Empty accumulator")
  | .document ((op, expr) :: rest) =>
    let spec : Document := (op, expr) :: rest
    match op with
    | "$sum" => accumSum rt docs expr
    | "$avg" => accumAvg rt docs expr
    | "$count" => .ok (.int32 (Int32.ofNat docs.length))
    | "$min" => accumExtreme rt .lt docs expr
    | "$max" => accumExtreme rt .gt docs expr
    | "$first" => accumFirst rt docs expr
    | "$last" => accumLast rt docs expr
    | "$push" => accumPush rt docs expr
    | "$addToSet" => accumAddToSet rt docs expr
    | "$mergeObjects" => accumMergeObjects rt docs expr
    | "$stdDevPop" => accumStddev rt docs expr true
    | "$stdDevSamp" => accumStddev rt docs expr false
    | "$top" => accumTopBottom rt docs spec true 1
    | "$bottom" => accumTopBottom rt docs spec false 1
    | "$topN" => extractN spec >>= accumTopBottom rt docs spec true
    | "$bottomN" => extractN spec >>= accumTopBottom rt docs spec false
    | "$firstN" => accumPushN rt docs.take expr spec
    | "$lastN" => accumPushN rt (fun n => docs.drop (docs.length - n)) expr spec
    | _ => .error (.invalidOperator s!"Unknown accumulator: {op}")
  | _ => .error (.invalidOperator "Accumulator must be document")

def accumulateInto (docs : List Document) (result spec : Document) :
    Outcome AggregationError Document :=
  spec.foldlM (fun result (field, acc) => do
    let value ← evaluateAccumulator rt docs acc
    .ok (result.insert field value)) result

variable {docs : List Document} {expr : Bson}

lemma get_accumulateInto {result spec out : Document} {key : String}
    (hkey : key ∉ spec.keys) (h : accumulateInto rt docs result spec = .ok out) :
    out.get key = result.get key := by
  induction spec generalizing result with
  | nil => cases h; rfl
  | cons f spec ih =>
    rw [Document.keys, map_cons, mem_cons, not_or] at hkey
    rw [accumulateInto, foldlM_cons, bind_eq_ok] at h
    obtain ⟨next, hnext, hrest⟩ := h
    obtain ⟨value, -, hins⟩ := bind_eq_ok.mp hnext
    cases hins
    rw [ih hkey.2 hrest, Document.get_insert, if_neg hkey.1]

def evaluated (expr : Bson) (doc : Document) : Outcome AggregationError (Bson × Document) := do
  let val ← rt.evaluateExpression doc expr
  .ok (val, doc)

def AccumRuntime.hasValue (expr : Bson) (P : Bson → Bool) (doc : Document) : Bool :=
  match rt.evaluateExpression doc expr with
  | .ok val => P val
  | _ => false

variable {rt}

lemma evaluated_eq_ok {doc : Document} {p : Bson × Document} :
    evaluated rt expr doc = .ok p ↔ rt.evaluateExpression doc expr = .ok p.1 ∧ p.2 = doc := by
  rw [evaluated, bind_eq_ok]
  constructor
  · rintro ⟨val, hval, hp⟩
    cases hp
    exact ⟨hval, rfl⟩
  · rintro ⟨hval, rfl⟩
    exact ⟨p.1, hval, rfl⟩

lemma foldlM_evaluated {γ : Type} (expr : Bson) (g : γ → Bson × Document → γ)
    (docs : List Document) (c : γ) :
    docs.foldlM (fun c doc => do
      let val ← rt.evaluateExpression doc expr
      .ok (g c (val, doc))) c =
      docs.mapM (evaluated rt expr) >>= fun ps => .ok (ps.foldl g c) := by
  rw [← foldlM_eq_mapM]
  simp only [evaluated, bind_assoc, ok_bind]

section

variable {ps : List (Bson × Document)} (h : docs.mapM (evaluated rt expr) = .ok ps)
include h

lemma evaluated_of_mem {p : Bson × Document} (hp : p ∈ ps) :
    p.2 ∈ docs ∧ rt.evaluateExpression p.2 expr = .ok p.1 := by
  rw [mapM_eq_ok] at h
  induction h with
  | nil => cases hp
  | @cons doc q docs ps hq _ ih =>
    rcases mem_cons.mp hp with rfl | hp
    · obtain ⟨hval, rfl⟩ := evaluated_eq_ok.mp hq
      exact ⟨mem_cons_self, hval⟩
    · exact (ih hp).imp_left (mem_cons_of_mem doc)

lemma filter_evaluated (P : Bson → Bool) :
    (ps.filter fun p => P p.1).map Prod.snd = docs.filter (rt.hasValue expr P) := by
  rw [mapM_eq_ok] at h
  induction h with
  | nil => rfl
  | @cons doc p docs ps hp _ ih =>
    obtain ⟨hval, rfl⟩ := evaluated_eq_ok.mp hp
    have hhas : rt.hasValue expr P p.2 = P p.1 := by rw [AccumRuntime.hasValue, hval]
    rw [filter_cons, filter_cons, hhas]
    split
    · rw [map_cons, ih]
    · exact ih

end

end

end Smongo
