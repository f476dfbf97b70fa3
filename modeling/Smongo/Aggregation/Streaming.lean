import Smongo.Aggregation.Pipeline

/-!
# Batch and streaming stages

The stages that treat one document at a time are written twice, for vectors and for iterators.
-/

namespace Smongo

open List Outcome

section

variable (eval : Document → Bson → Outcome AggregationError Bson) (proj doc : Document)

def excludeStep (nd : Document) (f : String × Bson) : Outcome AggregationError Document :=
  if f.1 = "_id" then .ok nd
  else if isZeroOrFalse f.2 then .ok (nd.remove f.1)
  else do
    let val ← eval doc f.2
    .ok (nd.insert f.1 val)

def batchExclude : Outcome AggregationError Document := do
  let nd ← proj.foldlM (excludeStep eval doc) doc
  .ok (if idExcluded proj then nd.remove "_id" else nd)

def computeStep (computed : Document) (f : String × Bson) : Outcome AggregationError Document :=
  if f.1 = "_id" then .ok computed
  else if isZeroOrFalse f.2 then .ok computed
  else do
    let val ← eval doc f.2
    .ok (computed ++ [(f.1, val)])

def removeStep (nd : Document) (f : String × Bson) : Document :=
  if f.1 = "_id" then nd
  else if isZeroOrFalse f.2 then nd.remove f.1
  else nd

def insertAll (nd computed : Document) : Document :=
  computed.foldl (fun nd f => nd.insert f.1 f.2) nd

/-- All expressions are evaluated before anything is removed. -/
def streamExclude : Outcome AggregationError Document := do
  let computed ← proj.foldlM (computeStep eval doc) []
  let nd := insertAll (proj.foldl removeStep doc) computed
  .ok (if idExcluded proj then nd.remove "_id" else nd)

/-- The inclusion is written in the same way twice. -/
def projectInclude : Outcome AggregationError Document :=
  let nd := if idExcluded proj then [] else
    match doc.get "_id" with
    | some id => [("_id", id)]
    | none => []
  proj.foldlM (fun nd (field, value) =>
    if field = "_id" then .ok nd
    else if isOneOrTrue value then
      match getValue doc field with
      | some val => .ok (nd.insert field val)
      | none => .ok nd
    else do
      let val ← eval doc value
      .ok (nd.insert field val)) nd

def hasExclusion : Bool := proj.any fun f => f.1 ≠ "_id" && isZeroOrFalse f.2

end

structure UnwindSpec where
  path : String
  preserveNull : Bool
  includeIndex : Option String

def getBool (d : Document) (key : String) : Option Bool :=
  match d.get key with
  | some (.boolean b) => some b
  | _ => none

def parseUnwindSpec : Bson → Outcome AggregationError UnwindSpec
  | .string s => .ok ⟨(stripPrefix s "$").getD s, false, none⟩
  | .document d =>
    match getStr d "path" with
    | none => .error (.missingField "$unwind requires path")
    | some path => .ok ⟨(stripPrefix path "$").getD path,
        (getBool d "preserveNullAndEmptyArrays").getD false, getStr d "includeArrayIndex"⟩
  | _ => .error (.invalidStage "$unwind requires string or document")

namespace UnwindSpec

variable (u : UnwindSpec) (doc : Document)

def indexed (new : Document) (i : Bson) : Document :=
  match u.includeIndex with
  | some field => new.insert field i
  | none => new

def element (p : Bson × ℕ) : Document :=
  u.indexed (setValue doc u.path p.1) (.int64 (Int64.ofNat p.2))

def unwind : List Document :=
  match getValue doc u.path with
  | some (.array []) => if u.preserveNull then [u.indexed (unsetValue doc u.path) .null] else []
  | some (.array items) => items.zipIdx.map (u.element doc)
  | some .null | none => if u.preserveNull then [u.indexed doc .null] else []
  | some scalar => [u.indexed (setValue doc u.path scalar) .null]

/-- The last element takes the document itself instead of a copy. -/
def unwindSingleDoc : List (Outcome AggregationError Document) :=
  match getValue doc u.path with
  | some (.array []) =>
    if u.preserveNull then [.ok (u.indexed (unsetValue doc u.path) .null)] else []
  | some (.array items) =>
    let n := items.length - 1
    (items.zipIdx.take n).map (.ok ∘ u.element doc) ++
      ((items.zipIdx.drop n).head?.map (.ok ∘ u.element doc)).toList
  | some .null | none => if u.preserveNull then [.ok (u.indexed doc .null)] else []
  | some scalar => [.ok (u.indexed (setValue doc u.path scalar) .null)]

lemma unwindSingleDoc_eq : u.unwindSingleDoc doc = (u.unwind doc).map .ok := by
  unfold unwindSingleDoc unwind
  split
  · split <;> rfl
  · next items hne _ =>
    have hlast : (items.zipIdx.drop (items.length - 1)).length ≤ 1 := by
      rw [length_drop, length_zipIdx]
      omega
    have hhead : (items.zipIdx.drop (items.length - 1)).head?.toList =
        items.zipIdx.drop (items.length - 1) := by
      cases hdrop : items.zipIdx.drop (items.length - 1) with
      | nil => rfl
      | cons p rest =>
        rw [hdrop, length_cons] at hlast
        rw [eq_nil_of_length_eq_zero (Nat.le_zero.mp (Nat.le_of_succ_le_succ hlast))]
        rfl
    dsimp only
    rw [Option.toList_map, hhead, ← map_append, take_append_drop, map_map]
  · split <;> rfl
  · split <;> rfl
  · rfl

end UnwindSpec

section

variable (eval : Document → Bson → Outcome AggregationError Bson)

def addFields (fields doc : Document) : Outcome AggregationError Document :=
  fields.foldlM (fun new (field, expr) => do
    let val ← eval doc expr
    .ok (setValue new field val)) doc

def streamAddFields (fields doc : Document) : Outcome AggregationError Document := do
  let evaluated ← fields.mapM fun (field, expr) => do
    let val ← eval doc expr
    .ok (field, val)
  .ok (evaluated.foldl (fun doc (field, val) => setValue doc field val) doc)

def unsetFields : Bson → Outcome AggregationError (List String)
  | .string s => .ok [s]
  | .array items => .ok (items.filterMap fun
    | .string s => some s
    | _ => none)
  | _ => .error (.invalidStage "$unset requires string or array")

def unsetAll (fields : List String) (doc : Document) : Document := fields.foldl unsetValue doc

def newRootExpr : Bson → Bson
  | .document d => (Document.get d "newRoot").getD (.document d)
  | spec => spec

def replaceRoot (expr : Bson) (doc : Document) : Outcome AggregationError Document := do
  match ← eval doc expr with
  | .document d => .ok d
  | _ => .error (.typeError "$replaceRoot expression must evaluate to a document")

/-- The stages that treat one document at a time. -/
inductive RowStage
  | project
  | unwind
  | addFields
  | unset
  | replaceRoot

namespace RowStage

def batch (docs : List Document) (spec : Bson) : RowStage → Outcome AggregationError (List Document)
  | project =>
    match spec with
    | .document proj => docs.mapM fun doc =>
      if hasExclusion proj then batchExclude eval proj doc else projectInclude eval proj doc
    | _ => .error (.invalidStage "$project requires document")
  | unwind => do
    let u ← parseUnwindSpec spec
    .ok (docs.flatMap u.unwind)
  | addFields =>
    match spec with
    | .document fields => docs.mapM (Smongo.addFields eval fields)
    | _ => .error (.invalidStage "$addFields requires document")
  | unset => do
    let fields ← unsetFields spec
    .ok (docs.map (unsetAll fields))
  | replaceRoot => docs.mapM (Smongo.replaceRoot eval (newRootExpr spec))

def stream (input : DocStream) (spec : Bson) : RowStage → Outcome AggregationError DocStream
  | project =>
    match spec with
    | .document proj => .ok (input.map (· >>= fun doc =>
      if hasExclusion proj then streamExclude eval proj doc else projectInclude eval proj doc))
    | _ => .error (.invalidStage "$project requires document")
  | unwind => do
    let u ← parseUnwindSpec spec
    .ok (input.flatMap fun
      | .ok doc => u.unwindSingleDoc doc
      | r => [r])
  | addFields =>
    match spec with
    | .document fields => .ok (input.map (· >>= streamAddFields eval fields))
    | _ => .error (.invalidStage "$addFields requires document")
  | unset => do
    let fields ← unsetFields spec
    .ok (input.map (· >>= fun doc => .ok (unsetAll fields doc)))
  | replaceRoot => .ok (input.map (· >>= Smongo.replaceRoot eval (newRootExpr spec)))

end RowStage

lemma Document.remove_insert {d : Document} {k k' : String} {v : Bson} (hne : k ≠ k') :
    Document.remove (d.insert k v) k' = Document.insert (d.remove k') k v := by
  induction d with
  | nil => simp [Document.remove, Document.insert, hne]
  | cons f d ih =>
    unfold Document.remove at ih ⊢
    rw [Document.insert]
    by_cases hk : f.1 = k
    · rw [if_pos hk, filter_cons_of_pos (by simp [hne]),
        filter_cons_of_pos (by simp [hk, hne]), Document.insert, if_pos hk]
    · rw [if_neg hk, filter_cons, filter_cons, ih]
      split
      · rw [Document.insert, if_neg hk]
      · rfl

lemma remove_insertAll {computed : Document} {k : String} (hk : k ∉ computed.keys)
    (d : Document) :
    (insertAll d computed).remove k = insertAll (d.remove k) computed := by
  unfold insertAll
  induction computed generalizing d with
  | nil => rfl
  | cons f computed ih =>
    rw [Document.keys, map_cons, mem_cons, not_or] at hk
    rw [foldl_cons, foldl_cons, ih hk.2, Document.remove_insert (Ne.symm hk.1)]

/-- The removals can be made before the insertions, since no field is named twice. -/
lemma foldlM_excludeStep {fields : Document} (doc d computed : Document)
    (hfields : (fields.keys).Nodup)
    (hnew : ∀ k ∈ fields.keys, k ∉ computed.keys) :
    fields.foldlM (excludeStep eval doc) (insertAll d computed) =
      fields.foldlM (computeStep eval doc) computed >>= fun computed =>
        .ok (insertAll (fields.foldl removeStep d) computed) := by
  induction fields generalizing d computed with
  | nil => rfl
  | cons f fields ih =>
    rw [Document.keys, map_cons, nodup_cons] at hfields
    have hrest : ∀ k ∈ Document.keys fields, k ∉ Document.keys computed := fun k hk =>
      hnew k (mem_cons_of_mem f.1 hk)
    rw [foldlM_cons, foldlM_cons, foldl_cons, excludeStep, computeStep, removeStep]
    split
    · exact ih d computed hfields.2 hrest
    split
    · rw [remove_insertAll (hnew f.1 mem_cons_self)]
      exact ih _ computed hfields.2 hrest
    cases eval doc f.2 with
    | ok val =>
      have hins : (insertAll d computed).insert f.1 val =
          insertAll d (computed ++ [(f.1, val)]) := by
        simp [insertAll]
      simp only [ok_bind, hins]
      refine ih d _ hfields.2 fun k hk => ?_
      rw [Document.keys, map_append, mem_append, not_or]
      refine ⟨hrest k hk, fun hmem => hfields.1 ?_⟩
      rw [map_singleton, mem_singleton] at hmem
      exact hmem ▸ hk
    | error e | panic => rfl

lemma streamExclude_eq {proj : Document} (hproj : (proj.keys).Nodup) (doc : Document) :
    streamExclude eval proj doc = batchExclude eval proj doc := by
  have hsteps := foldlM_excludeStep eval doc doc [] hproj fun _ _ => not_mem_nil
  rw [streamExclude, batchExclude, show proj.foldlM (excludeStep eval doc) doc = _ from hsteps,
    bind_assoc]
  rfl

lemma streamAddFields_eq (fields doc : Document) :
    streamAddFields eval fields doc = addFields eval fields doc := by
  rw [streamAddFields, addFields, ← foldlM_eq_mapM]
  simp only [bind_assoc, ok_bind]

lemma collectStream_mapped {f g : Document → Outcome AggregationError Document}
    (hfg : ∀ doc, f doc = g doc) (docs : List Document) :
    collectStream ((docs.map .ok).map (· >>= f)) = docs.mapM g := by
  rw [collectStream, mapM_map, mapM_map]
  exact congrArg (docs.mapM ·) (funext hfg)

/-- The streaming and the batch form of a row stage agree, on errors too, if the specification has
no field twice. -/
theorem batch_stream_agree (stage : RowStage) (docs : List Document) (spec : Bson)
    (hspec : ∀ d, spec = .document d → (Document.keys d).Nodup) :
    (stage.stream eval (docs.map .ok) spec >>= collectStream) = stage.batch eval docs spec := by
  cases stage with
  | project =>
    cases spec with
    | document proj =>
      refine collectStream_mapped (fun doc => ?_) docs
      rw [streamExclude_eq eval (hspec proj rfl)]
    | _ => rfl
  | unwind =>
    simp only [RowStage.stream, RowStage.batch]
    cases parseUnwindSpec spec with
    | ok u =>
      simp only [ok_bind, flatMap_map, UnwindSpec.unwindSingleDoc_eq, ← map_flatMap]
      exact collectStream_map_ok _
    | error e | panic => rfl
  | addFields =>
    cases spec with
    | document fields => exact collectStream_mapped (streamAddFields_eq eval fields) docs
    | _ => rfl
  | unset =>
    simp only [RowStage.stream, RowStage.batch]
    cases unsetFields spec with
    | ok fields =>
      have hmap : (docs.map ok).map (· >>= fun doc => .ok (unsetAll fields doc)) =
          (docs.map (unsetAll fields)).map
            (.ok : Document → Outcome AggregationError Document) := by
        simp
      simp only [ok_bind, hmap, collectStream_map_ok]
    | error e | panic => rfl
  | replaceRoot => exact collectStream_mapped (fun _ => rfl) docs

end

namespace Sample

def readC (doc : Document) (_ : Bson) : Outcome AggregationError Bson :=
  match doc.get "c" with
  | some val => .ok val
  | none => .error (.other "no c")

def dropA : Document := [("a", .int32 0), ("b", .string "$c")]

end Sample

section

open Sample

theorem batch_stream_agree_project : (RowStage.project.stream readC
      ([[("a", .int32 1), ("c", .int32 2)], [("c", .null)]].map .ok) (.document dropA) >>=
        collectStream) =
      .ok [[("c", .int32 2), ("b", .int32 2)], [("c", .null), ("b", .null)]] := by
  rw [batch_stream_agree readC .project _ _ fun d h => by cases h; decide]
  decide +kernel

end

end Smongo
