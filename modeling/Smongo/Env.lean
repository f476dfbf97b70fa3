import Mathlib.Data.List.Nodup
import Smongo.Lib.Effect
import Smongo.Planner.Plan

/-!
# The environment of the engine

What the modelled code calls but does not contain: crates, clocks, and parts of the engine.
-/

namespace Smongo

open Bytes List

structure Env where
  toWriter : Document → Except String Bytes
  fromReader : Bytes → Except String Document
  /-- `bson::to_vec` on a document. -/
  toVec : Document → Except String Bytes
  /-- `bson::to_vec` on an index specification. -/
  specToVec : IndexSpec → Except String Bytes
  /-- `bson::from_slice::<IndexSpec>`. -/
  specFromSlice : Bytes → Except String IndexSpec
  /-- `bson::to_document` on an index specification. -/
  specToDocument : IndexSpec → Option Document
  /-- `{}` of a BSON value. -/
  display : Bson → String
  /-- `{:?}` of a BSON value. -/
  debug : Bson → String
  /-- `{:?}` of a string. -/
  debugStr : String → String
  objectIdNew : ℕ → ObjectId
  /-- `DateTime::now` in one update, by the position of the call. -/
  dateTimeNow : ℕ → ℕ → Int64
  timeNanos : ℕ → ℕ
  timeSecs : ℕ → F64
  uuid : ℕ → String
  regexNew : String → Except String (String → Bool)
  toLowercase : String → String
  /-- All matches of `\w+`. -/
  wordMatches : String → List String
  isAlphanumeric : Char → Bool
  evaluateExpression : Document → Bson → Except String Bson
  evalExpr : Document → Bson → Outcome String Bool
  evalNearFamily : Option Bson → Document → Outcome String Bool
  evalGeoWithin : Option Bson → Document → Outcome String Bool
  evalGeoIntersects : Option Bson → Document → Outcome String Bool
  /-- The S2 cell of a point value, when it is one. -/
  pointCell : Option Bson → Option ℕ
  evaluate2dspherePlan : Document → IndexSpec → Option QueryPlan
  /-- `extract_vector_query`, and the ids that an index over the documents finds for its vector. -/
  vectorSearch : (filter : Document) → (field : String) → (dimensions : ℕ) → (metric : String) →
    (efConstruction m : Option ℕ) → (indexingMethod : String) →
    Option (List Document → List String)
  /-- `Collation::from_doc` and `index_key_bytes`. -/
  collationIndexKey : Document → String → Bytes
  validateDocument : Document → Document → Except String Unit

structure Env.Codec (env : Env) : Prop where
  document : ∀ {d b}, env.toWriter d = .ok b → env.fromReader b = .ok d
  spec : ∀ {s b}, env.specToVec s = .ok b → env.specFromSlice b = .ok s

def littleEndian (w n : ℕ) : Bytes := (bigEndian w n).reverse

def framed (elements : Bytes) : Bytes := littleEndian 4 (elements.length + 5) ++ elements ++ [0]

mutual

def bsonElements : Document → Option Bytes
  | [] => some []
  | (name, value) :: rest => do
    let (tag, bytes) ← bsonValue value
    let rest ← bsonElements rest
    some (tag :: utf8 name ++ 0 :: bytes ++ rest)

def bsonValue : Bson → Option (UInt8 × Bytes)
  | .double x => some (0x01, littleEndian 8 x.bits.toNat)
  | .string s => some (0x02, littleEndian 4 ((utf8 s).length + 1) ++ utf8 s ++ [0])
  | .document d => do some (0x03, framed (← bsonElements d))
  | .objectId oid => some (0x07, oid.bytes)
  | .boolean b => some (0x08, [if b then 1 else 0])
  | .dateTime millis => some (0x09, littleEndian 8 millis.toBitVec.toNat)
  | .null => some (0x0A, [])
  | .int32 n => some (0x10, littleEndian 4 n.toBitVec.toNat)
  | .int64 n => some (0x12, littleEndian 8 n.toBitVec.toNat)
  | _ => none

end

def bsonBytes (d : Document) : Option Bytes := (bsonElements d).map framed

def IndexType.camelCase : IndexType → String
  | bTree => "bTree"
  | twoDSphere => "twoDSphere"
  | text => "text"
  | vectorSearch => "vectorSearch"
  | bitmap => "bitmap"
  | prefixed => "prefix"

/-- An index specification as `serde` writes it, if it has no options beyond these. -/
def specDocument (spec : IndexSpec) : Document :=
  let flags := [("unique", .boolean spec.options.unique), ("sparse", .boolean spec.options.sparse),
    ("background", .boolean spec.options.background)]
  let ttl := spec.options.expireAfterSeconds.toList.map fun secs =>
    ("expire_after_seconds", Bson.int64 secs.toInt64)
  let filter := spec.options.partialFilterExpression.toList.map fun d =>
    ("partial_filter_expression", Bson.document d)
  let kind := spec.options.indexType.toList.map fun t => ("index_type", Bson.string t.camelCase)
  let prefixed := spec.options.prefixOptions.toList.map fun o =>
    ("prefix_options", Bson.document [("prefix_length", .int64 (.ofNat o.prefixLength))])
  [("name", .string spec.name), ("keys", .document spec.keys),
    ("options", .document (flags ++ ttl ++ filter ++ kind ++ prefixed))]

def lookupBy {α β γ : Type} [DecidableEq α] (key : γ → α) (value : γ → β) (rows : List γ) (a : α) :
    Except String β :=
  match rows.find? fun r => key r = a with
  | some r => .ok (value r)
  | none => .error "not in the table"

section

variable {α β : Type} [DecidableEq α] {rows : List (α × β)} {a : α} {b : β}
  (hab : lookupBy Prod.fst Prod.snd rows a = .ok b)
include hab

lemma mem_of_lookupBy : b ∈ rows.map Prod.snd := by
  unfold lookupBy at hab
  cases hr : rows.find? fun r => r.1 = a with
  | none => simp [hr] at hab
  | some r =>
    rw [hr] at hab
    cases hab
    exact mem_map_of_mem (mem_of_find?_eq_some hr)

lemma lookupBy_inverse [DecidableEq β] (h : (rows.map Prod.snd).Nodup) :
    lookupBy Prod.snd Prod.fst rows b = .ok a := by
  have hmem : (a, b) ∈ rows := by
    unfold lookupBy at hab
    split at hab
    · next r hr =>
      cases hab
      have hkey : r.1 = a := by simpa using find?_some hr
      exact hkey ▸ mem_of_find?_eq_some hr
    · cases hab
  unfold lookupBy
  split
  · next r hr =>
    have hkey : r.2 = b := by simpa using find?_some hr
    have hr := mem_of_find?_eq_some hr
    have heq : r = (a, b) := inj_on_of_nodup_map h hr hmem hkey
    rw [heq]
  · next hnone =>
    exact absurd (find?_eq_none.mp hnone (a, b) hmem) (by simp)

end

def encodings {α : Type} (document : α → Document) (xs : List α) : List (α × Bytes) :=
  xs.filterMap fun x => (bsonBytes (document x)).map (x, ·)

def asciiWords (s : String) : List String :=
  ((s.toList.splitOnP fun c => !(c.isAlphanum || c = '_')).filter (· ≠ [])).map String.ofList

/-- An environment that knows the encodings of the listed documents and index specifications. -/
def Env.ofLists (docs : List Document) (specs : List IndexSpec) : Env where
  toWriter := lookupBy Prod.fst Prod.snd (encodings id docs)
  fromReader := lookupBy Prod.snd Prod.fst (encodings id docs)
  toVec := lookupBy Prod.fst Prod.snd (encodings id docs)
  specToVec := lookupBy Prod.fst Prod.snd (encodings specDocument specs)
  specFromSlice := lookupBy Prod.snd Prod.fst (encodings specDocument specs)
  specToDocument spec := some (specDocument spec)
  display _ := ""
  debug _ := ""
  debugStr s := s
  objectIdNew n := ⟨bigEndian 12 n, length_bigEndian 12 n⟩
  dateTimeNow tick call := Int64.ofNat (tick + call)
  timeNanos tick := tick
  timeSecs tick := F64.ofInt tick
  uuid tick := toString tick
  regexNew _ := .error "no regular expressions"
  toLowercase s := String.ofList (s.toList.map Char.toLower)
  wordMatches := asciiWords
  isAlphanumeric := Char.isAlphanum
  evaluateExpression _ _ := .error "no expressions"
  evalExpr _ _ := .error "no expressions"
  evalNearFamily _ _ := .error "no geometry"
  evalGeoWithin _ _ := .error "no geometry"
  evalGeoIntersects _ _ := .error "no geometry"
  pointCell _ := none
  evaluate2dspherePlan _ _ := none
  vectorSearch _ _ _ _ _ _ _ := none
  collationIndexKey _ := utf8
  validateDocument _ _ := .ok ()

lemma Env.codec_ofLists {docs : List Document} {specs : List IndexSpec}
    (hdocs : ((encodings id docs).map Prod.snd).Nodup)
    (hspecs : ((encodings specDocument specs).map Prod.snd).Nodup) :
    (Env.ofLists docs specs).Codec where
  document h := lookupBy_inverse h hdocs
  spec h := lookupBy_inverse h hspecs

end Smongo
