import Smongo.Sync.Push

/-!
# Operations from the dead-letter queue

A retry builds its operation from the JSON text of the entry in the dead-letter queue.
-/

namespace Smongo

section

variable (str : Bson → String)

mutual

def jsonValue : Bson → Bson
  | .null => .null
  | .boolean b => .boolean b
  | .int32 n => .int32 n
  | .int64 n => .int64 n
  | .double x => .double x
  | .string s => .string s
  | .array items => .array (jsonItems items)
  | .document fields => .document (jsonFields fields)
  | other => .string (str other)

def jsonItems : List Bson → List Bson
  | [] => []
  | v :: rest => jsonValue v :: jsonItems rest

def jsonFields : List (String × Bson) → List (String × Bson)
  | [] => []
  | (k, v) :: rest => (k, jsonValue v) :: jsonFields rest

end

def PyEntry.jsonCopy (entry : PyEntry) : PyEntry :=
  { entry with docId := jsonValue str entry.docId, payload := entry.payload.map (jsonFields str) }

end

mutual

def Bson.inJson : Bson → Bool
  | .null | .boolean _ | .int32 _ | .int64 _ | .double _ | .string _ => true
  | .array items => itemsInJson items
  | .document fields => fieldsInJson fields
  | _ => false

def itemsInJson : List Bson → Bool
  | [] => true
  | v :: rest => v.inJson && itemsInJson rest

def fieldsInJson : List (String × Bson) → Bool
  | [] => true
  | (_, v) :: rest => v.inJson && fieldsInJson rest

end

def BulkOp.inJson : BulkOp → Bool
  | .insertOne doc => fieldsInJson doc
  | .updateOne id update => id.inJson && fieldsInJson update
  | .deleteOne id => id.inJson

variable {str : Bson → String}

mutual

theorem jsonValue_eq_self_iff (v : Bson) : jsonValue str v = v ↔ v.inJson = true := by
  cases v with
  | array items =>
    rw [jsonValue, Bson.inJson, ← jsonItems_eq_self_iff items]
    exact ⟨fun h => by injection h, fun h => by rw [h]⟩
  | document fields =>
    rw [jsonValue, Bson.inJson, ← jsonFields_eq_self_iff fields]
    exact ⟨fun h => by injection h, fun h => by rw [h]⟩
  | _ => simp [jsonValue, Bson.inJson]

theorem jsonItems_eq_self_iff (items : List Bson) :
    jsonItems str items = items ↔ itemsInJson items = true := by
  cases items with
  | nil => simp [jsonItems, itemsInJson]
  | cons v rest =>
    rw [jsonItems, itemsInJson, Bool.and_eq_true, ← jsonValue_eq_self_iff v,
      ← jsonItems_eq_self_iff rest, List.cons.injEq]

theorem jsonFields_eq_self_iff (fields : List (String × Bson)) :
    jsonFields str fields = fields ↔ fieldsInJson fields = true := by
  cases fields with
  | nil => simp [jsonFields, fieldsInJson]
  | cons f rest =>
    obtain ⟨k, v⟩ := f
    rw [jsonFields, fieldsInJson, Bool.and_eq_true, ← jsonValue_eq_self_iff v,
      ← jsonFields_eq_self_iff rest, List.cons.injEq, Prod.mk.injEq]
    exact and_congr_left fun _ => and_iff_right rfl

end

lemma jsonFields_eq_nil_iff {fields : Document} : jsonFields str fields = [] ↔ fields = [] := by
  cases fields with
  | nil | cons f rest => simp [jsonFields]

lemma jsonFields_insert (d : Document) (k : String) (v : Bson) :
    jsonFields str (d.insert k v) = Document.insert (jsonFields str d) k (jsonValue str v) := by
  induction d with
  | nil => rfl
  | cons f rest ih =>
    rw [Document.insert, jsonFields, Document.insert]
    split_ifs
    · rfl
    · rw [jsonFields, ih]

lemma get_jsonFields (d : Document) (k : String) :
    Document.get (jsonFields str d) k = (d.get k).map (jsonValue str) := by
  induction d with
  | nil => rfl
  | cons f rest ih =>
    rw [jsonFields, Document.get_cons, Document.get_cons, ih]
    split_ifs <;> rfl

def builtOp (entry : PyEntry) : Except PyError (Option BulkOp) :=
  if entry.op = "insert" then
    match entry.payload with
    | none => .error (.typeError "'NoneType' object is not iterable")
    | some payload => .ok (some (stampInsert entry.ts payload))
  else if entry.op = "update" then
    match entry.payload with
    | none => .error (.typeError "'NoneType' object is not iterable")
    | some payload => (stampUpdate entry.ts entry.docId payload).map some
  else if entry.op = "delete" then .ok (some (.deleteOne entry.docId))
  else .ok none

lemma builtOp_cases {entry : PyEntry} {op : BulkOp} (h : builtOp entry = .ok (some op)) :
    (entry.op = "insert" ∧ ∃ payload, entry.payload = some payload ∧
        op = stampInsert entry.ts payload) ∨
      (entry.op = "update" ∧ ∃ payload, entry.payload = some payload ∧
        stampUpdate entry.ts entry.docId payload = .ok op) ∨
      (entry.op = "delete" ∧ op = .deleteOne entry.docId) := by
  rw [builtOp] at h
  split_ifs at h with hins hupd hdel
  · cases hpayload : entry.payload with
    | none =>
      rw [hpayload] at h
      cases h
    | some payload =>
      rw [hpayload] at h
      cases h
      exact .inl ⟨hins, payload, rfl, rfl⟩
  · cases hpayload : entry.payload with
    | none =>
      rw [hpayload] at h
      cases h
    | some payload =>
      rw [hpayload] at h
      dsimp only at h
      cases hstamp : stampUpdate entry.ts entry.docId payload with
      | error e =>
        rw [hstamp] at h
        cases h
      | ok built =>
        rw [hstamp] at h
        cases h
        exact .inr (.inl ⟨hupd, payload, rfl, hstamp⟩)
  · cases h
    exact .inr (.inr ⟨hdel, rfl⟩)
  · cases h

open SyncOp in
/-- The push appends the operation that is built from an entry. -/
lemma stageEntry_of_builtOp {entry : PyEntry} {op : BulkOp} (h : builtOp entry = .ok (some op))
    (ns key : String) (l : PushLoop) :
    stageEntry ns l (key, entry) = (do
      if entry.op = "delete" then markDeleted entry.docId
      pure (l.append op (key, entry))) := by
  rcases builtOp_cases h with ⟨hop, payload, hsome, rfl⟩ | ⟨hop, payload, hsome, hstamp⟩ |
    ⟨hop, rfl⟩
  · simp only [stageEntry, hop, hsome, if_true]
    rfl
  · simp only [stageEntry, hop, hsome, hstamp, if_true]
    rfl
  · simp only [stageEntry, hop]
    rfl

def BulkOp.jsonCopy (str : Bson → String) : BulkOp → BulkOp
  | .insertOne doc => .insertOne (jsonFields str doc)
  | .updateOne id update => .updateOne (jsonValue str id) (jsonFields str update)
  | .deleteOne id => .deleteOne (jsonValue str id)

lemma BulkOp.jsonCopy_eq_self_iff (op : BulkOp) : op.jsonCopy str = op ↔ op.inJson = true := by
  cases op with
  | insertOne doc => rw [jsonCopy, inJson, ← jsonFields_eq_self_iff doc, BulkOp.insertOne.injEq]
  | updateOne id update =>
    rw [jsonCopy, inJson, Bool.and_eq_true, ← jsonValue_eq_self_iff id,
      ← jsonFields_eq_self_iff update, BulkOp.updateOne.injEq]
  | deleteOne id => rw [jsonCopy, inJson, ← jsonValue_eq_self_iff id, BulkOp.deleteOne.injEq]

lemma stampInsert_jsonCopy (ts : F64) (doc : Document) :
    stampInsert ts (jsonFields str doc) = (stampInsert ts doc).jsonCopy str := by
  rw [stampInsert, stampInsert, BulkOp.jsonCopy, jsonFields_insert, jsonValue]

lemma stampUpdate_jsonCopy {ts : F64} {id : Bson} {spec : Document} {op : BulkOp}
    (h : stampUpdate ts id spec = .ok op) :
    stampUpdate ts (jsonValue str id) (jsonFields str spec) = .ok (op.jsonCopy str) := by
  have hset : ((Document.get (jsonFields str spec) "$set").getD (.document [])) =
      jsonValue str ((spec.get "$set").getD (.document [])) := by
    rw [get_jsonFields]
    cases spec.get "$set" with
    | none => rfl
    | some v => rfl
  rw [stampUpdate] at h ⊢
  rw [hset]
  cases hv : (spec.get "$set").getD (.document []) with
  | document fields =>
    rw [hv] at h
    cases h
    simp only [jsonValue, BulkOp.jsonCopy, jsonFields_insert]
  | _ =>
    rw [hv] at h
    cases h

/-- The payload from which a retry builds no operation. -/
def PyEntry.hasEmptyPayload (entry : PyEntry) : Prop :=
  entry.op ≠ "delete" ∧ entry.payload = some []

lemma entryToPymongoOp_jsonCopy {entry : PyEntry} {op : BulkOp}
    (h : builtOp entry = .ok (some op)) (hpayload : ¬ entry.hasEmptyPayload) :
    entryToPymongoOp (entry.jsonCopy str) = .ok (some (op.jsonCopy str)) := by
  rcases builtOp_cases h with ⟨hop, payload, hsome, rfl⟩ | ⟨hop, payload, hsome, hstamp⟩ |
    ⟨hop, rfl⟩
  · have hne : jsonFields str payload ≠ [] := fun hnil =>
      hpayload ⟨by rw [hop]; decide, by rw [hsome, jsonFields_eq_nil_iff.mp hnil]⟩
    simp [entryToPymongoOp, PyEntry.jsonCopy, hop, hsome, truthy, Option.filter, hne,
      stampInsert_jsonCopy]
  · have hne : jsonFields str payload ≠ [] := fun hnil =>
      hpayload ⟨by rw [hop]; decide, by rw [hsome, jsonFields_eq_nil_iff.mp hnil]⟩
    simp [entryToPymongoOp, PyEntry.jsonCopy, hop, hsome, truthy, Option.filter, hne,
      stampUpdate_jsonCopy hstamp, Except.map]
  · simp [entryToPymongoOp, PyEntry.jsonCopy, hop, BulkOp.jsonCopy]

lemma entryToPymongoOp_of_empty {entry : PyEntry} (h : entry.hasEmptyPayload) :
    entryToPymongoOp (entry.jsonCopy str) = .ok none := by
  simp [entryToPymongoOp, PyEntry.jsonCopy, h.1, h.2, jsonFields, truthy, Option.filter]

/-- A retry sends the operation of the push iff JSON has all values of the operation and the
payload is not empty. -/
theorem retry_sends_original_iff (str : Bson → String) (entry : PyEntry) (op : BulkOp)
    (hbuilt : builtOp entry = .ok (some op)) :
    entryToPymongoOp (entry.jsonCopy str) = .ok (some op) ↔
      ¬ entry.hasEmptyPayload ∧ op.inJson = true := by
  by_cases hempty : entry.hasEmptyPayload
  · rw [entryToPymongoOp_of_empty hempty]
    simp [hempty]
  · rw [entryToPymongoOp_jsonCopy hbuilt hempty, and_iff_right hempty, Except.ok.injEq,
      Option.some.injEq]
    exact op.jsonCopy_eq_self_iff

namespace Sample

def letterId : ObjectId := ⟨List.replicate 12 7, rfl⟩

def plainInsert : PyEntry where
  op := "insert"
  docId := .string "a"
  payload := some [("_id", .string "a"), ("tags", .array [.int32 1, .null])]
  ts := F64.zero

def oidDelete : PyEntry where
  op := "delete"
  docId := .objectId letterId
  payload := none
  ts := F64.zero

def pyStr : Bson → String
  | .objectId oid => oid.toHex
  | _ => ""

end Sample

section

open Sample

theorem retry_sends_original_plain : builtOp plainInsert = .ok (some (stampInsert plainInsert.ts
        [("_id", .string "a"), ("tags", .array [.int32 1, .null])])) ∧
      entryToPymongoOp (plainInsert.jsonCopy pyStr) = .ok (some (stampInsert plainInsert.ts
        [("_id", .string "a"), ("tags", .array [.int32 1, .null])])) := by
  refine ⟨rfl, (retry_sends_original_iff pyStr plainInsert _ rfl).mpr ⟨?_, ?_⟩⟩
  · rintro ⟨-, h⟩
    cases h
  · decide

/-- The retry of a delete looks for the text of the id. -/
theorem retry_deletes_other_id : builtOp oidDelete = .ok (some (.deleteOne (.objectId letterId))) ∧
      entryToPymongoOp (oidDelete.jsonCopy pyStr) =
        .ok (some (.deleteOne (.string "070707070707070707070707"))) := by
  exact ⟨rfl, rfl⟩

end

end Smongo
