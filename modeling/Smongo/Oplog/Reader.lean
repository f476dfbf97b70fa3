import Smongo.Lib.Tailing
import Smongo.Oplog.Entry
import Smongo.Storage.Overlay

/-!
# Reading the oplog

A reader gets the rows above a checkpoint key, in key order, as BSON has kept them.
-/

namespace Smongo

open Eff List RedbCursor Bytes Outcome StorageSession StorageCursor

inductive OplogError
  | storage (e : StorageError)
  | serialization (msg : String)
deriving DecidableEq

structure OplogCodec where
  fromJson : Bytes → Option OplogEntry
  /-- The text of the error about a field that is missing or has another type. -/
  accessError : Option Bson → String

section

variable (env : Env) (codec : OplogCodec)

def bsonAsF64 : Bson → Option F64
  | .double x => some x
  | .int32 n => some (.ofInt n.toInt)
  | .int64 n => some (.ofInt n.toInt)
  | _ => none

variable (doc : Document)

def getStr (key : String) : Option String :=
  match doc.get key with
  | some (.string s) => some s
  | _ => none

def requireStr (key : String) : Except OplogError String :=
  match getStr doc key with
  | some s => .ok s
  | none => .error (.serialization (codec.accessError (doc.get key)))

def oplogEntryFromDocument : Except OplogError OplogEntry := do
  let ts ← match (doc.get "ts").bind bsonAsF64 with
    | some ts => .ok ts
    | none => .error (.serialization "missing or invalid ts")
  let ns ← requireStr codec doc "ns"
  let op ← requireStr codec doc "op"
  let docId ← match doc.get "doc_id" with
    | some id => .ok (bsonToJsonValue env id)
    | none => .error (.serialization "missing doc_id")
  .ok
    { ts := ts
      ns := ns
      op := op
      docId := docId
      payload := match doc.get "payload" with
        | some .null => none
        | payload => payload.map (bsonToJsonValue env)
      v := match doc.get "v" with
        | some (.int32 n) => some (.ofInt n.toInt)
        | some (.int64 n) => some n
        | some (.double x) => some (.ofInt (x.toIntSat (-2 ^ 63) (2 ^ 63 - 1)))
        | _ => none
      checksum := getStr doc "checksum"
      internal := match doc.get "internal" with
        | some (.boolean b) => b
        | _ => false
      changedFields := match doc.get "changed_fields" with
        | some (.array names) => some (names.filterMap fun
            | .string s => some s
            | _ => none)
        | _ => none
      nodeId := getStr doc "node_id" }

/-- Entries of earlier versions are JSON texts. -/
def decodeOplogValueBytes (bytes : Bytes) : Except OplogError OplogEntry :=
  match bytes.head? with
  | none => .error (.serialization "empty oplog value")
  | some first =>
    match if first = 0x7b then codec.fromJson bytes else none with
    | some entry => .ok entry
    | none =>
      match env.fromReader bytes with
      | .error e => .error (.serialization e)
      | .ok doc => oplogEntryFromDocument env codec doc

end

section

variable {S C : Type} [StorageCursor C] [StorageSession S C] (env : Env) (codec : OplogCodec)

def liftOplog {α : Type} (r : Except StorageError α) : Eff S OplogError α :=
  ofOutcome ((ofExcept r).mapError .storage)

def moveCursor {α : Type} (f : C → S → Except StorageError α × C) (cursor : C) :
    Eff S OplogError (Except StorageError α × C) :=
  read fun s => f cursor s

def collectEntries (skipInternal : Bool) :
    ℕ → C → List (String × OplogEntry) → Eff S OplogError (List (String × OplogEntry))
  | 0, _, results => pure results
  | fuel + 1, cursor, results => do
    let key ← liftOplog (getKeyStr cursor)
    let raw ← liftOplog (getValueRaw cursor)
    let entry ← ofOutcome (.ofExcept (decodeOplogValueBytes env codec raw))
    let results := if skipInternal && entry.internal then results else results ++ [(key, entry)]
    let (moved, cursor) ← moveCursor next cursor
    match moved with
    | .error _ => pure results
    | .ok () => collectEntries skipInternal fuel cursor results

def collectNext (skipInternal : Bool) (fuel : ℕ) (cursor : C) :
    Eff S OplogError (List (String × OplogEntry)) := do
  let (moved, cursor) ← moveCursor next cursor
  match moved with
  | .error _ => pure []
  | .ok () => collectEntries env codec skipInternal fuel cursor []

/-- `OplogReader::read_from`.  Its cursor is fresh, so that resetting it first changes nothing. -/
def readFrom (oplogUri : String) (checkpointKey : Option String) (skipInternal : Bool) :
    Eff S OplogError (List (String × OplogEntry)) := do
  let cursor ← mapError .storage (openCursor oplogUri)
  let rows ← read fun s => rowsLeft cursor s
  match checkpointKey with
  | none => collectNext env codec skipInternal (rows + 1) cursor
  | some ck => do
    let (near, cursor) ← moveCursor searchNear (setKey cursor (utf8 ck))
    match near with
    | .ok x =>
      if x ≤ 0 then collectNext env codec skipInternal (rows + 1) cursor
      else collectEntries env codec skipInternal (rows + 1) cursor []
    | .error (.notFound _) => pure []
    | .error e => fail (.storage e)

end

section

variable {env : Env} {codec : OplogCodec}

def OplogEntry.stored (env : Env) (entry : OplogEntry) : OplogEntry :=
  { entry with
    docId := bsonToJsonValue env (jsonToBsonValue entry.docId)
    payload := match entry.payload.map jsonToBsonValue with
      | some .null => none
      | payload => payload.map (bsonToJsonValue env) }

lemma get_insertSome (d : Document) (k : String) (v : Option Bson) (k' : String) :
    (insertSome d k v).get k' = if k' = k then v.or (d.get k) else
      d.get k' := by
  cases v with
  | none =>
    split
    · next h => rw [h]; rfl
    · rfl
  | some v => exact d.get_insert k v k'

lemma get_oplogEntryToDocument (entry : OplogEntry) (key : String) :
    (oplogEntryToDocument entry).get key = if key = "node_id" then entry.nodeId.map .string
      else if key = "changed_fields" then
        entry.changedFields.map fun names => .array (names.map .string)
      else if key = "internal" then some (.boolean entry.internal)
      else if key = "checksum" then entry.checksum.map .string
      else if key = "v" then entry.v.map .int64
      else if key = "payload" then entry.payload.map jsonToBsonValue
      else if key = "doc_id" then some (jsonToBsonValue entry.docId)
      else if key = "op" then some (.string entry.op)
      else if key = "ns" then some (.string entry.ns)
      else if key = "ts" then some (.double entry.ts) else none := by
  simp [oplogEntryToDocument, get_insertSome, Document.get_insert]

lemma oplogEntryFromDocument_toDocument (entry : OplogEntry) :
    oplogEntryFromDocument env codec (oplogEntryToDocument entry) = .ok (entry.stored env) := by
  obtain ⟨ts, ns, op, docId, payload, v, checksum, internal, changedFields, nodeId⟩ := entry
  simp only [oplogEntryFromDocument, requireStr, getStr, get_oplogEntryToDocument, String.reduceEq,
    if_true, if_false]
  refine congrArg Except.ok ?_
  rw [OplogEntry.stored, OplogEntry.mk.injEq]
  refine ⟨rfl, rfl, rfl, rfl, rfl, ?_, ?_, rfl, ?_, ?_⟩
  · cases v <;> rfl
  · cases checksum <;> rfl
  · cases changedFields with
    | none => rfl
    | some names => simp [filterMap_map]
  · cases nodeId <;> rfl

/-- BSON documents are not empty, and are not JSON texts of entries. -/
structure OplogCodec.Distinguishes (codec : OplogCodec) (env : Env) : Prop where
  nonempty : ∀ {d b}, env.toWriter d = .ok b → b ≠ []
  notJson : ∀ {d b}, env.toWriter d = .ok b → codec.fromJson b = none

lemma decodeOplogValueBytes_toWriter (hcodec : env.Codec) (hjson : codec.Distinguishes env)
    {entry : OplogEntry} {bytes : Bytes}
    (h : env.toWriter (oplogEntryToDocument entry) = .ok bytes) :
    decodeOplogValueBytes env codec bytes = .ok (entry.stored env) := by
  unfold decodeOplogValueBytes
  cases hhead : bytes.head? with
  | none => exact absurd (head?_eq_none_iff.mp hhead) (hjson.nonempty h)
  | some first =>
    simp only [hjson.notJson h, ite_self, hcodec.document h]
    exact oplogEntryFromDocument_toDocument entry

/-! ### What a reader gets -/

def decodeRow (env : Env) (codec : OplogCodec) (row : Row) : Option (String × OplogEntry) := do
  let key ← ofUtf8 row.1
  let entry ← (decodeOplogValueBytes env codec row.2).toOption
  some (key, entry)

def handedOut (env : Env) (codec : OplogCodec) (skipInternal : Bool)
    (rows : Rows) : List (String × OplogEntry) :=
  (rows.filterMap (decodeRow env codec)).filter fun e => !(skipInternal && e.2.internal)

variable {row : Row} {rest : Rows} {cursor : RedbCursor}

lemma decodeRow_eq_some {key : String} {entry : OplogEntry} :
    decodeRow env codec row = some (key, entry) ↔
      ofUtf8 row.1 = some key ∧ decodeOplogValueBytes env codec row.2 = .ok entry := by
  unfold decodeRow
  cases ofUtf8 row.1 with
  | none => simp
  | some key' =>
    cases decodeOplogValueBytes env codec row.2 with
    | error e | ok entry' => simp [Except.toOption]

variable {skipInternal : Bool} {s : RedbSession}

lemma getKeyStr_of_at
    (hat : RedbCursor.At cursor row rest) {key : String} (hkey : ofUtf8 row.1 = some key) :
    getKeyStr cursor = .ok key := by
  simp only [getKeyStr, hat.getKeyRaw, Bind.bind, Except.bind, hkey]

lemma moveCursor_next_nil (h : cursor.Left s []) :
    (moveCursor StorageSession.next cursor : Eff RedbSession OplogError _) s =
      (.ok (.error (.notFound "end of cursor"), cursor.materialize s), s) :=
  congrArg (fun r => (ok r, s)) (next_of_left_nil h)

lemma moveCursor_next_cons (h : cursor.Left s (row :: rest)) :
    ∃ cursor', (moveCursor StorageSession.next cursor : Eff RedbSession OplogError _) s =
      (.ok (.ok (), cursor'), s) ∧ RedbCursor.At cursor' row rest := by
  obtain ⟨cursor', hmove, hat, -⟩ := next_of_left_cons h
  exact ⟨cursor', congrArg (fun r => (ok r, s)) hmove, hat⟩

lemma collectEntries_turn (hat : RedbCursor.At cursor row rest) {e : String × OplogEntry}
    (hrow : decodeRow env codec row = some e) (fuel : ℕ) (results : List (String × OplogEntry)) :
    collectEntries env codec skipInternal (fuel + 1) cursor results s =
      (moveCursor next cursor >>= fun r =>
        match r.1 with
        | .error _ => pure (results ++ handedOut env codec skipInternal [row])
        | .ok () => collectEntries env codec skipInternal fuel r.2
            (results ++ handedOut env codec skipInternal [row])) s := by
  obtain ⟨hkey, hentry⟩ := decodeRow_eq_some.mp hrow
  have hresults : (if skipInternal && e.2.internal then results else results ++ [e]) =
      results ++ handedOut env codec skipInternal [row] := by
    rw [handedOut, filterMap_cons, hrow, filterMap_nil, filter_singleton]
    cases skipInternal && e.2.internal
    · rfl
    · exact (append_nil results).symm
  rw [collectEntries, getKeyStr_of_at hat hkey, hat.getValueRaw, ← hresults]
  refine (bind_of_ok (ofOutcome_apply s (.ok _))).trans
    ((bind_of_ok (ofOutcome_apply s (.ok _))).trans ?_)
  rw [hentry]
  exact bind_of_ok (ofOutcome_apply s (.ok _))

lemma handedOut_cons (row : Row) (rows : Rows) : handedOut env codec skipInternal (row :: rows) =
      handedOut env codec skipInternal [row] ++ handedOut env codec skipInternal rows := by
  rw [handedOut, ← singleton_append, filterMap_append, filter_append]
  rfl

lemma collectEntries_eq (hat : RedbCursor.At cursor row rest)
    (hrows : ∀ r ∈ row :: rest, ∃ e, decodeRow env codec r = some e) {fuel : ℕ}
    (hfuel : rest.length < fuel) (results : List (String × OplogEntry)) :
    collectEntries env codec skipInternal fuel cursor results s =
      (.ok (results ++ handedOut env codec skipInternal (row :: rest)), s) := by
  induction rest generalizing row cursor fuel results with
  | nil =>
    obtain ⟨fuel, rfl⟩ : ∃ n, fuel = n + 1 := ⟨fuel - 1, by omega⟩
    obtain ⟨e, he⟩ := hrows row mem_cons_self
    rw [collectEntries_turn hat he]
    exact bind_of_ok (moveCursor_next_nil (hat.left s))
  | cons next rest ih =>
    obtain ⟨fuel, rfl⟩ : ∃ n, fuel = n + 1 := ⟨fuel - 1, by omega⟩
    obtain ⟨e, he⟩ := hrows row mem_cons_self
    obtain ⟨cursor', hnext, hat'⟩ := moveCursor_next_cons (hat.left s)
    rw [length_cons] at hfuel
    rw [collectEntries_turn hat he, handedOut_cons row (next :: rest), ← append_assoc]
    refine (bind_of_ok hnext).trans (ih hat' (fun r hr => ?_) (by omega) _)
    exact hrows r (mem_cons_of_mem _ hr)

lemma collectNext_eq {rows : Rows}
    (hleft : cursor.Left s rows) (hrows : ∀ r ∈ rows, ∃ e, decodeRow env codec r = some e)
    {fuel : ℕ} (hfuel : rows.length < fuel) :
    collectNext env codec skipInternal fuel cursor s =
      (.ok (handedOut env codec skipInternal rows), s) := by
  cases rows with
  | nil => exact bind_of_ok (moveCursor_next_nil hleft)
  | cons row rest =>
    obtain ⟨cursor', hnext, hat⟩ := moveCursor_next_cons hleft
    rw [length_cons] at hfuel
    exact (bind_of_ok hnext).trans (collectEntries_eq hat hrows (by omega) [])

lemma filter_above {before after : Rows} {key : Bytes}
    (hsorted : (before ++ row :: after).Pairwise fun a b => a.1 < b.1)
    (hbefore : ∀ r ∈ before, r.1 < key) (hrow : ¬row.1 < key) :
    (before ++ row :: after).filter (fun r => Tail.Above (some key) r.1) =
      if row.1 = key then after else row :: after := by
  have habove : ∀ r : Row, Tail.Above (some key) r.1 ↔ key < r.1 := fun r => by simp [Tail.Above]
  have hnone : before.filter (fun r => Tail.Above (some key) r.1) = [] :=
    filter_eq_nil_iff.mpr fun r hr h =>
      lt_asymm (hbefore r hr) ((habove r).mp (of_decide_eq_true h))
  obtain ⟨hafter, -⟩ := pairwise_cons.mp (pairwise_append.mp hsorted).2.1
  have hall : after.filter (fun r => Tail.Above (some key) r.1) = after :=
    filter_eq_self.mpr fun r hr => decide_eq_true
      ((habove r).mpr ((not_lt.mp hrow).trans_lt (hafter r hr)))
  rw [filter_append, hnone, nil_append, filter_cons, hall]
  by_cases hkey : row.1 = key
  · rw [if_neg, if_pos hkey]
    intro h
    exact (lt_irrefl key) (hkey ▸ (habove row).mp (of_decide_eq_true h))
  · rw [if_pos, if_neg hkey]
    exact decide_eq_true ((habove row).mpr (lt_of_le_of_ne (not_lt.mp hrow) (Ne.symm hkey)))

lemma readFrom_eq (oplogUri : String) (checkpointKey : Option String) (skipInternal : Bool)
    (hrows : ∀ r ∈ shown s oplogUri, ∃ e, decodeRow env codec r = some e) :
    readFrom env codec oplogUri checkpointKey skipInternal s =
      (.ok (handedOut env codec skipInternal ((shown s oplogUri).filter fun r =>
        Tail.Above (checkpointKey.map utf8) r.1)), s) := by
  let cursor : RedbCursor := { tableName := oplogUri }
  have hleft := left_shown s oplogUri
  have hlength : (read fun s => StorageSession.rowsLeft cursor s :
      Eff RedbSession OplogError ℕ) s = (.ok (shown s oplogUri).length, s) :=
    congrArg (fun n => (ok n, s)) (rowsLeft_of_left hleft)
  have hopen : (mapError OplogError.storage (StorageSession.openCursor oplogUri) :
      Eff RedbSession OplogError RedbCursor) s = (.ok cursor, s) := rfl
  refine (bind_of_ok hopen).trans ((bind_of_ok hlength).trans ?_)
  cases checkpointKey with
  | none =>
    have hall : (shown s oplogUri).filter (fun r =>
        Tail.Above ((none : Option String).map utf8) r.1) = shown s oplogUri :=
      filter_eq_self.mpr fun r _ => decide_eq_true nofun
    rw [hall]
    exact collectNext_eq hleft hrows (Nat.lt_succ_self _)
  | some ck =>
    let sought : RedbCursor := setKey cursor (utf8 ck)
    have hseek : RedbCursor.Seek (shown s oplogUri) (utf8 ck)
        (sought.searchNear s) := searchNear_seek (c := sought) s rfl
    have hsorted := shown_sorted s oplogUri
    generalize shown s oplogUri = rows at hrows hseek hsorted ⊢
    have hmove : (moveCursor StorageSession.searchNear sought : Eff RedbSession OplogError _) s =
        (.ok (sought.searchNear s), s) := rfl
    refine (bind_of_ok hmove).trans ?_
    generalize sought.searchNear s = near at hseek
    cases hseek with
    | empty c' hnil =>
      rw [hnil]
      rfl
    | found before row after sign c' hshown hbefore hrow hsign hexact hat =>
      subst hshown
      rw [Option.map_some, filter_above hsorted hbefore hrow]
      have hlength : after.length < (before ++ row :: after).length + 1 := by
        rw [length_append, length_cons]
        omega
      by_cases hkey : row.1 = utf8 ck
      · rw [if_pos hkey]
        dsimp only
        rw [if_pos (hexact.mpr hkey).le]
        refine collectNext_eq (hat.left s) (fun r hr => hrows r ?_) hlength
        exact mem_append_right _ (mem_cons_of_mem _ hr)
      · rw [if_neg hkey]
        dsimp only
        have hpos : ¬sign ≤ 0 := fun hle => hkey (hexact.mp (le_antisymm hle hsign))
        rw [if_neg hpos]
        exact collectEntries_eq hat (fun r hr => hrows r (mem_append_right _ hr)) hlength []
    | past row c' hbelow hat =>
      have hnone : rows.filter (fun r => Tail.Above ((some ck).map utf8) r.1) = [] := by
        refine filter_eq_nil_iff.mpr fun r hr h => ?_
        exact lt_asymm (hbelow r hr) ((of_decide_eq_true h) _ rfl)
      rw [hnone]
      exact collectNext_eq (hat.left s) nofun (Nat.succ_pos _)

end

end Smongo
