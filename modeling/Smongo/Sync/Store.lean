import Smongo.Bson.Value
import Smongo.Lib.OrderedTable
import Smongo.Lib.Process
import Mathlib.Algebra.Order.Ring.Rat
import Mathlib.Data.String.Basic

/-!
# What the sync manager reads and writes

The sync manager keeps checkpoints and the dead-letter queue, and calls the remote server.
-/

namespace Smongo

open Function

/-- One of the `writeErrors` of a bulk write. -/
structure WriteError where
  index : Option ℕ
  code : Option ℤ
  errmsg : String

inductive PyError
  | bulkWriteError (writeErrors : List WriteError)
  | pyMongoError (text : String)
  | osError (text : String)
  | keyError (text : String)
  | typeError (text : String)
  | runtimeError (text : String)
  | attributeError (text : String)
  | exception (text : String)

namespace PyError

def text : PyError → String
  | bulkWriteError _ => "batch op errors occurred"
  | pyMongoError t | osError t | keyError t | typeError t | runtimeError t | attributeError t
  | exception t => t

def isPyMongo : PyError → Bool
  | bulkWriteError _ | pyMongoError _ => true
  | _ => false

def isOs : PyError → Bool
  | osError _ => true
  | _ => false

def isKeyOrType : PyError → Bool
  | keyError _ | typeError _ => true
  | _ => false

def isLookup : PyError → Bool
  | keyError _ | typeError _ | runtimeError _ => true
  | _ => false

def isStorage : PyError → Bool
  | keyError _ | runtimeError _ | osError _ => true
  | _ => false

end PyError

structure PyEntry where
  op : String
  docId : Bson
  payload : Option Document
  ts : F64
  internal : Bool := false

structure DlqRow where
  ns : String
  entry : PyEntry
  errorCode : Option ℤ
  errorMsg : String
  retryCount : ℕ
  nextRetryTs : Option ℚ
  firstFailedTs : ℚ
  permanentlyFailed : Bool

inductive BulkOp
  | insertOne (doc : Document)
  | updateOne (id : Bson) (update : Document)
  | deleteOne (id : Bson)

/-- Where an operation comes from: the oplog, or a row of the dead-letter queue. -/
inductive OpSource
  | oplog (key : String)
  | letter (key : String)

inductive OutsideCall
  | now
  | letterKey
  | oldestKey (ns : String)
  | getById (ns : String) (id : Bson)
  | markDeleted (id : Bson)
  | createIndex (ns : String) (definition : Document)
  | dropIndex (ns : String) (name : Bson)
  | pushIndexDefs (ns : String)
  | findRemote (ns : String) (id : Bson)
  | updateLocal (ns : String) (id : Bson) (fields : Document)
  | deleteLocal (ns : String) (id : Bson)
  | clearLocal (ns : String)
  | pullAll (ns : String)

def OutsideCall.Reply : OutsideCall → Type
  | now => ℚ
  | letterKey => String
  | oldestKey _ => Option String
  | getById _ _ | findRemote _ _ => Option Document
  | markDeleted _ | createIndex _ _ | dropIndex _ _ | pushIndexDefs _ | updateLocal _ _ _
  | deleteLocal _ _ | clearLocal _ | pullAll _ => Unit

inductive SyncCall
  | getCheckpoint (name : String)
  | setCheckpoint (name value : String)
  | removeCheckpoint (name : String)
  | checkpointTruncate (name ns safeKey : String)
  | readFrom (ns : String) (checkpoint : Option String)
  | dlqScan
  | dlqEnqueue (key : String) (row : DlqRow) (origin : String × PyEntry)
  | dlqUpdate (key : String) (row : DlqRow)
  | dlqRemove (key : String)
  | bulkWrite (ns : String) (ops : List BulkOp) (sources : List OpSource)
  | exclude (ns key : String)
  | outside (c : OutsideCall)

def SyncCall.Reply : SyncCall → Type
  | getCheckpoint _ => Option String
  | readFrom _ _ => List (String × PyEntry)
  | dlqScan => List (String × Option DlqRow)
  | outside c => c.Reply
  | _ => Unit

structure SyncStore (ρ : Type) where
  oplog : String → OrderedTable String PyEntry
  checkpoints : String → Option String
  /-- The rows of the dead-letter queue, without content where the text is no JSON. -/
  dlq : OrderedTable String (Option DlqRow)
  outside : ρ
  /-- Everything that was ever in the oplog. -/
  logged : String → List (String × PyEntry)
  /-- The checkpoints before the push cycle and the keys that it has read. -/
  passed : String → List String
  /-- The namespaces and keys of the entries that a bulk write has reported successful. -/
  reported : List (String × String)
  /-- The namespaces and keys of the entries that a filter has excluded. -/
  excluded : List (String × String)
  /-- The namespace and the entry for which a row was enqueued. -/
  issued : String → Option (String × String × PyEntry)

/-- The world around the sync manager. -/
structure Outside (χ ρ : Type) where
  /-- The error of an access to the local database. -/
  fault : χ → Option PyError
  bulkWrite : χ → String → List BulkOp → ρ → Except PyError Unit × ρ
  answer : (c : OutsideCall) → χ → ρ → Except PyError c.Reply × ρ

/-- The reader compares with `>`, and the truncation removes what is strictly smaller. -/
def entriesAfter (checkpoint : Option String) (t : OrderedTable String PyEntry) :
    List (String × PyEntry) :=
  t.rows.filter fun r => checkpoint.all (· < r.1) && !r.2.internal

def truncateBefore (safeKey : String) (t : OrderedTable String PyEntry) :
    OrderedTable String PyEntry where
  rows := t.rows.filter fun r => safeKey ≤ r.1
  sorted := t.sorted.filter _

/-- The operations that a bulk write reports successful: those that no write error names. -/
def succeeded {α : Type} (outcome : Except PyError Unit) (items : List α) : List α :=
  match outcome with
  | .ok _ => items
  | .error (.bulkWriteError errors) =>
    if errors.all fun e => e.index.isSome then
      (items.zipIdx.filter fun p => errors.all fun e => e.index ≠ some p.2).map Prod.fst
    else []
  | .error _ => []

namespace SyncStore

variable {χ ρ : Type}

def originOf (s : SyncStore ρ) (ns : String) : OpSource → Option (String × String)
  | .oplog key => some (ns, key)
  | .letter key => (s.issued key).map fun origin => (origin.1, origin.2.1)

def access {α : Type} (o : Outside χ ρ) (x : χ) (s s' : SyncStore ρ) (value : α) :
    Except PyError α × SyncStore ρ :=
  match o.fault x with
  | some e => (.error e, s)
  | none => (.ok value, s')

def answer (o : Outside χ ρ) :
    (c : SyncCall) → χ → SyncStore ρ → Except PyError c.Reply × SyncStore ρ
  | .getCheckpoint name, x, s => access o x s s (s.checkpoints name)
  | .setCheckpoint name value, x, s =>
    access o x s { s with checkpoints := update s.checkpoints name (some value) } ()
  | .removeCheckpoint name, x, s =>
    access o x s { s with checkpoints := update s.checkpoints name none } ()
  | .checkpointTruncate name ns safeKey, x, s =>
    access o x s { s with
      checkpoints := update s.checkpoints name (some safeKey)
      oplog := update s.oplog ns (truncateBefore safeKey (s.oplog ns)) } ()
  | .readFrom ns checkpoint, x, s =>
    let entries := entriesAfter checkpoint (s.oplog ns)
    access o x s
      { s with passed := update s.passed ns (s.passed ns ++ entries.map Prod.fst) } entries
  | .dlqScan, x, s => access o x s s s.dlq.rows
  | .dlqEnqueue key row origin, x, s =>
    access o x s { s with
      dlq := s.dlq.insert key (some row)
      issued := update s.issued key (some (row.ns, origin)) } ()
  | .dlqUpdate key row, x, s => access o x s { s with dlq := s.dlq.insert key (some row) } ()
  | .dlqRemove key, x, s => access o x s { s with dlq := s.dlq.erase key } ()
  | .bulkWrite ns ops sources, x, s =>
    let out := o.bulkWrite x ns ops s.outside
    (out.1, { s with
      outside := out.2
      reported := s.reported ++ (succeeded out.1 sources).filterMap (s.originOf ns) })
  | .exclude ns key, _, s => (.ok (), { s with excluded := s.excluded ++ [(ns, key)] })
  | .outside c, x, s =>
    ((o.answer c x s.outside).1, { s with outside := (o.answer c x s.outside).2 })

def append (s : SyncStore ρ) (ns key : String) (entry : PyEntry) (outside : ρ) : SyncStore ρ where
  oplog := update s.oplog ns ((s.oplog ns).insert key entry)
  logged := update s.logged ns (s.logged ns ++ [(key, entry)])
  passed := s.passed
  checkpoints := s.checkpoints
  dlq := s.dlq
  outside := outside
  reported := s.reported
  excluded := s.excluded
  issued := s.issued

section

variable (s : SyncStore ρ) {ns ns' key : String} {entry : PyEntry} {outside : ρ}

lemma append_oplog_self :
    (s.append ns key entry outside).oplog ns = (s.oplog ns).insert key entry :=
  update_self ..

lemma append_oplog_of_ne (h : ns' ≠ ns) :
    (s.append ns key entry outside).oplog ns' = s.oplog ns' :=
  update_of_ne h ..

lemma append_logged_self :
    (s.append ns key entry outside).logged ns = s.logged ns ++ [(key, entry)] :=
  update_self ..

lemma append_logged_of_ne (h : ns' ≠ ns) :
    (s.append ns key entry outside).logged ns' = s.logged ns' :=
  update_of_ne h ..

end

end SyncStore

end Smongo
