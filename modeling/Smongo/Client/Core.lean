import Smongo.Collection.Atomicity
import Smongo.Collection.View
import Smongo.Database.Core

/-!
# The local client

A client owns one database and one slot for a transaction that spans collections.
-/

namespace Smongo

open RedbSession

structure TransactionSession where
  inTransaction : Bool
  pendingWrites : OrderedTable String (List PendingWrite)
  /-- Every write the session was asked for, in order.  Not part of the program. -/
  issued : List (String × PendingWrite)

structure LocalClient where
  db : Redb
  txnSlot : Option TransactionSession
  ticks : ℕ

inductive ClientError
  | runtimeError (msg : String)
  | validationError (msg : String)
  | transactionError (msg : String)
  | collectionError (e : CollectionError)
deriving DecidableEq

abbrev ClientOp (α : Type) := Eff LocalClient ClientError α

structure LocalCollection where
  dbName : String
  name : String
  nodeId : Option String := none
  validator : Option Document := none

namespace LocalCollection

variable (coll : LocalCollection)

def oplogTable : String := "__oplog_" ++ coll.dbName ++ "_" ++ coll.name

def handle : Handle :=
  { tableName := coll.name
    collectionName := coll.name
    oplog := some ⟨coll.oplogTable, coll.dbName ++ "." ++ coll.name, coll.nodeId⟩ }

def viewHandle : Handle := { tableName := coll.name, collectionName := coll.name }

end LocalCollection

namespace LocalClient

def session (k : LocalClient) (ts : TransactionSession) : RedbSession :=
  ⟨k.db, ts.inTransaction, ts.pendingWrites, ts.issued⟩

def wireTxnBegin : ClientOp Unit := fun k =>
  match k.txnSlot with
  | some _ => (.error (.runtimeError "transaction already in progress"), k)
  | none =>
    let s := (beginTransaction ⟨k.db, false, .empty, []⟩).2
    (.ok (), { k with txnSlot := some ⟨s.inTransaction, s.pendingWrites, s.issued⟩ })

def wireTxnCommit : ClientOp Unit := fun k =>
  match k.txnSlot with
  | none => (.error (.runtimeError "no transaction in progress"), k)
  | some ts => (.ok (), { k with txnSlot := none, db := (commitTransaction (k.session ts)).2.db })

def wireTxnAbort : ClientOp Unit := fun k =>
  match k.txnSlot with
  | none => (.error (.runtimeError "no transaction in progress"), k)
  | some ts => (.ok (), { k with txnSlot := none, db := (rollbackTransaction (k.session ts)).2.db })

variable (env : Env)

def openEngine (c : Handle) : RedbOp Unit := do
  onSession (StorageSession.createTable c.tableName)
  match c.oplog with
  | some cfg => onSession (StorageSession.createTable cfg.oplogTable)
  | none => pure ()

def engineWorld (k : LocalClient) (coll : LocalCollection) : RedbWorld :=
  (openEngine coll.handle (k.db.world k.ticks)).2

def onEngine {α : Type} (coll : LocalCollection) (m : RedbOp α) : ClientOp α := fun k =>
  match k.txnSlot with
  | some _ => (.error (.runtimeError
      "invalid engine collection access while a multi-document transaction is active"), k)
  | none =>
    let r := m (k.engineWorld coll)
    (r.1.mapError .collectionError, { k with db := r.2.session.db, ticks := r.2.ticks })

def onView {α : Type} (coll : LocalCollection) (ts : TransactionSession) (m : RedbOp α) :
    ClientOp α := fun k =>
  let view : RedbOp α := do
    onSession (StorageSession.createTable coll.viewHandle.tableName)
    m
  let r := view ⟨k.session ts, none, k.ticks, {}⟩
  let s := r.2.session
  (r.1.mapError .collectionError,
    { db := s.db, txnSlot := some ⟨s.inTransaction, s.pendingWrites, s.issued⟩,
      ticks := r.2.ticks })

/-- With a transaction in the slot run the first operation or refuse; otherwise the second. -/
def route {α : Type} (coll : LocalCollection) (refusal : Option String)
    (view engine : RedbOp α) : ClientOp α := fun k =>
  match k.txnSlot with
  | some ts =>
    match refusal with
    | some msg => (.error (.runtimeError msg), k)
    | none => onView coll ts view k
  | none => onEngine coll engine k

def validate (coll : LocalCollection) (doc : Document) : ClientOp Unit :=
  match coll.validator with
  | none => pure ()
  | some schema =>
    if schema.isEmpty then pure ()
    else
      match env.validateDocument doc schema with
      | .ok () => pure ()
      | .error e => Eff.fail (.validationError e)

def inserted : Statement → List Document
  | .insertOne document _ => [document]
  | .insertMany documents _ => documents
  | _ => []

def insertEach (c : Handle) : List Document → RedbOp (List Bson)
  | [] => pure []
  | doc :: rest => do
    let r ← CollectionView.insertOne env c doc
    let ids ← insertEach c rest
    pure (r.insertedId :: ids)

def execView (c : Handle) : Statement → RedbOp Reply
  | .insertOne document _ => do return .insertOne (← CollectionView.insertOne env c document)
  | .insertMany documents _ => do return .insertMany ⟨← insertEach env c documents⟩
  | .updateOne filter update _ => do return .update (← CollectionView.updateOne env c filter update)
  | .updateMany filter update _ => do
    return .update (← CollectionView.updateMany env c filter update)
  | .deleteOne filter _ => do return .delete (← CollectionView.deleteOne env c filter)
  | .deleteMany filter _ => do return .delete (← CollectionView.deleteMany env c filter)

def refusedWrite : Statement → Option String
  | .updateOne _ _ options | .updateMany _ _ options =>
    if options.upsert then some "upsert not supported in multi-document transaction (redb)"
    else none
  | _ => none

def write (coll : LocalCollection) (st : Statement) : ClientOp Reply := do
  (inserted st).forM (validate env coll)
  route coll (refusedWrite st) (execView env coll.viewHandle st) (st.exec env coll.handle)

inductive Query
  | findOne (filter : Document) (projection : Option Document)
  | find (filter : Document) (projection : Option Document)
  /-- The iterator behind the wire's `find` and `distinct`, drained. -/
  | findIter (filter : Document)
  | countDocuments (filter : Document)

inductive Answer
  | document (doc : Option Document)
  | documents (docs : List Document)
  | count (n : ℕ)
deriving DecidableEq

variable (geometry : Geometry)

def projectionOptions : Option Document → Option FindOptions
  | none => none
  | some proj => if proj.isEmpty then none else some { projection := some proj }

def Query.exec (c : Handle) : Query → RedbOp Answer
  | findOne filter projection =>
    match projectionOptions projection with
    | none => do
      return .document (← Smongo.findOne env c (materializeGeoPlan env c geometry) filter)
    | some options => do
      let docs ← findWithOptions env c (materializeGeoPlan env c geometry) filter
        { options with limit := some 1 }
      return .document docs.head?
  | find filter projection =>
    match projectionOptions projection with
    | none => do
      return .documents (← Smongo.find env c (fun plan filter =>
        executePlan env c (materializeGeoPlan env c geometry) filter plan) filter)
    | some options => do
      return .documents (← findWithOptions env c (materializeGeoPlan env c geometry) filter options)
  | findIter filter => do
    return .documents (← Smongo.find env c (fun plan filter =>
      executePlan env c (materializeGeoPlan env c geometry) filter plan) filter)
  | countDocuments filter => do return .count (← Smongo.countDocuments env c filter)

def Query.execView (c : Handle) : Query → RedbOp Answer
  | findOne filter _ => do return .document (← CollectionView.findOne env c filter)
  | find filter _ | findIter filter => do
    return .documents (← CollectionView.find env c filter)
  | countDocuments filter => do return .count (← CollectionView.countDocuments env c filter)

/-- A view has no projections and no iterator. -/
def Query.refused : Query → Option String
  | findOne _ (some _) | find _ (some _) =>
    some "projection not supported in multi-document transaction (redb)"
  | findIter _ =>
    some "invalid engine collection access while a multi-document transaction is active"
  | _ => none

def query (coll : LocalCollection) (q : Query) : ClientOp Answer :=
  route coll q.refused (q.execView env coll.viewHandle) (q.exec env geometry coll.handle)

def onEngineOnly {α : Type} (call : String) (coll : LocalCollection) (m : RedbOp α) :
    ClientOp α := fun k =>
  match k.txnSlot with
  | some _ => (.error (.runtimeError
      (call ++ " not supported during multi-document transaction")), k)
  | none => onEngine coll m k

def createIndex (coll : LocalCollection) (keys : Document) (options : Option IndexOptions) :
    ClientOp String :=
  onEngineOnly "createIndex" coll (Smongo.createIndex env coll.handle keys options)

def dropIndex (coll : LocalCollection) (name : String) : ClientOp Unit :=
  onEngineOnly "dropIndex" coll (Smongo.dropIndex env coll.handle 2 name)

def listIndexes (coll : LocalCollection) : ClientOp (List IndexSpec) :=
  onEngineOnly "listIndexes" coll (Smongo.listIndexes env coll.handle)

end LocalClient

end Smongo
