import Smongo.Oplog.Entry

/-!
# Change streams

A hub keeps the change streams that want to hear of new oplog entries.
-/

namespace Smongo

structure ChangeEvent where
  operationType : String
  db : String
  coll : String
  documentKey : Document
  ts : F64
  fullDocument : Option Json

/-- A stream as the hub sees it.  `id` stands for the address of the stream. -/
structure ChangeStream where
  id : ℕ
  ns : Option String := none
  filter : Option (ChangeEvent → Bool) := none
  queue : List ChangeEvent := []
  closed : Bool := false

def splitNamespace (ns : String) : String × String :=
  (String.ofList (ns.toList.takeWhile (· ≠ '.')),
    String.ofList ((ns.toList.dropWhile (· ≠ '.')).drop 1))

def OplogEntry.changeEvent (entry : OplogEntry) : Option ChangeEvent :=
  if entry.op ∈ ["insert", "update", "delete", "replace"] then
    some
      { operationType := entry.op
        db := (splitNamespace entry.ns).1
        coll := (splitNamespace entry.ns).2
        documentKey := [("_id", jsonToBsonValue entry.docId)]
        ts := entry.ts
        fullDocument := if entry.op = "delete" then none else entry.payload }
  else none

namespace ChangeStream

variable (stream : ChangeStream)

def accepts (event : ChangeEvent) : Bool :=
  match stream.filter with
  | some filter => filter event
  | none => true

def enqueueEntry (entry : OplogEntry) : Option ChangeStream :=
  match entry.changeEvent with
  | none => some stream
  | some event =>
    if ¬stream.accepts event then some stream
    else if stream.closed then none
    else some { stream with queue := stream.queue ++ [event] }

def Hears (ns : String) : Prop := ∀ ns' ∈ stream.ns, ns' = "" ∨ ns' = ns

instance (ns : String) : Decidable (stream.Hears ns) :=
  inferInstanceAs (Decidable (∀ ns' ∈ stream.ns, _))

end ChangeStream

structure OplogHub where
  listeners : List ChangeStream := []

namespace OplogHub

variable (hub : OplogHub)

def register (listener : ChangeStream) : OplogHub := ⟨hub.listeners ++ [listener]⟩

def notify (entry : OplogEntry) : OplogHub :=
  ⟨hub.listeners.filterMap fun l => if l.Hears entry.ns then l.enqueueEntry entry else some l⟩

end OplogHub

end Smongo
