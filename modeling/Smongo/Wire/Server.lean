import Smongo.Wire.Message

/-!
# The wire server

A connection decodes framed messages and dispatches commands behind a gate.
-/

namespace Smongo

def readCommands : List String :=
  ["find", "count", "distinct", "aggregate", "getMore", "killCursors", "listCollections",
    "listIndexes", "collStats", "dbStats", "serverStatus", "ping", "hello", "ismaster", "isMaster",
    "connectionStatus", "buildInfo", "buildinfo", "hostInfo", "whatsmyuri", "explain", "getLog",
    "getCmdLineOpts", "getFreeMonitoringStatus", "connPoolStats", "features", "listCommands",
    "listDatabases", "replSetGetStatus", "replSetGetConfig", "shardingState", "lockInfo"]

def readWriteCommands : List String :=
  readCommands ++ ["insert", "update", "delete", "findAndModify", "createIndexes", "dropIndexes",
    "deleteIndexes", "create", "drop", "bulkWrite"]

def dbAdminCommands : List String :=
  readCommands ++ ["createIndexes", "dropIndexes", "deleteIndexes", "create", "drop", "collMod",
    "compact", "validate", "reIndex", "renameCollection", "dropDatabase", "fsync", "getParameter",
    "setParameter", "logRotate", "setFreeMonitoring"]

def userAdminCommands : List String :=
  ["createUser", "dropUser", "updateUser", "usersInfo", "grantRolesToUser", "revokeRolesFromUser",
    "rolesInfo"]

def dbOwnerCommands : List String := readWriteCommands ++ dbAdminCommands ++ userAdminCommands

/-- `none` stands for every command. -/
def commandsForRole : String → Option (List String)
  | "read" => some readCommands
  | "readWrite" => some readWriteCommands
  | "dbAdmin" => some dbAdminCommands
  | "userAdmin" => some userAdminCommands
  | "dbOwner" => some dbOwnerCommands
  | "root" => none
  | _ => some []

def checkPrivilege : List (String × String) → String → String → Bool
  | [], _, _ => false
  | (roleName, roleDb) :: roles, command, targetDb =>
    if roleName = "root" ∧ roleDb = "admin" then true
    else if ¬ (roleDb = targetDb ∨ roleDb = "*") then checkPrivilege roles command targetDb
    else
      match commandsForRole roleName with
      | none => true
      | some allowed => if command ∈ allowed then true else checkPrivilege roles command targetDb

/-- A command that was handed to its handler, and who the connection was at that moment. -/
structure Dispatch where
  command : String
  db : String
  user : Option String
  roles : List (String × String)
deriving DecidableEq

/-- A connection.  `rest` is the state of the handlers, `sent` what was written to the stream, and
`dispatched` a ghost history. -/
structure WireState (ρ : Type) where
  ctx : ConnectionContext
  rest : ρ
  reqIdGen : ℤ
  logicalClock : ℕ
  sent : List Bytes
  dispatched : List Dispatch

abbrev Wire (ρ α : Type) := Eff (WireState ρ) PyErr α

abbrev Handler (ρ : Type) := Document → Document → Eff (ConnectionContext × ρ) PyErr Document

structure ServerEnv extends WireEnv, FramingEnv where
  extractF64 : Bson → Option F64
  epochSecs : ℕ → UInt32
  /-- The exception types are registered from Python. -/
  mapHandlerError : String → PyErr → Outcome PyErr Document

/-- The registries behave as one table, in which native handlers come before Python handlers. -/
structure Server (ρ : Type) extends ServerEnv where
  handlers : String → Option (Handler ρ)
  touchSession : Bson → Eff ρ PyErr Unit
  authRequired : Bool

namespace WireState

variable {ρ : Type}

def new (rest : ρ) : WireState ρ := ⟨.new, rest, 1, 0, [], []⟩

def nextId : Wire ρ Int32 := do
  let n ← Eff.read reqIdGen
  Eff.modify fun s => { s with reqIdGen := n + 1 }
  pure (Int32.ofInt n)

def withHandler {α : Type} (m : Eff (ConnectionContext × ρ) PyErr α) : Wire ρ α :=
  Eff.zoom (fun s => (s.ctx, s.rest)) (fun (ctx, rest) s => { s with ctx, rest }) m

end WireState

open WireState Eff

section

variable {ρ : Type} (server : Server ρ)

def authExemptCommands : List String :=
  ["hello", "ismaster", "isMaster", "ping", "saslStart", "saslContinue", "logout", "buildInfo",
    "buildinfo", "whatsmyuri", "getnonce", "connectionStatus"]

/-- There is no body if a message has no section of kind 0. -/
def firstDictKey : Option Document → String
  | some ((key, _) :: _) => key
  | _ => ""

variable (body : Option Document)

def targetDb : String :=
  match body with
  | some d => dictGetStr server.toWireEnv d "$db" "test"
  | none => "test"

def authRejection (ctx : ConnectionContext) (body : Option Document) : Option String :=
  let cmdName := firstDictKey body
  if cmdName ∈ authExemptCommands then none
  else if ctx.authenticatedUser.isNone then some "command requires authentication"
  else if ¬ checkPrivilege ctx.authenticatedRoles cmdName (targetDb server body) then
    some ("not authorized on " ++ targetDb server body ++ " to execute command " ++ cmdName)
  else none

def replyMsg (responseTo : Int32) (doc : Document) : Wire ρ Bytes := do
  let respId ← nextId
  ofOutcome (encodeMsg server.toFramingEnv respId responseTo doc)

def checkAuthGate (requestId : Int32) : Wire ρ (Option Bytes) := do
  let ctx ← read WireState.ctx
  match authRejection server ctx body with
  | none => pure none
  | some message => do pure (some (← replyMsg server requestId (makeError "Unauthorized" message)))

def stampReply (resp : Document) : Wire ρ Document := do
  modify fun s => { s with logicalClock := s.logicalClock + 1 }
  let inc ← read WireState.logicalClock
  let ts := Bson.timestamp (server.epochSecs inc) (UInt32.ofNat inc)
  let signature : Document := [("hash", .binary 0 (List.replicate 20 0)), ("keyId", .int64 0)]
  pure (Document.insert (resp.insert "operationTime" ts) "$clusterTime"
    (.document [("clusterTime", ts), ("signature", .document signature)]))

def callHandler (cmdName : String) (handler : Handler ρ) (command sequences : Document) :
    Wire ρ Document := do
  modify fun s => { s with dispatched := s.dispatched ++ [{
    command := cmdName
    db := dictGetStr server.toWireEnv command "$db" "test"
    user := s.ctx.authenticatedUser
    roles := s.ctx.authenticatedRoles }] }
  match ← attempt (withHandler (handler command sequences)) with
  | .ok resp => pure resp
  | .error err => ofOutcome (server.mapHandlerError cmdName err)

def withDb (command : Document) : Document :=
  if (command.get "$db").isNone then command.insert "$db" (.string "test")
  else command

def touchLsid (command : Document) : Wire ρ Unit :=
  match pyGet command "lsid" with
  | none => pure ()
  | some lsid => zoom WireState.rest (fun rest s => { s with rest }) (server.touchSession lsid)

def rsDispatch (command sequences : Document) : Wire ρ Document := do
  let command := withDb command
  touchLsid server command
  match command with
  | [] => pure (makeError "CommandNotFound" "empty command document")
  | (cmdName, _) :: _ =>
    match server.handlers cmdName with
    | none => pure (makeError "CommandNotFound" ("no such command: '" ++ cmdName ++ "'"))
    | some handler => do
      stampReply server (← callHandler server cmdName handler command sequences)

/-- The gate, and behind it the dispatcher; the reply is to be framed, unless the gate has
framed one. -/
def gateAndDispatch (sequences : Document) (requestId : Int32) :
    Wire ρ (Except Bytes Document) := do
  let reject ← if server.authRequired then checkAuthGate server body requestId else pure none
  match reject with
  | some reject => pure (.error reject)
  | none =>
    match body with
    | none => fail .typeError
    | some command => do pure (.ok (← rsDispatch server command sequences))

def handleMsg (data : Bytes) : Wire ρ (Option Bytes) := do
  match ← attempt (ofOutcome (decodeMsg server.toFramingEnv data)) with
  | .error _ => do
    pure (some (← replyMsg server 0 (makeError "InternalError" "OP_MSG decode error")))
  | .ok (header, flags, body, sequences) => do
    match ← gateAndDispatch server body sequences header.requestId with
    | .error reject => pure (some reject)
    | .ok response =>
      let moreToCome := flags.testBit 1
      if moreToCome then pure none
      else do
        let bytes ← replyMsg server header.requestId response
        match ← read (·.ctx.compressorId) with
        | none => pure (some bytes)
        | some cid => do
          pure (some (← ofOutcome (encodeCompressed server.toFramingEnv bytes cid)))

def helloCmd : Document :=
  [("hello", .int32 1), ("helloOk", .boolean true), ("$db", .string "admin")]

def isHandshake (queryDoc : Document) : Bool :=
  ["isMaster", "ismaster", "hello"].any fun k => (pyGet queryDoc k).isSome

def dispatchQuery (queryDoc : Document) (requestId : Int32) : Wire ρ (Except Bytes Document) :=
  if isHandshake queryDoc then do pure (.ok (← rsDispatch server helloCmd []))
  else gateAndDispatch server (some queryDoc) [] requestId

def handleQuery (data : Bytes) : Wire ρ (Option Bytes) := do
  let (header, queryDoc) ← ofOutcome (decodeQuery server.toFramingEnv data)
  match ← dispatchQuery server queryDoc header.requestId with
  | .error reject => pure (some reject)
  | .ok response => do
    let respId ← nextId
    let okZero := ((response.get "ok").bind server.extractF64).any (·.eq .zero)
    pure (some (← ofOutcome (encodeReply server.toFramingEnv respId header.requestId response
      (if okZero then 2 else 0))))

/-- `depth` bounds the nesting of compressed messages, as the stack does. -/
def handleMessage : ℕ → Bytes → Int32 → Wire ρ (Option Bytes)
  | 0, _, _ => ofOutcome .panic
  | depth + 1, data, opCode =>
    if opCode = opMsg then handleMsg server data
    else if opCode = opCompressed then do
      match ← attempt (ofOutcome (decodeCompressed server.toFramingEnv data)) with
      | .error _ => do
        pure (some (← replyMsg server 0 (makeError "InternalError" "OP_COMPRESSED decode error")))
      | .ok inner => do
        let innerOp ← ofOutcome (readI32 inner 12)
        handleMessage depth inner innerOp
    else if opCode = opQuery then handleQuery server data
    else do
      pure (some (← replyMsg server 0
        (makeError "CommandNotSupported" ("unsupported opcode: " ++ toString opCode.toInt))))

def serveMessage (depth : ℕ) (data : Bytes) : Wire ρ Unit := do
  let opCode ← ofOutcome (readI32 data 12)
  match ← attempt (handleMessage server depth data opCode) with
  | .ok (some resp) => modify fun s => { s with sent := s.sent ++ [resp] }
  | _ => pure ()

/-- All complete messages in the buffer, and what is left of it unless the connection is closed. -/
def serveBuffer (depth : ℕ) : ℕ → Bytes → Wire ρ (Option Bytes)
  | 0, _ => ofOutcome .panic
  | fuel + 1, buf =>
    if buf.length < 4 then pure (some buf)
    else do
      let msgLen ← ofOutcome (readU32 buf 0)
      if ¬ (headerSize ≤ msgLen ∧ msgLen ≤ maxMsgSize) then pure none
      else if buf.length < msgLen then pure (some buf)
      else do
        serveMessage server depth (buf.take msgLen)
        serveBuffer depth fuel (buf.drop msgLen)

/-- The bytes arrive in chunks, which need not be messages. -/
def connectionLoop (depth : ℕ) : List Bytes → Bytes → Wire ρ Unit
  | [], _ => pure ()
  | chunk :: chunks, buf => do
    let buf := buf ++ chunk
    match ← serveBuffer server depth (buf.length + 1) buf with
    | none => pure ()
    | some buf => connectionLoop depth chunks buf

end

end Smongo
