import Smongo.Wire.Scram

/-!
# Authentication of a connection

`saslStart` looks a user up; `saslContinue` verifies a proof, in the database that it names
itself.
-/

namespace Smongo

open Eff

/-- What the Python interpreter and the crates provide: conversions and cryptography. -/
structure WireEnv extends Crypto where
  extractString : Bson → Option String
  extractBytes : Bson → Option Bytes
  extractU32 : Bson → Option ℕ

inductive PyErr
  | runtimeError (message : String)
  | typeError
  | keyError
  | attributeError
  | protocolError (message : String)
deriving DecidableEq

def lookupError : String → Int32 × String
  | "InternalError" => (1, "InternalError")
  | "Unauthorized" => (13, "Unauthorized")
  | "AuthenticationFailed" => (18, "AuthenticationFailed")
  | "CommandNotFound" => (59, "CommandNotFound")
  | "CommandNotSupported" => (115, "CommandNotSupported")
  | _ => (1, "InternalError")

def makeError (name message : String) : Document :=
  [("ok", .int32 0), ("errmsg", .string message), ("code", .int32 (lookupError name).1),
    ("codeName", .string (lookupError name).2)]

def okDict : Document := [("ok", .double (F64.ofInt 1))]

def saslReply (done : Bool) (payload : Bytes) : Document :=
  [("conversationId", .int32 1), ("done", .boolean done), ("payload", .binary 0 payload),
    ("ok", .double (F64.ofInt 1))]

/-- What the handshake and the framing of replies read and write of the `ConnectionContext`. -/
structure ConnectionContext where
  compressorId : Option Int32
  authenticatedUser : Option String
  authenticatedDb : Option String
  authenticatedRoles : List (String × String)
  scramConversation : Option ScramConversation
deriving DecidableEq

def ConnectionContext.new : ConnectionContext := ⟨none, none, none, [], none⟩

abbrev UserStore := String → Option Document

abbrev Handshake (α : Type) := Eff ConnectionContext PyErr α

section

variable (env : WireEnv)

/-- `default` also stands for a value that is no string. -/
def dictGetStr (cmd : Document) (key default : String) : String :=
  ((cmd.get key).bind env.extractString).getD default

/-- Python's `dict.get`, for which a null counts as missing. -/
def pyGet (d : Document) (key : String) : Option Bson :=
  match d.get key with
  | some .null => none
  | v => v

def requiredItem {α : Type} (extract : Bson → Option α) (d : Bson) (key : String) :
    Outcome PyErr α :=
  match d with
  | .document d =>
    match Document.get d key with
    | none => .error .keyError
    | some v =>
      match extract v with
      | some a => .ok a
      | none => .error .typeError
  | _ => .error .typeError

def decodeKey (what : String) (text : String) : Outcome PyErr Bytes :=
  match env.decode text with
  | some bytes => .ok bytes
  | none => .error (.runtimeError ("invalid " ++ what ++ " base64"))

def extractScramCredential (cred : Bson) : Outcome PyErr ScramCredential := do
  let saltB64 ← requiredItem env.extractString cred "salt"
  let storedKeyB64 ← requiredItem env.extractString cred "storedKey"
  let serverKeyB64 ← requiredItem env.extractString cred "serverKey"
  let iterationCount ← requiredItem env.extractU32 cred "iterationCount"
  let salt ← decodeKey env "salt" saltB64
  let storedKey ← decodeKey env "storedKey" storedKeyB64
  let serverKey ← decodeKey env "serverKey" serverKeyB64
  if storedKey.length ≠ 32 ∨ serverKey.length ≠ 32 then
    .error (.runtimeError "stored/server key must be 32 bytes")
  else .ok ⟨salt, storedKey, serverKey, iterationCount⟩

def userCredential (userDoc : Document) : Outcome PyErr (Except String ScramCredential) :=
  match pyGet userDoc "credentials" with
  | none => .ok (.error "user has no credentials")
  | some (.document creds) =>
    match pyGet creds "SCRAM-SHA-256" with
    | none => .ok (.error "user has no SCRAM-SHA-256 credentials")
    | some cred => do .ok (.ok (← extractScramCredential env cred))
  | some _ => .error .attributeError

def saslPayload (cmd : Document) : Outcome PyErr (Option Bytes) :=
  match cmd.get "payload" with
  | none => .ok none
  | some v =>
    match env.extractBytes v with
    | some payload => .ok (some payload)
    | none => .error .typeError

def scramResult {α : Type} : Except String α → Outcome PyErr α
  | .ok a => .ok a
  | .error e => .error (.runtimeError e)

def userKey (dbName username : String) : String := dbName ++ "." ++ username

variable (store : UserStore)

/-- The conversation that a `saslStart` begins, with the user it looks up, or the reply instead. -/
def startConversation (random : Bytes) (cmd : Document) :
    Outcome PyErr (Except Document (ScramConversation × Document)) :=
  let mechanism := dictGetStr env cmd "mechanism" ""
  if mechanism ≠ "SCRAM-SHA-256" then
    .ok (.error (makeError "AuthenticationFailed" ("unsupported SASL mechanism: " ++ mechanism)))
  else do
    match ← saslPayload env cmd with
    | none => .ok (.error (makeError "AuthenticationFailed" ("saslStart requires a payload; " ++
        "connect without credentials if authentication is not needed")))
    | some payload => do
      let dbName := dictGetStr env cmd "$db" "admin"
      let username ← scramResult (parseUsername payload)
      match store (userKey dbName username) with
      | none => .ok (.error (makeError "AuthenticationFailed"
          ("user \"" ++ username ++ "\" not found in \"" ++ dbName ++ "\"")))
      | some userDoc => do
        match ← userCredential env userDoc with
        | .error message => .ok (.error (makeError "AuthenticationFailed" message))
        | .ok credential => do
          let conversation ← scramResult
            (ScramConversation.fromClientFirst env.toCrypto payload credential random)
          .ok (.ok (conversation, userDoc))

def cmdSaslStart (random : Bytes) (cmd : Document) : Handshake Document := do
  match ← ofOutcome (startConversation env store random cmd) with
  | .error reply => pure reply
  | .ok (conversation, _) => do
    modify fun ctx => { ctx with scramConversation := some conversation }
    pure (saslReply false conversation.serverFirstMessage)

def rolePair (dbName : String) : Bson → Outcome PyErr (Option (String × String))
  | .document d => do
    let role ← match Document.get d "role" with
      | none => .ok ""
      | some v => match env.extractString v with
        | some s => .ok s
        | none => .error .typeError
    let db ← match Document.get d "db" with
      | none => .ok ""
      | some v => match env.extractString v with
        | some s => .ok s
        | none => .error .typeError
    .ok (if role = "" then none else some (role, db))
  | item =>
    match env.extractString item with
    | some s => .ok (if s = "" then none else some (s, dbName))
    | none => .ok none

def rolePairs (dbName : String) : List Bson → Outcome PyErr (List (String × String))
  | [] => .ok []
  | item :: rest => do
    let pair ← rolePair env dbName item
    let pairs ← rolePairs dbName rest
    .ok (pair.toList ++ pairs)

def userRoles (dbName : String) (userDoc : Option Document) :
    Outcome PyErr (List (String × String)) :=
  match userDoc.bind (Document.get · "roles") with
  | some (.array items) => rolePairs env dbName items
  | _ => .ok []

/-- The user and the database are set before the roles are read. -/
def authenticate (dbName username : String) : Handshake Unit := do
  modify fun ctx => { ctx with
    authenticatedUser := some username
    authenticatedDb := some dbName }
  let roles ← ofOutcome (userRoles env dbName (store (userKey dbName username)))
  modify fun ctx => { ctx with authenticatedRoles := roles }

/-- The conversation is over, whatever the proof. -/
def cmdSaslContinue (cmd : Document) : Handshake Document := do
  match ← ofOutcome (saslPayload env cmd) with
  | none => fail (.runtimeError "saslContinue missing payload")
  | some payload => do
    let dbName := dictGetStr env cmd "$db" "admin"
    let conversation ← read ConnectionContext.scramConversation
    modify fun ctx => { ctx with scramConversation := none }
    match conversation with
    | none => pure (makeError "AuthenticationFailed" "no active SCRAM conversation")
    | some conversation =>
      match conversation.verifyClientFinal env.toCrypto payload with
      | .error e => pure (makeError "AuthenticationFailed" ("SCRAM verification failed: " ++ e))
      | .ok serverFinal => do
        authenticate env store dbName conversation.username
        pure (saslReply true serverFinal)

def cmdLogout : Handshake Document := do
  modify fun ctx => { ctx with
    authenticatedUser := none
    authenticatedDb := none
    authenticatedRoles := [] }
  pure okDict

end

end Smongo
