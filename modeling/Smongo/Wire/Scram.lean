import Smongo.Bson.Value
import Smongo.Lib.Effect
import Smongo.Lib.Strings

/-!
# SCRAM-SHA-256

The server side of a SCRAM conversation, over given hash functions.
-/

namespace Smongo

/-- What the `hmac`, `sha2` and `base64` crates provide. -/
structure Crypto where
  hmacSha256 : Bytes → Bytes → Bytes
  sha256 : Bytes → Bytes
  encode : Bytes → String
  decode : String → Option Bytes

structure ScramCredential where
  salt : Bytes
  storedKey : Bytes
  serverKey : Bytes
  iterationCount : ℕ
deriving DecidableEq

structure ScramConversation where
  username : String
  serverNonce : String
  clientFirstBare : String
  serverFirst : String
  storedKey : Bytes
  serverKey : Bytes
deriving DecidableEq

def splitComma (s : String) : List String := (s.toList.splitOnP (· = ',')).map String.ofList

def attributes (msg key : String) : List String :=
  (splitComma msg).filterMap fun attr => stripPrefix attr key

def beforeLast (pat : List Char) : List Char → Option (List Char)
  | [] => none
  | c :: cs =>
    match beforeLast pat cs with
    | some before => some (c :: before)
    | none => if pat.isPrefixOf (c :: cs) then some [] else none

variable (crypto : Crypto)

def parseUsername (payload : Bytes) : Except String String :=
  match payload.ofUtf8 with
  | none => .error "invalid UTF-8 in client-first-message"
  | some msg =>
    match stripPrefix msg "n,," with
    | none => .error "invalid gs2-header in client-first-message"
    | some bare =>
      match (attributes bare "n=").head? with
      | some username => .ok username
      | none => .error "missing n= (username) in client-first-message"

namespace ScramConversation

/-- `random` are the bytes of the nonce of the server.  Later attributes overwrite earlier ones. -/
def fromClientFirst (payload : Bytes) (credential : ScramCredential) (random : Bytes) :
    Except String ScramConversation :=
  match payload.ofUtf8 with
  | none => .error "invalid UTF-8 in client-first-message"
  | some msg =>
    match stripPrefix msg "n,,", stripPrefix msg "p=" with
    | some bare, _ =>
      match (attributes bare "n=").getLast?, (attributes bare "r=").getLast? with
      | none, _ => .error "missing n= (username) in client-first-message"
      | some _, none => .error "missing r= (nonce) in client-first-message"
      | some username, some clientNonce =>
        let combinedNonce := clientNonce ++ crypto.encode random
        .ok {
          username
          serverNonce := combinedNonce
          clientFirstBare := bare
          serverFirst := "r=" ++ combinedNonce ++ ",s=" ++ crypto.encode credential.salt ++
            ",i=" ++ toString credential.iterationCount
          storedKey := credential.storedKey
          serverKey := credential.serverKey }
    | none, some rest => .error ("channel binding not supported: p=" ++ rest)
    | none, none => .error "invalid gs2-header in client-first-message"

variable (conv : ScramConversation)

def serverFirstMessage : Bytes := Bytes.utf8 conv.serverFirst

def verifyClientFinal (payload : Bytes) : Except String Bytes :=
  match payload.ofUtf8 with
  | none => .error "invalid UTF-8 in client-final-message"
  | some msg =>
    match (attributes msg "c=").getLast?, (attributes msg "r=").getLast?,
        (attributes msg "p=").getLast? with
    | none, _, _ => .error "missing c= in client-final-message"
    | some _, none, _ => .error "missing r= in client-final-message"
    | some _, some _, none => .error "missing p= in client-final-message"
    | some _, some receivedNonce, some proofB64 =>
      if receivedNonce ≠ conv.serverNonce then .error "nonce mismatch"
      else
        match beforeLast ",p=".toList msg.toList with
        | none => .error "malformed client-final-message"
        | some withoutProof =>
          let authMessage := Bytes.utf8 (conv.clientFirstBare ++ "," ++ conv.serverFirst ++
            "," ++ String.ofList withoutProof)
          let clientSignature := crypto.hmacSha256 conv.storedKey authMessage
          match crypto.decode proofB64 with
          | none => .error "invalid base64 in client proof"
          | some clientProof =>
            if clientProof.length ≠ 32 then .error "client proof wrong length"
            else
              let recoveredClientKey := clientProof.zipWith (· ^^^ ·) clientSignature
              if crypto.sha256 recoveredClientKey ≠ conv.storedKey then
                .error "authentication failed"
              else
                let serverSignature := crypto.hmacSha256 conv.serverKey authMessage
                .ok (Bytes.utf8 ("v=" ++ crypto.encode serverSignature))

def under (credential : ScramCredential) : ScramConversation :=
  { conv with storedKey := credential.storedKey, serverKey := credential.serverKey }

variable {crypto}

lemma under_of_fromClientFirst {payload random : Bytes} {credential : ScramCredential}
    {conv : ScramConversation} (h : fromClientFirst crypto payload credential random = .ok conv) :
    conv.under credential = conv := by
  unfold fromClientFirst at h
  split at h
  · cases h
  · split at h
    · split at h <;> cases h
      rfl
    · cases h
    · cases h

end ScramConversation

end Smongo
