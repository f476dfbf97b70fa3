import Smongo.Wire.Handshake

/-!
# Whom a connection is authenticated as

A connection becomes a user when a proof verifies.
-/

namespace Smongo

open Eff List Outcome

section

variable (env : WireEnv) (store : UserStore)

inductive SaslMessage
  | saslStart (random : Bytes) (cmd : Document)
  | saslContinue (cmd : Document)
  | logout

def SaslMessage.exec : SaslMessage → Handshake Document
  | saslStart random cmd => cmdSaslStart env store random cmd
  | saslContinue cmd => cmdSaslContinue env store cmd
  | logout => cmdLogout

def ConnectionContext.step (ctx : ConnectionContext) (msg : SaslMessage) : ConnectionContext :=
  (msg.exec env store ctx).2

variable {env store} {ctx : ConnectionContext}

lemma scramResult_eq_ok {α : Type} {r : Except String α} {a : α}
    (h : scramResult r = .ok a) : r = .ok a := by
  cases r <;> cases h
  rfl

lemma startConversation_eq_ok {random : Bytes} {cmd doc : Document} {conv : ScramConversation}
    (h : startConversation env store random cmd = .ok (.ok (conv, doc))) :
    ∃ key cred, store key = some doc ∧ userCredential env doc = .ok (.ok cred) ∧
      conv.under cred = conv := by
  unfold startConversation at h
  dsimp only at h
  split at h
  · cases h
  · obtain ⟨payload | _, hpayload, h⟩ := bind_eq_ok.mp h
    · cases h
    · obtain ⟨username, husername, h⟩ := bind_eq_ok.mp h
      cases hstore : store (userKey (dictGetStr env cmd "$db" "admin") username) with
      | none =>
        rw [hstore] at h
        cases h
      | some userDoc =>
        rw [hstore] at h
        obtain ⟨e | credential, hcred, h⟩ := bind_eq_ok.mp h
        · cases h
        · obtain ⟨conversation, hconv, h⟩ := bind_eq_ok.mp h
          cases h
          exact ⟨_, credential, hstore, hcred,
            ScramConversation.under_of_fromClientFirst (scramResult_eq_ok hconv)⟩

variable (env store) in
def beginning : SaslMessage → Option (ScramConversation × Document)
  | .saslStart random cmd =>
    match startConversation env store random cmd with
    | .ok (.ok begun) => some begun
    | _ => none
  | _ => none

lemma beginning_eq_some {msg : SaslMessage} {conv : ScramConversation} {doc : Document}
    (h : beginning env store msg = some (conv, doc)) :
    ∃ key cred, store key = some doc ∧ userCredential env doc = .ok (.ok cred) ∧
      conv.under cred = conv := by
  unfold beginning at h
  split at h
  · split at h
    · next random cmd begun hstart =>
      cases h
      exact startConversation_eq_ok hstart
    · cases h
  · cases h

lemma step_saslStart (random : Bytes) (cmd : Document) :
    ctx.step env store (.saslStart random cmd) = { ctx with
      scramConversation :=
        (beginning env store (.saslStart random cmd)).elim ctx.scramConversation (some ·.1) } := by
  rw [ConnectionContext.step, SaslMessage.exec, cmdSaslStart, bind_apply, ofOutcome_apply,
    beginning]
  rcases startConversation env store random cmd with (reply | begun) | e | _ <;> rfl

variable (env store ctx) in
lemma authenticate_snd (dbName username : String) :
    ∃ roles, (authenticate env store dbName username ctx).2 = { ctx with
        authenticatedUser := some username
        authenticatedDb := some dbName
        authenticatedRoles := roles } := by
  rw [authenticate, bind_of_ok (modify_apply ctx _), bind_apply, ofOutcome_apply]
  rcases userRoles env dbName (store (userKey dbName username)) with roles | e | _
  · exact ⟨roles, rfl⟩
  · exact ⟨ctx.authenticatedRoles, rfl⟩
  · exact ⟨ctx.authenticatedRoles, rfl⟩

/-- A `saslContinue` ends the conversation, sets user and database by a proof, or changes nothing.
-/
lemma step_saslContinue (cmd : Document) : (ctx.step env store (.saslContinue cmd) = ctx ∨
      ctx.step env store (.saslContinue cmd) = { ctx with scramConversation := none }) ∨
    ∃ payload conv final roles, saslPayload env cmd = .ok (some payload) ∧
      ctx.scramConversation = some conv ∧
      conv.verifyClientFinal env.toCrypto payload = .ok final ∧
      ctx.step env store (.saslContinue cmd) = { ctx with
          authenticatedUser := some conv.username
          authenticatedDb := some (dictGetStr env cmd "$db" "admin")
          authenticatedRoles := roles
          scramConversation := none } := by
  rw [ConnectionContext.step, SaslMessage.exec, cmdSaslContinue, bind_apply, ofOutcome_apply]
  rcases hpayload : saslPayload env cmd with (_ | payload) | e | _
  · exact .inl (.inl rfl)
  · dsimp only
    rw [bind_of_ok (read_apply ctx _), bind_of_ok (modify_apply ctx _)]
    cases hconv : ctx.scramConversation with
    | none => exact .inl (.inr rfl)
    | some conv =>
      dsimp only
      cases hverify : conv.verifyClientFinal env.toCrypto payload with
      | error e => exact .inl (.inr rfl)
      | ok final =>
        obtain ⟨roles, hroles⟩ := authenticate_snd env store
          { ctx with scramConversation := none } (dictGetStr env cmd "$db" "admin") conv.username
        refine .inr ⟨payload, conv, final, roles, rfl, rfl, hverify, ?_⟩
        rw [← hroles]
        exact snd_bind_pure _ _
  · exact .inl (.inl rfl)
  · exact .inl (.inl rfl)

/-- A proof ends its conversation: messages after it that start no new one can only log out. -/
theorem one_proof_per_start {cmd : Document} {payload : Bytes}
    (hpayload : saslPayload env cmd = .ok (some payload)) {msgs : List SaslMessage}
    (hmsgs : ∀ random first, .saslStart random first ∉ msgs) :
    let after := ctx.step env store (.saslContinue cmd)
    msgs.foldl (ConnectionContext.step env store) after = after ∨
      msgs.foldl (ConnectionContext.step env store) after = after.step env store .logout := by
  intro after
  have hnone : after.scramConversation = none := by
    simp only [after, ConnectionContext.step, SaslMessage.exec, cmdSaslContinue, bind_apply,
      ofOutcome_apply, hpayload, read_apply, modify_apply]
    cases ctx.scramConversation with
    | none => rfl
    | some conv =>
      dsimp only
      cases conv.verifyClientFinal env.toCrypto payload with
      | error e => rfl
      | ok final =>
        obtain ⟨roles, hroles⟩ := authenticate_snd env store
          { ctx with scramConversation := none } (dictGetStr env cmd "$db" "admin") conv.username
        exact (congrArg _ ((snd_bind_pure _ _).trans hroles)).trans rfl
  clear_value after
  induction msgs generalizing after with
  | nil => exact .inl rfl
  | cons msg msgs ih =>
    have hrest : ∀ random first, .saslStart random first ∉ msgs := fun random first hmem =>
      hmsgs random first (mem_cons_of_mem _ hmem)
    cases msg with
    | saslStart random first => exact absurd mem_cons_self (hmsgs random first)
    | saslContinue cmd' =>
      have hsame : after.step env store (.saslContinue cmd') = after := by
        obtain (h | h) | ⟨_, conv, _, _, _, hconv, _⟩ :
            (after.step env store (.saslContinue cmd') = after ∨ _) ∨ _ := step_saslContinue cmd'
        · exact h
        · rw [h, ← hnone]
        · cases hnone.symm.trans hconv
      rw [foldl_cons, hsame]
      exact ih hrest after hnone
    | logout =>
      rw [foldl_cons]
      exact .inr ((ih hrest (after.step env store .logout) hnone).elim id id)

def NamesUser (doc : Document) (user db : String) : Prop :=
  doc.get "user" = some (.string user) ∧ doc.get "db" = some (.string db)

instance instDecidableNamesUser (doc : Document) (user db : String) :
    Decidable (NamesUser doc user db) := inferInstanceAs (Decidable (_ ∧ _))

variable (env store) in
/-- One of the messages carried a proof that verifies under the stored credential of the user. -/
def Proven (msgs : List SaslMessage) (user db : String) : Prop :=
  ∃ before cmd after conv payload, msgs = before ++ .saslContinue cmd :: after ∧
    (before.foldl (ConnectionContext.step env store) .new).scramConversation = some conv ∧
    saslPayload env cmd = .ok (some payload) ∧
    ∃ key doc cred final, store key = some doc ∧ NamesUser doc user db ∧
      userCredential env doc = .ok (.ok cred) ∧
      (conv.under cred).verifyClientFinal env.toCrypto payload = .ok final

lemma Proven.append {msgs : List SaslMessage} {user db : String}
    (h : Proven env store msgs user db) (msg : SaslMessage) :
    Proven env store (msgs ++ [msg]) user db := by
  obtain ⟨before, cmd, after, conv, payload, rfl, hrest⟩ := h
  exact ⟨before, cmd, after ++ [msg], conv, payload, by simp, hrest⟩

/-- A connection, and the user document that was looked up for the pending conversation. -/
structure Traced where
  ctx : ConnectionContext
  lookedUp : Option Document

namespace Traced

def new : Traced := ⟨.new, none⟩

variable (env store) in
def step (t : Traced) (msg : SaslMessage) : Traced where
  ctx := t.ctx.step env store msg
  lookedUp := (beginning env store msg).elim t.lookedUp (some ·.2)

variable (env) in
/-- What a message proves is proved for the user of the conversation in the database of the message.
-/
def Bound (t : Traced) : SaslMessage → Prop
  | .saslContinue cmd => ∀ conv doc payload final, t.ctx.scramConversation = some conv →
      t.lookedUp = some doc → saslPayload env cmd = .ok (some payload) →
      conv.verifyClientFinal env.toCrypto payload = .ok final →
      NamesUser doc conv.username (dictGetStr env cmd "$db" "admin")
  | _ => True

variable (env store) in
/-- What every run keeps. -/
structure Invariant (done : List SaslMessage) (t : Traced) : Prop where
  ctx : t.ctx = done.foldl (ConnectionContext.step env store) .new
  pending : ∀ conv, t.ctx.scramConversation = some conv → ∃ key doc cred, t.lookedUp = some doc ∧
    store key = some doc ∧ userCredential env doc = .ok (.ok cred) ∧ conv.under cred = conv
  proven : ∀ user db, t.ctx.authenticatedUser = some user → t.ctx.authenticatedDb = some db →
    Proven env store done user db

lemma Invariant.step {done : List SaslMessage} {t : Traced} (h : Invariant env store done t)
    {msg : SaslMessage} (hbound : t.Bound env msg) :
    Invariant env store (done ++ [msg]) (t.step env store msg) := by
  have hctx : (t.step env store msg).ctx =
      (done ++ [msg]).foldl (ConnectionContext.step env store) .new := by
    rw [foldl_append, ← h.ctx]
    rfl
  have hproven : (t.step env store msg).ctx.authenticatedUser = t.ctx.authenticatedUser →
      (t.step env store msg).ctx.authenticatedDb = t.ctx.authenticatedDb →
      ∀ user db, (t.step env store msg).ctx.authenticatedUser = some user →
        (t.step env store msg).ctx.authenticatedDb = some db →
        Proven env store (done ++ [msg]) user db := by
    intro huser hdb user db
    rw [huser, hdb]
    exact fun hu hd => (h.proven user db hu hd).append msg
  cases msg with
  | saslStart random cmd =>
    have hstep : (t.step env store (.saslStart random cmd)).ctx = _ := step_saslStart random cmd
    refine ⟨hctx, ?_, hproven (by rw [hstep]) (by rw [hstep])⟩
    rw [hstep]
    intro conv hconv
    cases hbegin : beginning env store (.saslStart random cmd) with
    | none =>
      rw [hbegin] at hconv
      obtain ⟨key, doc, cred, hdoc, hrest⟩ := h.pending conv hconv
      refine ⟨key, doc, cred, ?_, hrest⟩
      rw [Traced.step, hbegin]
      exact hdoc
    | some begun =>
      rw [hbegin] at hconv
      obtain ⟨conv', doc⟩ := begun
      cases hconv
      obtain ⟨key, cred, hrest⟩ := beginning_eq_some hbegin
      refine ⟨key, doc, cred, ?_, hrest⟩
      rw [Traced.step, hbegin]
      rfl
  | saslContinue cmd =>
    have hlooked : (t.step env store (.saslContinue cmd)).lookedUp = t.lookedUp := rfl
    rcases step_saslContinue cmd with (hstep | hstep) | ⟨payload, conv, final, roles, hpayload,
      hconv, hverify, hstep⟩
    · replace hstep : (t.step env store (.saslContinue cmd)).ctx = _ := hstep
      refine ⟨hctx, ?_, hproven (by rw [hstep]) (by rw [hstep])⟩
      rw [hstep, hlooked]
      exact h.pending
    · replace hstep : (t.step env store (.saslContinue cmd)).ctx = _ := hstep
      refine ⟨hctx, ?_, hproven (by rw [hstep]) (by rw [hstep])⟩
      rw [hstep]
      intro conv hconv
      cases hconv
    · replace hstep : (t.step env store (.saslContinue cmd)).ctx = _ := hstep
      refine ⟨hctx, ?_, ?_⟩
      · rw [hstep]
        intro conv hconv
        cases hconv
      · rw [hstep]
        rintro _ _ ⟨⟩ ⟨⟩
        obtain ⟨key, doc, cred, hdoc, hstore, hcred, hunder⟩ := h.pending conv hconv
        have hnames := hbound conv doc payload final hconv hdoc hpayload hverify
        refine ⟨done, cmd, [], conv, payload, rfl, h.ctx ▸ hconv, hpayload, key, doc, cred, final,
          hstore, hnames, hcred, ?_⟩
        rw [hunder]
        exact hverify
  | logout => exact ⟨hctx, h.pending, nofun⟩

end Traced

/-- If proofs are taken for the user they prove, only one that verifies under the stored credential
of a user makes the connection that user. -/
theorem scram_identity {msgs : List SaslMessage}
    (hrun : Along (Traced.step env store) (Traced.Bound env) .new msgs) (user db : String)
    (huser : (msgs.foldl (ConnectionContext.step env store) .new).authenticatedUser = some user)
    (hdb : (msgs.foldl (ConnectionContext.step env store) .new).authenticatedDb = some db) :
    Proven env store msgs user db := by
  have hnew : Traced.Invariant env store [] .new :=
    ⟨rfl, nofun, nofun⟩
  have hinv := Along.history (I := Traced.Invariant env store)
    (fun _ _ _ h hbound => h.step hbound) [] hnew hrun
  have hctx := hinv.ctx
  exact hinv.proven user db (hctx ▸ huser) (hctx ▸ hdb)

end

namespace Sample

/-- A hash is its argument, and every signature is zero, so that a proof is the stored key. -/
def wireEnv : WireEnv where
  hmacSha256 _ _ := replicate 32 0
  sha256 b := b
  encode b := String.ofList (b.map fun x => Char.ofNat (x.toNat + 48))
  decode s := some (s.toList.map fun c => UInt8.ofNat (c.toNat - 48))
  extractString
    | .string s => some s
    | _ => none
  extractBytes
    | .binary _ b => some b
    | _ => none
  extractU32
    | .int32 n => some n.toInt.toNat
    | _ => none

def storedKey (digit : Char) : String := String.ofList (replicate 32 digit)

def userDocument (user db : String) (digit : Char) (roles : List Bson) : Document :=
  [("user", .string user), ("db", .string db), ("roles", .array roles),
    ("credentials", .document [("SCRAM-SHA-256", .document [("salt", .string ""),
      ("storedKey", .string (storedKey digit)), ("serverKey", .string (storedKey digit)),
      ("iterationCount", .int32 15000)])])]

def users : UserStore := fun key =>
  if key = "admin.alice" then some (userDocument "alice" "admin" '1'
    [.document [("role", .string "read"), ("db", .string "app")]])
  else if key = "admin.root" then some (userDocument "root" "admin" '2' [.string "root"])
  else none

def clientFirst (attributes : String) : SaslMessage :=
  .saslStart [] [("saslStart", .int32 1), ("mechanism", .string "SCRAM-SHA-256"),
    ("payload", .binary 0 (Bytes.utf8 ("n,," ++ attributes ++ ",r=abc"))), ("$db", .string "admin")]

def proof (digit : Char) : Bytes := Bytes.utf8 ("c=biws,r=abc,p=" ++ storedKey digit)

def clientFinal (digit : Char) : SaslMessage :=
  .saslContinue [("saslContinue", .int32 1), ("payload", .binary 0 (proof digit)),
    ("$db", .string "admin")]

def connected (msgs : List SaslMessage) : ConnectionContext :=
  msgs.foldl (ConnectionContext.step wireEnv users) .new

end Sample

section

open Sample

theorem scram_identity_alice :
    (connected [clientFirst "n=alice", clientFinal '1']).authenticatedUser = some "alice" ∧
      Proven wireEnv users [clientFirst "n=alice", clientFinal '1'] "alice" "admin" := by
  have hnames : ∀ conv ∈
      (Traced.new.step wireEnv users (clientFirst "n=alice")).ctx.scramConversation,
      ∀ doc ∈ (Traced.new.step wireEnv users (clientFirst "n=alice")).lookedUp,
        NamesUser doc conv.username "admin" := by
    decide +kernel
  have hrun : Along (Traced.step wireEnv users) (Traced.Bound wireEnv) .new
      [clientFirst "n=alice", clientFinal '1'] := by
    refine ⟨trivial, ?_, trivial⟩
    intro conv doc payload final hconv hdoc _ _
    exact hnames conv hconv doc hdoc
  exact ⟨rfl, scram_identity hrun _ _ (rfl) (rfl)⟩

theorem one_proof_alice : let wrong := connected [clientFirst "n=alice", clientFinal '2']
    wrong.step wireEnv users (clientFinal '1') = wrong := by
  have hmsgs : ∀ random first, .saslStart random first ∉ [clientFinal '1'] := by simp [clientFinal]
  exact (one_proof_per_start rfl hmsgs).elim id id

/-- A first message with two names: the proof is Alice's, but the connection is the administrator's.
-/
theorem scram_takes_other_identity : let msgs := [clientFirst "n=alice,n=root", clientFinal '1']
    (connected msgs).authenticatedUser = some "root" ∧
      (connected msgs).authenticatedDb = some "admin" ∧
      (connected msgs).authenticatedRoles = [("root", "admin")] ∧
      ¬ Proven wireEnv users msgs "root" "admin" := by
  refine ⟨rfl, rfl, rfl, ?_⟩
  rintro ⟨before, cmd, after, conv, payload, hmsgs, hconv, hpayload, key, doc, cred, final, hstore,
    hnames, hcred, hverify⟩
  have hbefore : before = [clientFirst "n=alice,n=root"] ∧ .saslContinue cmd = clientFinal '1' := by
    rcases before with _ | ⟨first, _ | ⟨second, before⟩⟩
    · cases hmsgs
    · simp only [cons_append, nil_append, cons.injEq] at hmsgs
      exact ⟨by rw [hmsgs.1], hmsgs.2.1.symm⟩
    · simp at hmsgs
  obtain ⟨rfl, hcmd⟩ := hbefore
  cases hcmd
  have hproof : payload = proof '1' := by
    cases hpayload
    rfl
  -- only one stored document is that of the administrator
  have hdoc : doc = userDocument "root" "admin" '2' [.string "root"] := by
    unfold users at hstore
    split at hstore
    · cases hstore
      exact absurd hnames (by decide +kernel)
    · split at hstore <;> cases hstore
      rfl
  let other : ScramCredential := ⟨[], replicate 32 2, replicate 32 2, 15000⟩
  have hother : userCredential wireEnv (userDocument "root" "admin" '2' [.string "root"]) =
      .ok (.ok other) := rfl
  have hrejects : ∀ conv ∈ (connected [clientFirst "n=alice,n=root"]).scramConversation,
      (conv.under other).verifyClientFinal wireEnv.toCrypto (proof '1') =
        .error "authentication failed" := by decide +kernel
  rw [hdoc, hother] at hcred
  have hsame : other = cred := Except.ok.inj (ok.inj hcred)
  rw [hproof, ← hsame, hrejects conv hconv] at hverify
  cases hverify

end

end Smongo
