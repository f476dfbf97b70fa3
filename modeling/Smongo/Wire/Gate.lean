import Smongo.Wire.Server
import Smongo.Wire.Authentication

/-!
# The gate guards every route to the dispatcher

On each route to the dispatcher the gate has tested the command, unless it is exempt.
-/

namespace Smongo

open Eff WireState List

def RoleGrants (role : String × String) (command db : String) : Prop :=
  role = ("root", "admin") ∨
    (role.2 = db ∨ role.2 = "*") ∧ ∀ allowed ∈ commandsForRole role.1, command ∈ allowed

def Grants (roles : List (String × String)) (command db : String) : Prop :=
  ∃ role ∈ roles, RoleGrants role command db

lemma checkPrivilege_iff {roles : List (String × String)} {command db : String} :
    checkPrivilege roles command db = true ↔ Grants roles command db := by
  induction roles with
  | nil => simp [checkPrivilege, Grants]
  | cons role roles ih =>
    obtain ⟨name, roleDb⟩ := role
    have hcons : Grants ((name, roleDb) :: roles) command db ↔
        RoleGrants (name, roleDb) command db ∨ Grants roles command db :=
      exists_mem_cons_iff ..
    rw [hcons, checkPrivilege, RoleGrants]
    split
    · next hroot => simp [hroot]
    · next hroot =>
      have hne : (name, roleDb) ≠ ("root", "admin") := by simpa using hroot
      split
      · next hdb => rw [ih, or_iff_right (by tauto)]
      · next hdb =>
        rw [not_not] at hdb
        cases hallowed : commandsForRole name with
        | none => simp [hdb]
        | some allowed =>
          dsimp only
          split
          · next hmem => simp [hdb, hmem]
          · next hmem => simp [ih, hmem, hne]

lemma RoleGrants.of_empty {role : String × String} {db : String} (h : RoleGrants role "" db)
    (command : String) : RoleGrants role command db := by
  have hlists : ∀ name allowed, commandsForRole name = some allowed → "" ∉ allowed := by
    intro name allowed hallowed
    unfold commandsForRole at hallowed
    split at hallowed <;> cases hallowed <;> decide
  refine h.imp_right fun ⟨hdb, hall⟩ => ⟨hdb, fun allowed hallowed => ?_⟩
  exact absurd (hall allowed hallowed) (hlists role.1 allowed hallowed)

lemma Grants.of_empty {roles : List (String × String)} {db : String} (h : Grants roles "" db)
    (command : String) : Grants roles command db := by
  obtain ⟨role, hmem, hrole⟩ := h
  exact ⟨role, hmem, hrole.of_empty command⟩

/-- The command is exempt, or the connection was authenticated and one of its roles granted the
command on the database. -/
def Dispatch.Guarded (d : Dispatch) : Prop :=
  d.command ∈ authExemptCommands ∨ d.user.isSome ∧ Grants d.roles d.command d.db

variable {ρ : Type}

def guardFrame : Frame (WireState ρ) where
  rel s t := ∃ new, t.dispatched = s.dispatched ++ new ∧ ∀ d ∈ new, d.Guarded
  refl s := ⟨[], (append_nil _).symm, fun d hd => absurd hd not_mem_nil⟩
  trans := by
    rintro s t u ⟨new, ht, hnew⟩ ⟨new', hu, hnew'⟩
    refine ⟨new ++ new', by rw [hu, ht, append_assoc], fun d hd => ?_⟩
    exact (mem_append.mp hd).elim (hnew d) (hnew' d)

lemma guardFrame_of_eq {s t : WireState ρ} (h : t.dispatched = s.dispatched) :
    guardFrame.rel s t :=
  ⟨[], by rw [h, append_nil], fun d hd => absurd hd not_mem_nil⟩

section

variable {α : Type} {m : Wire ρ α}

lemma moves_of_dispatched (h : ∀ s, (m s).2.dispatched = s.dispatched) : Moves guardFrame m :=
  fun s => ⟨guardFrame_of_eq (h s), fun _ _ => trivial⟩

lemma nextId_moves : Moves guardFrame (nextId : Wire ρ Int32) := moves_of_dispatched fun _ => rfl

variable (server : Server ρ)

lemma replyMsg_moves (responseTo : Int32) (doc : Document) :
    Moves guardFrame (replyMsg server responseTo doc) :=
  nextId_moves.bind fun _ _ => .ofOutcome _

lemma withHandler_moves (m : Eff (ConnectionContext × ρ) PyErr α) :
    Moves guardFrame (withHandler m) := moves_of_dispatched fun _ => rfl

lemma stampReply_moves (resp : Document) : Moves guardFrame (stampReply server resp) :=
  moves_of_dispatched fun _ => rfl

lemma touchLsid_ctx (command : Document) (s : WireState ρ) :
    (touchLsid server command s).2.ctx = s.ctx ∧
      (touchLsid server command s).2.dispatched = s.dispatched := by
  rw [touchLsid]
  cases pyGet command "lsid" <;> exact ⟨rfl, rfl⟩

section

variable {command sequences : Document} {s : WireState ρ}

lemma callHandler_rel {cmdName : String} {handler : Handler ρ}
    (h : Dispatch.Guarded ⟨cmdName, dictGetStr server.toWireEnv command "$db" "test",
      s.ctx.authenticatedUser, s.ctx.authenticatedRoles⟩) :
    guardFrame.rel s (callHandler server cmdName handler command sequences s).2 := by
  refine Frame.rel_bind ⟨_, rfl, fun d hd => ?_⟩ fun _ t _ => ?_
  · rwa [mem_singleton.mp hd]
  · refine ((withHandler_moves _).attempt.bind fun r _ => ?_ : Moves guardFrame _) t |>.1
    cases r with
    | ok resp => exact .pure trivial
    | error err => exact .ofOutcome _

lemma rsDispatch_rel
    (h : ∀ cmdName v tail, withDb command = (cmdName, v) :: tail →
      Dispatch.Guarded ⟨cmdName, dictGetStr server.toWireEnv (withDb command) "$db" "test",
        s.ctx.authenticatedUser, s.ctx.authenticatedRoles⟩) :
    guardFrame.rel s (rsDispatch server command sequences s).2 := by
  obtain ⟨hctx, hdispatched⟩ := touchLsid_ctx server (withDb command) s
  refine Frame.rel_bind (guardFrame_of_eq hdispatched) fun _ t ht => ?_
  replace hctx : t.ctx = s.ctx := by rw [← hctx, ht]
  rcases hcommand : withDb command with _ | ⟨⟨cmdName, v⟩, tail⟩
  · exact guardFrame.refl t
  · have hguard := h cmdName v tail hcommand
    rw [hcommand] at hguard
    dsimp only
    cases server.handlers cmdName with
    | none => exact guardFrame.refl t
    | some handler =>
      refine Frame.rel_bind ?_ fun resp u _ => (stampReply_moves server resp u).1
      apply callHandler_rel
      rwa [hctx]

end

variable {server} {command : Document} {cmdName : String} {v : Bson} {tail : Document}

lemma firstDictKey_of_withDb (h : withDb command = (cmdName, v) :: tail) :
    firstDictKey (some command) = cmdName ∨ firstDictKey (some command) = "" := by
  cases command with
  | nil => exact .inr rfl
  | cons field command =>
    left
    unfold withDb Document.insert at h
    split at h
    · split at h
      · next hkey =>
        cases h
        exact hkey
      · cases h
        rfl
    · cases h
      rfl

section

variable (hstring : ∀ text, server.extractString (.string text) = some text)
include hstring

lemma dictGetStr_withDb :
    dictGetStr server.toWireEnv (withDb command) "$db" "test" = targetDb server (some command) := by
  rw [targetDb, withDb]
  split
  · next hnone =>
    rw [Option.isNone_iff_eq_none] at hnone
    rw [dictGetStr, Document.get_insert, if_pos rfl, dictGetStr, hnone]
    exact congrArg (·.getD "test") (hstring "test")
  · rfl

lemma guarded_of_passed {ctx : ConnectionContext}
    (hpassed : authRejection server ctx (some command) = none)
    (hcommand : withDb command = (cmdName, v) :: tail) :
    Dispatch.Guarded ⟨cmdName, dictGetStr server.toWireEnv (withDb command) "$db" "test",
      ctx.authenticatedUser, ctx.authenticatedRoles⟩ := by
  have hkey := firstDictKey_of_withDb hcommand
  rw [dictGetStr_withDb hstring]
  unfold authRejection at hpassed
  dsimp only at hpassed
  split at hpassed
  · next hexempt =>
    left
    rcases hkey with hkey | hkey <;> rw [hkey] at hexempt
    · exact hexempt
    · exact absurd hexempt (by decide)
  · split at hpassed
    · cases hpassed
    · next huser =>
      split at hpassed
      · cases hpassed
      · next hpriv =>
        rw [not_not, checkPrivilege_iff] at hpriv
        refine .inr ⟨by simpa [Option.isSome_iff_ne_none] using huser, ?_⟩
        rcases hkey with hkey | hkey <;> rw [hkey] at hpriv
        · exact hpriv
        · exact hpriv.of_empty cmdName

end

variable (server) in
lemma checkAuthGate_moves (body : Option Document) (requestId : Int32) :
    Moves guardFrame (checkAuthGate server body requestId) := by
  refine (Moves.read _).bind fun ctx _ => ?_
  cases authRejection server ctx body with
  | none => exact .pure trivial
  | some message => exact (replyMsg_moves server _ _).map

lemma checkAuthGate_eq_none {body : Option Document} {requestId : Int32} {s t : WireState ρ}
    (h : checkAuthGate server body requestId s = (.ok none, t)) :
    authRejection server s.ctx body = none ∧ t = s := by
  have hgate := (bind_of_ok (read_apply s WireState.ctx)).symm.trans h
  cases hreject : authRejection server s.ctx body with
  | none =>
    rw [hreject] at hgate
    cases hgate
    exact ⟨rfl, rfl⟩
  | some message =>
    rw [hreject] at hgate
    obtain ⟨bytes, u, -, hpure⟩ := bind_eq_ok.mp hgate
    cases hpure

variable (hauth : server.authRequired = true)
  (hstring : ∀ text, server.extractString (.string text) = some text)

include hauth hstring

lemma gateAndDispatch_moves (body : Option Document) (sequences : Document) (requestId : Int32) :
    Moves guardFrame (gateAndDispatch server body sequences requestId) := by
  intro s
  refine ⟨?_, fun _ _ => trivial⟩
  unfold gateAndDispatch
  rw [if_pos hauth]
  refine Frame.rel_bind (checkAuthGate_moves server body requestId s).1 fun reject t hgate => ?_
  cases reject with
  | some reject => exact guardFrame.refl t
  | none =>
    obtain ⟨hpassed, rfl⟩ := checkAuthGate_eq_none hgate
    cases body with
    | none => exact guardFrame.refl t
    | some command =>
      refine Frame.rel_bind (rsDispatch_rel server ?_) fun _ u _ => guardFrame.refl u
      exact fun cmdName v tail hcommand => guarded_of_passed hstring hpassed hcommand

lemma handleMsg_moves (data : Bytes) : Moves guardFrame (handleMsg server data) := by
  refine (Moves.ofOutcome _).attempt.bind fun r _ => ?_
  cases r with
  | error e => exact (replyMsg_moves server _ _).map
  | ok decoded =>
    obtain ⟨header, flags, body, sequences⟩ := decoded
    refine (gateAndDispatch_moves hauth hstring body sequences _).bind fun reply _ => ?_
    cases reply with
    | error reject => exact .pure trivial
    | ok response =>
      refine .ite (.pure trivial) ((replyMsg_moves server _ _).bind fun bytes _ => ?_)
      refine (Moves.read _).bind fun cid _ => ?_
      cases cid with
      | none => exact .pure trivial
      | some cid => exact (Moves.ofOutcome _).map

lemma dispatchQuery_moves (queryDoc : Document) (requestId : Int32) :
    Moves guardFrame (dispatchQuery server queryDoc requestId) := by
  refine .ite (.bind (Q := fun _ => True) (fun s => ⟨?_, fun _ _ => trivial⟩)
    fun _ _ => .pure trivial)
    (gateAndDispatch_moves hauth hstring _ _ _)
  apply rsDispatch_rel
  intro cmdName v tail hhello
  cases hhello
  exact .inl (by decide : "hello" ∈ authExemptCommands)

lemma handleQuery_moves (data : Bytes) : Moves guardFrame (handleQuery server data) := by
  refine (Moves.ofOutcome _).bind fun decoded _ => ?_
  obtain ⟨header, queryDoc⟩ := decoded
  refine (dispatchQuery_moves hauth hstring queryDoc _).bind fun reply _ => ?_
  cases reply with
  | error reject => exact .pure trivial
  | ok response => exact nextId_moves.bind fun _ _ => (Moves.ofOutcome _).map

lemma handleMessage_moves (depth : ℕ) (data : Bytes) (opCode : Int32) :
    Moves guardFrame (handleMessage server depth data opCode) := by
  induction depth generalizing data opCode with
  | zero => exact .ofOutcome _
  | succ depth ih =>
    refine .ite (handleMsg_moves hauth hstring data) (.ite ?_
      (.ite (handleQuery_moves hauth hstring data) ((replyMsg_moves server _ _).map)))
    refine (Moves.ofOutcome _).attempt.bind fun r _ => ?_
    cases r with
    | error e => exact (replyMsg_moves server _ _).map
    | ok inner => exact (Moves.ofOutcome _).bind fun innerOp _ => ih inner innerOp

lemma serveMessage_moves (depth : ℕ) (data : Bytes) :
    Moves guardFrame (serveMessage server depth data) := by
  refine (Moves.ofOutcome _).bind fun opCode _ => ?_
  refine (handleMessage_moves hauth hstring depth data opCode).attempt.bind fun r _ => ?_
  rcases r with e | (_ | resp)
  · exact .pure trivial
  · exact .pure trivial
  · exact moves_of_dispatched fun _ => rfl

lemma serveBuffer_moves (depth fuel : ℕ) (buf : Bytes) :
    Moves guardFrame (serveBuffer server depth fuel buf) := by
  induction fuel generalizing buf with
  | zero => exact .ofOutcome _
  | succ fuel ih =>
    refine .ite (.pure trivial) ((Moves.ofOutcome _).bind fun msgLen _ => ?_)
    refine .ite (.pure trivial) (.ite (.pure trivial) ?_)
    exact (serveMessage_moves hauth hstring depth _).bind fun _ _ => ih _

lemma connectionLoop_moves (depth : ℕ) (chunks : List Bytes) (buf : Bytes) :
    Moves guardFrame (connectionLoop server depth chunks buf) := by
  induction chunks generalizing buf with
  | nil => exact .pure trivial
  | cons chunk chunks ih =>
    refine (serveBuffer_moves hauth hstring depth _ _).bind fun left _ => ?_
    cases left with
    | none => exact .pure trivial
    | some buf => exact ih buf

/-- A command that is not exempt is dispatched only while the connection is authenticated and a role
grants it. -/
theorem auth_gate (rest : ρ) (depth : ℕ) (chunks : List Bytes) :
    ∀ d ∈ (connectionLoop server depth chunks [] (.new rest)).2.dispatched,
      d.command ∉ authExemptCommands → d.user.isSome ∧ Grants d.roles d.command d.db := by
  intro d hd hexempt
  obtain ⟨new, hnew, hguarded⟩ := (connectionLoop_moves hauth hstring depth chunks [] (.new rest)).1
  rw [hnew] at hd
  exact (hguarded d hd).resolve_left hexempt

end

namespace Sample

def document : SaslMessage → Document
  | .saslStart _ cmd => cmd
  | .saslContinue cmd => cmd
  | .logout => [("logout", .int32 1)]

def commands : List Document :=
  [document (clientFirst "n=alice"), document (clientFinal '1'),
    [("find", .string "books"), ("$db", .string "app")],
    [("insert", .string "books"), ("$db", .string "app")]]

def handshake (m : Document → Handshake Document) : Handler Unit := fun cmd _ =>
  zoom Prod.fst (fun ctx s => (ctx, s.2)) (m cmd)

/-- The only compressor is the one that leaves messages as they are. -/
def gateServer : Server Unit where
  toWireEnv := wireEnv
  rawDecodeDocument data off :=
    match data[off]?.bind fun b => commands[b.toNat]? with
    | some doc => .ok (doc, off + 1)
    | none => .error (.protocolError "BSON decode error")
  rawEncodeDocument _ := .ok []
  crc32c _ := 0
  decompressSnappy _ := none
  decompressZlib _ := none
  decompressZstd _ := none
  compressSnappy _ := none
  compressZlib _ := none
  compressZstd _ := none
  extractF64
    | .double x => some x
    | _ => none
  epochSecs _ := 0
  mapHandlerError _ e := .error e
  handlers
    | "saslStart" => some (handshake (cmdSaslStart wireEnv users []))
    | "saslContinue" => some (handshake (cmdSaslContinue wireEnv users))
    | "find" => some fun _ _ => pure okDict
    | "insert" => some fun _ _ => pure okDict
    | _ => none
  touchSession _ := pure ()
  authRequired := true

def plain (number : UInt8) : Bytes := frame 1 0 opMsg (leBytes 4 0 ++ [0, number])

def legacy (number : UInt8) : Bytes :=
  frame 1 0 opQuery (leBytes 4 0 ++ [0] ++ leBytes 8 0 ++ [number])

def uncompressed (inner : Bytes) : Bytes :=
  frame 1 0 opCompressed (((inner.drop 12).take 4) ++ leBytes 4 (inner.length - 16) ++ [0] ++
    inner.drop 16)

end Sample

section

open Sample

/-- What Alice sends is dispatched once she has logged in, if her role grants it. -/
theorem auth_gate_alice : let chunks := [plain 2, plain 0 ++ (plain 1).take 10, (plain 1).drop 10,
      uncompressed (uncompressed (plain 2)) ++ legacy 3]
    let dispatched := (connectionLoop gateServer 3 chunks [] (.new ())).2.dispatched
    dispatched.map (·.command) = ["saslStart", "saslContinue", "find"] ∧ ∀ d ∈ dispatched,
        d.command ∉ authExemptCommands → d.user.isSome ∧ Grants d.roles d.command d.db :=
  ⟨by decide +kernel, auth_gate rfl (fun _ => rfl) () 3 _⟩

end

end Smongo
