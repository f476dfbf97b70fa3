import Smongo.Client.Routing

/-!
# Transactions over the wire

All connections share one client and so its one transaction slot.
-/

namespace Smongo

open Eff RedbSession Function LocalClient

inductive TransactionState
  | active
  | committed
  | aborted
deriving DecidableEq

abbrev Connection := ℕ

/-- The client that the connections share, and the transactions of each, by session. -/
structure WireServer where
  client : LocalClient
  txnSessions : Connection → String → Option TransactionState

inductive WireCommand
  | startTransaction (lsid : String)
  | commitTransaction (lsid : String)
  | abortTransaction (lsid : String)
  | write (coll : LocalCollection) (st : Statement)
  | query (coll : LocalCollection) (q : LocalClient.Query)
  | createIndex (coll : LocalCollection) (keys : Document) (options : Option IndexOptions)
  | dropIndex (coll : LocalCollection) (name : String)
  | listIndexes (coll : LocalCollection)

inductive WireReply
  | done
  | written (reply : Reply)
  | answered (answer : LocalClient.Answer)
  | indexName (name : String)
  | indexes (specs : List IndexSpec)
deriving DecidableEq

namespace WireServer

def onClient {α : Type} (m : ClientOp α) : Eff WireServer ClientError α :=
  zoom WireServer.client (fun k σ => { σ with client := k }) m

variable (conn : Connection) (lsid : String)

def isActive : Eff WireServer ClientError Bool :=
  read fun σ => σ.txnSessions conn lsid = some .active

def setState (state : TransactionState) : Eff WireServer ClientError Unit :=
  modify fun σ => { σ with
    txnSessions := update σ.txnSessions conn (update (σ.txnSessions conn) lsid (some state)) }

def startTransaction : Eff WireServer ClientError Unit := do
  if ← isActive conn lsid then
    fail (.transactionError "Transaction already in progress on this session")
  else do
    onClient wireTxnBegin
    setState conn lsid .active

def finishTransaction (finish : ClientOp Unit)
    (state : TransactionState) : Eff WireServer ClientError Unit := do
  if ← isActive conn lsid then do
    onClient finish
    setState conn lsid state
  else fail (.transactionError "No transaction in progress")

def commitTransaction : Eff WireServer ClientError Unit :=
  finishTransaction conn lsid wireTxnCommit .committed

def abortTransaction : Eff WireServer ClientError Unit :=
  finishTransaction conn lsid wireTxnAbort .aborted

variable (env : Env) (geometry : Geometry)

def exec (conn : Connection) : WireCommand → Eff WireServer ClientError WireReply
  | .startTransaction lsid => do
    startTransaction conn lsid
    return .done
  | .commitTransaction lsid => do
    commitTransaction conn lsid
    return .done
  | .abortTransaction lsid => do
    abortTransaction conn lsid
    return .done
  | .write coll st => do return .written (← onClient (write env coll st))
  | .query coll q => do return .answered (← onClient (query env geometry coll q))
  | .createIndex coll keys options => do
    return .indexName (← onClient (LocalClient.createIndex env coll keys options))
  | .dropIndex coll name => do
    onClient (LocalClient.dropIndex env coll name)
    return .done
  | .listIndexes coll => do return .indexes (← onClient (LocalClient.listIndexes env coll))

def step (σ : WireServer) (c : Connection × WireCommand) : WireServer :=
  (exec env geometry c.1 c.2 σ).2

end WireServer

abbrev Effect := String → Table → Table

namespace Effect

def none : Effect := fun _ t => t

def ofWrites (ws : List (String × PendingWrite)) : Effect :=
  fun name t => Change.applyAll t (writesTo name ws)

def replay (effects : List Effect) (name : String) (t : Table) : Table :=
  effects.foldl (fun t e => e name t) t

end Effect

namespace WireServer

variable (env : Env) (geometry : Geometry)

def HasOpen (σ : WireServer) (conn : Connection) : Prop :=
  ∃ lsid, σ.txnSessions conn lsid = some .active

/-- What a command should do to the committed tables. -/
inductive Contributes (σ : WireServer) (conn : Connection) : WireCommand → Effect → Prop
  | acknowledged {coll : LocalCollection} {st : Statement} {reply : WireReply}
      (houtside : ¬σ.HasOpen conn)
      (hok : (exec env geometry conn (.write coll st) σ).1 = .ok reply) :
      Contributes σ conn (.write coll st) (.ofWrites (σ.client.engineWrites env coll st))
  | failed {coll : LocalCollection} {st : Statement} (houtside : ¬σ.HasOpen conn)
      (hfailed : ∀ reply, (exec env geometry conn (.write coll st) σ).1 ≠ .ok reply) :
      Contributes σ conn (.write coll st) .none
  | buffered {coll : LocalCollection} {st : Statement} (hinside : σ.HasOpen conn) :
      Contributes σ conn (.write coll st) .none
  | committed {lsid : String} {ts : TransactionSession}
      (hactive : σ.txnSessions conn lsid = some .active) (hts : σ.client.txnSlot = some ts) :
      Contributes σ conn (.commitTransaction lsid) (.ofWrites ts.issued)
  | notCommitted {lsid : String} (hactive : σ.txnSessions conn lsid ≠ some .active) :
      Contributes σ conn (.commitTransaction lsid) .none
  | start {lsid : String} : Contributes σ conn (.startTransaction lsid) .none
  | abort {lsid : String} : Contributes σ conn (.abortTransaction lsid) .none
  | query {coll : LocalCollection} {q : LocalClient.Query} :
      Contributes σ conn (.query coll q) .none
  | listIndexes {coll : LocalCollection} : Contributes σ conn (.listIndexes coll) .none
  | createIndex {coll : LocalCollection} {keys : Document} {options : Option IndexOptions}
      {e : Effect} (h : ∀ name, ¬coll.IndexTable name → e name = id) :
      Contributes σ conn (.createIndex coll keys options) e
  | dropIndex {coll : LocalCollection} {name : String} {e : Effect}
      (h : ∀ name, ¬coll.IndexTable name → e name = id) :
      Contributes σ conn (.dropIndex coll name) e

inductive Contributed : WireServer → List (Connection × WireCommand) → List Effect → Prop
  | nil {σ : WireServer} : Contributed σ [] []
  | cons {σ : WireServer} {c : Connection × WireCommand} {cs : List (Connection × WireCommand)}
      {e : Effect} {es : List Effect} (h : Contributes env geometry σ c.1 c.2 e)
      (hs : Contributed (step env geometry σ c) cs es) : Contributed σ (c :: cs) (e :: es)

/-- A query from a connection without a transaction would get the same answer without the open one.
-/
def AnswersCommitted (σ : WireServer) : Connection × WireCommand → Prop
  | (conn, .query coll q) => ¬σ.HasOpen conn → (exec env geometry conn (.query coll q) σ).1 =
        (exec env geometry conn (.query coll q)
          { σ with client := { σ.client with txnSlot := Option.none } }).1
  | _ => True

/-- A command on documents comes, while a transaction is open, from the connection that opened
it. -/
def Orderly (σ : WireServer) : Connection × WireCommand → Prop
  | (conn, .write _ _) | (conn, .query _ _) => σ.client.txnSlot.isSome → σ.HasOpen conn
  | _ => True

def Quiet (σ : WireServer) : Prop := σ.client.txnSlot = Option.none ∧ ∀ conn, ¬σ.HasOpen conn

/-- At most one transaction is active, and it is in the slot. -/
structure Consistent (σ : WireServer) : Prop where
  sound : σ.client.Sound
  slot : ∀ conn lsid, σ.txnSessions conn lsid = some .active → σ.client.txnSlot.isSome
  unique : ∀ {conn lsid conn' lsid'}, σ.txnSessions conn lsid = some .active →
    σ.txnSessions conn' lsid' = some .active → conn = conn' ∧ lsid = lsid'

variable {env geometry} {σ : WireServer} {conn : Connection} {lsid : String} {α : Type}

lemma Quiet.consistent (h : σ.Quiet) : σ.Consistent where
  sound := sound_of_none h.1
  slot conn lsid hactive := absurd ⟨lsid, hactive⟩ (h.2 conn)
  unique {conn lsid _ _} hactive _ := absurd ⟨lsid, hactive⟩ (h.2 conn)

lemma Consistent.not_hasOpen (h : σ.Consistent) (hslot : σ.client.txnSlot = Option.none)
    (conn : Connection) : ¬σ.HasOpen conn := by
  rintro ⟨lsid, hactive⟩
  have hsome := h.slot conn lsid hactive
  rw [hslot] at hsome
  exact absurd hsome (by decide)

variable {k : LocalClient}

lemma Consistent.continues (h : σ.Consistent)
    (hk : LocalClient.Continues σ.client k) : Consistent { σ with client := k } where
  sound := hk.sound h.sound
  slot conn lsid hactive := hk.slot.trans (h.slot conn lsid hactive)
  unique := h.unique

lemma Consistent.of_none (h : σ.Consistent) (hslot : σ.client.txnSlot = Option.none)
    (hk : k.txnSlot = Option.none) : Consistent { σ with client := k } where
  sound := sound_of_none hk
  slot conn lsid hactive := absurd ⟨lsid, hactive⟩ (h.not_hasOpen hslot conn)
  unique := h.unique

def withState (σ : WireServer) (k : LocalClient) (conn : Connection) (lsid : String)
    (state : TransactionState) : WireServer :=
  ((setState conn lsid state) { σ with client := k }).2

lemma withState_active {state : TransactionState} {conn' : Connection}
    {lsid' : String} (h : (σ.withState k conn lsid state).txnSessions conn' lsid' = some .active) :
    ((conn', lsid') = (conn, lsid) ∧ state = .active) ∨
      ((conn', lsid') ≠ (conn, lsid) ∧ σ.txnSessions conn' lsid' = some .active) := by
  simp only [withState, setState, modify_apply, Function.update_apply] at h
  by_cases hconn : conn' = conn
  · subst hconn
    rw [if_pos rfl, Function.update_apply] at h
    by_cases hlsid : lsid' = lsid
    · rw [if_pos hlsid] at h
      exact .inl ⟨by rw [hlsid], Option.some.inj h⟩
    · rw [if_neg hlsid] at h
      exact .inr ⟨fun heq => hlsid (Prod.mk.inj heq).2, h⟩
  · rw [if_neg hconn] at h
    exact .inr ⟨fun heq => hconn (Prod.mk.inj heq).1, h⟩

lemma startTransaction_cases (σ : WireServer) (conn : Connection) (lsid : String) :
    (startTransaction conn lsid σ).2 = σ ∨
      σ.client.txnSlot = Option.none ∧ (startTransaction conn lsid σ).2 =
        σ.withState { σ.client with txnSlot := some ⟨true, .empty, []⟩ } conn lsid .active := by
  by_cases hactive : σ.txnSessions conn lsid = some .active
  · have hread : isActive conn lsid σ = (.ok true, σ) := by simp [isActive, hactive]
    exact .inl (congrArg Prod.snd (bind_of_ok hread))
  · have hread : isActive conn lsid σ = (.ok false, σ) := by simp [isActive, hactive]
    have hstart : startTransaction conn lsid σ =
        (onClient wireTxnBegin >>= fun _ => setState conn lsid .active) σ :=
      bind_of_ok hread
    cases hslot : σ.client.txnSlot with
    | some ts =>
      have hbegin : onClient wireTxnBegin σ =
          (.error (.runtimeError "transaction already in progress"), σ) := by
        simp [onClient, wireTxnBegin, hslot]
      rw [hstart, bind_of_error hbegin]
      exact .inl rfl
    | none =>
      have hbegin : onClient wireTxnBegin σ =
          (.ok (), { σ with client := { σ.client with txnSlot := some ⟨true, .empty, []⟩ } }) := by
        simp [onClient, wireTxnBegin, hslot, beginTransaction]
      rw [hstart, bind_of_ok hbegin]
      exact .inr ⟨rfl, rfl⟩

lemma Consistent.start (h : σ.Consistent) : (startTransaction conn lsid σ).2.Consistent := by
  rcases startTransaction_cases σ conn lsid with hsame | ⟨hslot, hend⟩
  · rwa [hsame]
  · have honly : ∀ {conn' lsid'}, (σ.withState { σ.client with
        txnSlot := some ⟨true, .empty, []⟩ } conn lsid .active).txnSessions conn' lsid' =
          some .active → (conn', lsid') = (conn, lsid) := by
      intro conn' lsid' hactive
      rcases withState_active hactive with ⟨heq, -⟩ | ⟨-, hold⟩
      · exact heq
      · exact absurd ⟨lsid', hold⟩ (h.not_hasOpen hslot conn')
    rw [hend]
    refine ⟨fun ts hts => ?_, fun _ _ _ => rfl, fun hactive hactive' => ?_⟩
    · cases hts
      exact ⟨rfl, fun name => rfl⟩
    · exact Prod.mk.inj ((honly hactive).trans (honly hactive').symm)

lemma finishTransaction_of_active (hactive : σ.txnSessions conn lsid = some .active)
    {finish : ClientOp Unit} (hfinish : finish σ.client = (.ok (), k)) (state : TransactionState) :
    finishTransaction conn lsid finish state σ = (.ok (), σ.withState k conn lsid state) := by
  have hread : isActive conn lsid σ = (.ok true, σ) := by simp [isActive, hactive]
  have hclient : onClient finish σ = (.ok (), { σ with client := k }) := by simp [onClient, hfinish]
  exact (bind_of_ok hread).trans (bind_of_ok hclient)

lemma finishTransaction_of_not_active (hactive : σ.txnSessions conn lsid ≠ some .active)
    (finish : ClientOp Unit) (state : TransactionState) :
    (finishTransaction conn lsid finish state σ).2 = σ := by
  have hread : isActive conn lsid σ = (.ok false, σ) := by simp [isActive, hactive]
  exact congrArg Prod.snd (bind_of_ok hread)

lemma Consistent.finish (h : σ.Consistent) (hactive : σ.txnSessions conn lsid = some .active)
    (hk : k.txnSlot = Option.none) {state : TransactionState}
    (hstate : state ≠ .active) : (σ.withState k conn lsid state).Consistent := by
  have hnone : ∀ {conn' lsid'},
      (σ.withState k conn lsid state).txnSessions conn' lsid' ≠ some .active := by
    intro conn' lsid' hactive'
    rcases withState_active hactive' with ⟨-, heq⟩ | ⟨hne, hold⟩
    · exact hstate heq
    · obtain ⟨rfl, rfl⟩ := h.unique hold hactive
      exact hne rfl
  exact ⟨sound_of_none hk, fun _ _ hactive' => absurd hactive' hnone,
    fun hactive' _ => absurd hactive' hnone⟩

lemma map_onClient_snd (m : ClientOp α) (f : α → WireReply) :
    ((onClient m >>= fun a => pure (f a)) σ).2 = { σ with client := (m σ.client).2 } := by
  rw [bind_apply, onClient, zoom_apply]
  rcases m σ.client with ⟨_ | _ | _, _⟩ <;> rfl

lemma map_onClient_ok (m : ClientOp α) (f : α → WireReply) {reply : WireReply} :
    ((onClient m >>= fun a => pure (f a)) σ).1 = .ok reply ↔
      ∃ a, (m σ.client).1 = .ok a ∧ f a = reply := by
  rw [bind_apply, onClient, zoom_apply]
  rcases m σ.client with ⟨_ | _ | _, _⟩ <;> simp

def Does (env : Env) (geometry : Geometry) (σ : WireServer) (c : Connection × WireCommand) : Prop :=
  (step env geometry σ c).Consistent ∧ ∃ e, Contributes env geometry σ c.1 c.2 e ∧
    ∀ name, (step env geometry σ c).client.db.table name = e name (σ.client.db.table name)

lemma does_start (h : σ.Consistent) : Does env geometry σ (conn, .startTransaction lsid) := by
  have hstep : step env geometry σ (conn, .startTransaction lsid) =
      (startTransaction conn lsid σ).2 := snd_bind_pure _ _
  refine ⟨hstep ▸ h.start, .none, .start, fun name => ?_⟩
  rw [hstep]
  rcases startTransaction_cases σ conn lsid with hsame | ⟨-, hend⟩
  · rw [hsame]
    rfl
  · rw [hend]
    rfl

lemma does_commit (h : σ.Consistent) : Does env geometry σ (conn, .commitTransaction lsid) := by
  have hstep : step env geometry σ (conn, .commitTransaction lsid) =
      (commitTransaction conn lsid σ).2 := snd_bind_pure _ _
  by_cases hactive : σ.txnSessions conn lsid = some .active
  · obtain ⟨ts, hts⟩ := Option.isSome_iff_exists.mp (h.slot conn lsid hactive)
    have hcommit : wireTxnCommit σ.client = (.ok (), { σ.client with
        txnSlot := Option.none
        db := ((σ.client.session ts).commitTransaction).2.db }) := by
      rw [wireTxnCommit, hts]
    rw [commitTransaction, finishTransaction_of_active hactive hcommit] at hstep
    refine ⟨hstep ▸ h.finish hactive rfl (by decide), _, .committed hactive hts, fun name => ?_⟩
    rw [hstep, Effect.ofWrites, ← (h.sound ts hts).2 name]
    exact table_commitTransaction _ name
  · rw [commitTransaction, finishTransaction_of_not_active hactive] at hstep
    refine ⟨by rwa [hstep], .none, .notCommitted hactive, fun name => ?_⟩
    rw [hstep]
    rfl

lemma does_abort (h : σ.Consistent) : Does env geometry σ (conn, .abortTransaction lsid) := by
  have hstep : step env geometry σ (conn, .abortTransaction lsid) =
      (abortTransaction conn lsid σ).2 := snd_bind_pure _ _
  by_cases hactive : σ.txnSessions conn lsid = some .active
  · obtain ⟨ts, hts⟩ := Option.isSome_iff_exists.mp (h.slot conn lsid hactive)
    have habort : wireTxnAbort σ.client = (.ok (), { σ.client with txnSlot := Option.none }) := by
      rw [wireTxnAbort, hts]
      rfl
    rw [abortTransaction, finishTransaction_of_active hactive habort] at hstep
    refine ⟨hstep ▸ h.finish hactive rfl (by decide), .none, .abort, fun name => ?_⟩
    rw [hstep]
    rfl
  · rw [abortTransaction, finishTransaction_of_not_active hactive] at hstep
    refine ⟨by rwa [hstep], .none, .abort, fun name => ?_⟩
    rw [hstep]
    rfl

lemma does_write {coll : LocalCollection} {st : Statement} (h : σ.Consistent)
    (horderly : σ.client.txnSlot.isSome → σ.HasOpen conn) :
    Does env geometry σ (conn, .write coll st) := by
  have hstep : step env geometry σ (conn, .write coll st) =
      { σ with client := (write env coll st σ.client).2 } := map_onClient_snd _ _
  cases hslot : σ.client.txnSlot with
  | some ts =>
    have hcontinues := write_continues env coll hslot h.sound st
    refine ⟨hstep ▸ h.continues hcontinues, .none, .buffered (horderly (by rw [hslot]; rfl)),
      fun name => ?_⟩
    rw [hstep]
    exact hcontinues.table name
  | none =>
    have houtside := h.not_hasOpen hslot conn
    obtain ⟨hnone, hdone, hundone⟩ := write_of_none env coll hslot st
    have hconsistent := hstep ▸ h.of_none hslot hnone
    by_cases hok : ∃ reply, (write env coll st σ.client).1 = .ok reply
    · obtain ⟨reply, hreply⟩ := hok
      refine ⟨hconsistent, _, .acknowledged houtside
        ((map_onClient_ok _ _).mpr ⟨reply, hreply, rfl⟩), fun name => ?_⟩
      rw [hstep]
      exact hdone reply hreply name
    · refine ⟨hconsistent, .none, .failed houtside fun reply hreply => ?_, fun name => ?_⟩
      · obtain ⟨r, hr, -⟩ := (map_onClient_ok _ _).mp hreply
        exact hok ⟨r, hr⟩
      · rw [hstep]
        exact hundone (fun reply hreply => hok ⟨reply, hreply⟩) name

lemma does_index {coll : LocalCollection} {cmd : WireCommand} (h : σ.Consistent)
    {m : RedbOp α} {call : String} (hm : Moves (sparing coll.IndexTable) m)
    (hstep : step env geometry σ (conn, cmd) =
      { σ with client := (onEngineOnly call coll m σ.client).2 })
    (hcontributes : ∀ e : Effect, (∀ name, ¬coll.IndexTable name → e name = id) →
      Contributes env geometry σ conn cmd e) : Does env geometry σ (conn, cmd) := by
  classical
  obtain ⟨⟨hsome, hnone⟩, htable⟩ := onEngineOnly_sparing σ.client call hm
  have hconsistent : (step env geometry σ (conn, cmd)).Consistent := by
    rw [hstep]
    cases hslot : σ.client.txnSlot with
    | some ts =>
      rw [hsome (by rw [hslot]; rfl)]
      exact h
    | none => exact h.of_none hslot (hnone hslot)
  refine ⟨hconsistent, fun name t => if coll.IndexTable name then
    (step env geometry σ (conn, cmd)).client.db.table name else t, hcontributes _ ?_, fun name =>
      ?_⟩
  · intro name hname
    funext t
    rw [if_neg hname]
    rfl
  · by_cases hname : coll.IndexTable name
    · exact (if_pos hname).symm
    · refine Eq.trans ?_ (if_neg hname).symm
      rw [hstep]
      exact htable name hname

lemma does_step (env : Env) (geometry : Geometry) (h : σ.Consistent)
    (c : Connection × WireCommand) (horderly : σ.Orderly c) :
    Does env geometry σ c := by
  obtain ⟨conn, cmd⟩ := c
  cases cmd with
  | startTransaction lsid => exact does_start h
  | commitTransaction lsid => exact does_commit h
  | abortTransaction lsid => exact does_abort h
  | write coll st => exact does_write h horderly
  | createIndex coll keys options =>
    exact does_index h (LocalClient.createIndex_sparing keys options) (map_onClient_snd _ _)
      fun _ he => .createIndex he
  | dropIndex coll name =>
    exact does_index h (LocalClient.dropIndex_sparing name) (map_onClient_snd _ fun _ => .done)
      fun _ he => .dropIndex he
  | query coll q =>
    have hstep : step env geometry σ (conn, .query coll q) =
        { σ with client := (query env geometry coll q σ.client).2 } :=
      map_onClient_snd _ _
    have hcontinues := query_continues env geometry coll h.sound q
    refine ⟨hstep ▸ h.continues hcontinues, .none, .query, fun name => ?_⟩
    rw [hstep]
    exact hcontinues.table name
  | listIndexes coll =>
    have hstep : step env geometry σ (conn, .listIndexes coll) =
        { σ with client := (LocalClient.listIndexes env coll σ.client).2 } :=
      map_onClient_snd _ _
    have hcontinues : LocalClient.Continues σ.client
      (LocalClient.listIndexes env coll σ.client).2 := LocalClient.listIndexes_continues
    refine ⟨hstep ▸ h.continues hcontinues, .none, .listIndexes, fun name => ?_⟩
    rw [hstep]
    exact hcontinues.table name

lemma exists_contributed (h : σ.Consistent) {cmds : List (Connection × WireCommand)}
    (hcmds : Along (step env geometry) Orderly σ cmds) :
    ∃ effects, Contributed env geometry σ cmds effects ∧
      ∀ name, (cmds.foldl (step env geometry) σ).client.db.table name =
        Effect.replay effects name (σ.client.db.table name) := by
  induction cmds generalizing σ with
  | nil => exact ⟨[], .nil, fun _ => rfl⟩
  | cons c cmds ih =>
    obtain ⟨hnext, e, hcontributes, htable⟩ := does_step env geometry h c hcmds.1
    obtain ⟨effects, hcontributed, hreplay⟩ := ih hnext hcmds.2
    refine ⟨e :: effects, .cons hcontributes hcontributed, fun name => ?_⟩
    rw [List.foldl_cons, hreplay name, htable name]
    rfl

lemma answersCommitted (c : Connection × WireCommand) (horderly : σ.Orderly c) :
    AnswersCommitted env geometry σ c := by
  obtain ⟨conn, cmd⟩ := c
  cases cmd with
  | query coll q =>
    intro houtside
    cases hslot : σ.client.txnSlot with
    | some ts => exact absurd (horderly (by rw [hslot]; rfl)) houtside
    | none =>
      have hsame : { σ with client := { σ.client with txnSlot := Option.none } } = σ := by
        rw [← hslot]
      rw [hsame]
  | _ => trivial

/-- Transactions are isolated if only the connection that opened one works on documents meanwhile.
-/
theorem transactions_isolated (env : Env) (geometry : Geometry) (σ : WireServer) (hσ : σ.Quiet)
    (cmds : List (Connection × WireCommand)) (hcmds : Along (step env geometry) Orderly σ cmds) :
    (∃ effects, Contributed env geometry σ cmds effects ∧
      ∀ name, (cmds.foldl (step env geometry) σ).client.db.table name =
        Effect.replay effects name (σ.client.db.table name)) ∧
    Along (step env geometry) (AnswersCommitted env geometry) σ cmds :=
  ⟨exists_contributed hσ.consistent hcmds, hcmds.mono fun _ c => answersCommitted c⟩

end WireServer

namespace Sample

def shopUsers : LocalCollection := { dbName := "shop", name := "users" }

def logged (coll : LocalCollection) (tick : ℕ) (id a : Bson) : Document :=
  oplogEntryToDocument
    { ts := .ofInt tick
      ns := coll.dbName ++ "." ++ coll.name
      op := "insert"
      docId := bsonToJsonValue env id
      payload := some (bsonToJsonValue env (.document (doc id a)))
      changedFields := none
      nodeId := coll.nodeId }

def loggedEnv : Env :=
  Env.ofLists (documents ++ (List.range 3).flatMap fun tick =>
    [logged shopUsers tick (.int32 1) (.string "x"),
      logged shopUsers tick (.int32 2) (.string "x")])
    [ascending, unique]

def flat : Geometry where
  rangeMin _ := 0
  rangeMax _ := 0
  queryCapCovering _ _ _ := []
  extractLonLat _ := none
  haversineMeters _ _ _ _ := .ofInt 0
  iterate := id

def emptyClient : LocalClient := ⟨⟨fun _ => none, []⟩, none, 0⟩

def emptyServer : WireServer := ⟨emptyClient, fun _ _ => none⟩

def insertUser (id : Int32) : WireCommand := .write shopUsers (insert (.int32 id) (.string "x"))

def countUsers : WireCommand := .query shopUsers (.countDocuments [])

abbrev serve (σ : WireServer) (cmds : List (Connection × WireCommand)) : WireServer :=
  cmds.foldl (WireServer.step loggedEnv flat) σ

def isolatedRun : List (Connection × WireCommand) :=
  [(1, insertUser 1), (0, .startTransaction "s"), (0, insertUser 2), (0, .abortTransaction "s"),
    (1, countUsers)]

lemma emptyServer_quiet : emptyServer.Quiet := by
  refine ⟨rfl, ?_⟩
  rintro conn ⟨lsid, hactive⟩
  cases hactive

lemma isolatedRun_orderly :
    Along (WireServer.step loggedEnv flat) WireServer.Orderly emptyServer isolatedRun := by
  have hempty : ∀ σ : WireServer, σ.client.txnSlot.isNone = true → ∀ conn,
      σ.client.txnSlot.isSome → σ.HasOpen conn := by
    intro σ hnone conn hsome
    cases hslot : σ.client.txnSlot with
    | none => rw [hslot] at hsome; cases hsome
    | some ts => rw [hslot] at hnone; cases hnone
  refine ⟨hempty _ (by decide +kernel) 1, trivial, fun _ => ⟨"s", by decide +kernel⟩, trivial,
    hempty _ (by decide +kernel) 1, trivial⟩

end Sample

namespace WireServer

section

open Sample

theorem transactions_isolated_abort :
    (∃ effects, Contributed loggedEnv flat emptyServer isolatedRun effects ∧
      ∀ name, (isolatedRun.foldl (step loggedEnv flat) emptyServer).client.db.table name =
        Effect.replay effects name (emptyServer.client.db.table name)) ∧
    Along (step loggedEnv flat) (AnswersCommitted loggedEnv flat) emptyServer isolatedRun ∧
    ((serve emptyServer isolatedRun).client.db.table "users").get (Bytes.utf8 "1") =
      some ((bsonBytes (doc (.int32 1) (.string "x"))).getD []) ∧
    ((serve emptyServer isolatedRun).client.db.table "users").get (Bytes.utf8 "2") =
      Option.none := by
  obtain ⟨heffects, hanswers⟩ := transactions_isolated loggedEnv flat emptyServer emptyServer_quiet
    isolatedRun isolatedRun_orderly
  exact ⟨heffects, hanswers, by decide +kernel, by decide +kernel⟩

/-- An insert of connection 1 is lost when connection 0 aborts, and its count sees what that one
wrote. -/
theorem transactions_not_isolated : let started := serve emptyServer [(0, .startTransaction "s")]
    let written := serve started [(1, insertUser 1)]
    let aborted := serve written [(0, .abortTransaction "s")]
    let inside := serve started [(0, insertUser 2)]
    ¬started.HasOpen 1 ∧
    ((exec loggedEnv flat 1 (insertUser 1) started).1 = .ok (.written (.insertOne ⟨.int32 1⟩)) ∧
      (aborted.client.db.table "users").get (Bytes.utf8 "1") = Option.none) ∧
    ¬inside.HasOpen 1 ∧
    ((exec loggedEnv flat 1 countUsers inside).1 = .ok (.answered (.count 1)) ∧
      (inside.client.db.table "users").rows = []) := by
  intro started written aborted inside
  have hstarted : ¬started.HasOpen 1 := by
    rintro ⟨lsid, hactive⟩
    cases hactive
  -- a write does not touch the states of transactions
  have hnot : ¬inside.HasOpen 1 := by
    rintro ⟨lsid, hactive⟩
    exact hstarted ⟨lsid, hactive⟩
  exact ⟨hstarted, by decide, hnot, by decide⟩

end

end WireServer

end Smongo
