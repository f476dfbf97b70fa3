import Smongo.Client.Transactions
import Smongo.Collection.IndexRows

/-!
# Several handles of one collection

Each handle keeps the list of indexes that it has read last.
-/

namespace Smongo

open Eff List RedbSession Function

/-! ### A cached list -/

structure World.Agree (env : Env) (c : Handle) (w w' : RedbWorld) : Prop where
  session : w.session = w'.session
  ticks : w.ticks = w'.ticks
  hub : w.hub = w'.hub
  listed : listed env c w = listed env c w'

section

variable {env : Env} {c : Handle} {w w' : RedbWorld} {α : Type}

lemma World.eq_of_parts (hsession : w.session = w'.session)
    (hcache : w.indexCache = w'.indexCache) (hticks : w.ticks = w'.ticks) (hhub : w.hub = w'.hub) :
    w = w' := by
  obtain ⟨session, cache, ticks, hub⟩ := w
  cases hsession
  cases hcache
  cases hticks
  cases hhub
  rfl

lemma listed_doWrite_of_ne {name : String} (h : c.metadataTable ≠ name) (op : PendingWrite)
    (w : RedbWorld) :
    listed env c { w with session := (doWrite name op w.session).2 } = listed env c w := by
  unfold listed
  rw [RedbCursor.shown_doWrite_of_ne h]

lemma listed_begin_of_idle (hw : w.session.inTransaction = false) :
    listed env c w.begin = listed env c w := by
  unfold listed
  rw [shown_begin, shown_of_idle hw]
  rfl

lemma Uses.respects_agree {P W : String → Prop} {m : RedbOp α} {Q : α → Prop}
    (h : Uses env c P W m Q) (hW : ¬W c.metadataTable) : Respects (World.Agree env c) m Q := by
  refine Composed.respects (fun {α m Q} hprim => ?_) h
  intro w w' hw
  cases hprim with
  | draw name _ =>
    exact ⟨congrArg Outcome.ok hw.ticks,
      ⟨hw.session, congrArg (· + 1) hw.ticks, hw.hub, hw.listed⟩, fun _ _ => trivial⟩
  | list _ =>
    rw [listIndexes_apply, listIndexes_apply, ← hw.listed]
    refine ⟨rfl, ?_, fun _ _ => trivial⟩
    cases listed env c w with
    | ok specs => exact ⟨hw.session, hw.ticks, hw.hub, rfl⟩
    | error e | panic => exact hw
  | look g _ hq => exact ⟨congrArg g hw.session, hw, hq _⟩
  | write name op hname =>
    have hne : c.metadataTable ≠ name := by
      rintro rfl
      exact hW hname
    refine ⟨rfl, ⟨?_, hw.ticks, hw.hub, ?_⟩, fun _ _ => trivial⟩
    · exact congrArg (fun s => (doWrite name op s).2) hw.session
    · refine (listed_doWrite_of_ne hne op w).trans (hw.listed.trans ?_)
      exact (listed_doWrite_of_ne hne op w').symm
  | notify cfg hcfg _ entry =>
    exact ⟨rfl, ⟨hw.session, hw.ticks, congrArg (OplogHub.notify · entry) hw.hub, hw.listed⟩,
      fun _ _ => trivial⟩

def RunsAlike (m : RedbOp α) (w w' : RedbWorld) : Prop :=
  (m w).1 = (m w').1 ∧ (m w).2.session = (m w').2.session

lemma Eff.Respects.alike {m : RedbOp α} {Q : α → Prop}
    (hm : Respects (World.Agree env c) m Q) (h : w.Agree env c w') : RunsAlike m w w' := by
  obtain ⟨houtcome, hagree, -⟩ := hm w w' h
  exact ⟨houtcome, hagree.session⟩

lemma World.Agree.listing (h : w.Agree env c w') (f : List IndexSpec → RedbOp α) :
    RunsAlike (listIndexes env c >>= f) w w' := by
  unfold RunsAlike
  rw [bind_apply, bind_apply, listIndexes_apply, listIndexes_apply, ← h.listed]
  cases Smongo.listed env c w with
  | ok specs =>
    have heq : ({ w with indexCache := some specs } : RedbWorld) =
        { w' with indexCache := some specs } := World.eq_of_parts h.session rfl h.ticks h.hub
    dsimp only
    rw [heq]
    exact ⟨rfl, rfl⟩
  | error e | panic => exact ⟨rfl, h.session⟩

lemma World.Agree.withBatchedWrite {f : RedbOp α}
    (hf : Respects (World.Agree env c) f) (hw : w.session.inTransaction = false)
    (h : w.Agree env c w') : RunsAlike (withBatchedWrite f) w w' := by
  have hw' : w'.session.inTransaction = false := h.session ▸ hw
  have hbegin : w.begin.Agree env c w'.begin := by
    refine ⟨congrArg (fun s => (beginTransaction s).2) h.session, h.ticks, h.hub, ?_⟩
    rw [listed_begin_of_idle hw, listed_begin_of_idle hw', h.listed]
  obtain ⟨houtcome, hagree, -⟩ := hf _ _ hbegin
  unfold RunsAlike
  rw [withBatchedWrite_of_not_inTransaction f hw, withBatchedWrite_of_not_inTransaction f hw']
  rcases hr : f w.begin with ⟨a | e | _, t⟩ <;> rcases hr' : f w'.begin with ⟨a' | e' | _, t'⟩ <;>
    rw [hr, hr'] at houtcome hagree <;> cases houtcome
  · exact ⟨rfl, congrArg (fun s => (commitTransaction s).2) hagree.session⟩
  · exact ⟨rfl, congrArg (fun s => (rollbackTransaction s).2) hagree.session⟩
  · exact ⟨rfl, hagree.session⟩

lemma Statement.alike_exec (hsep : c.Separate) (hw : w.session.inTransaction = false)
    (h : w.Agree env c w') (st : Statement) : RunsAlike (st.exec env c) w w' := by
  let W : String → Prop := fun t => t ≠ c.metadataTable
  have hindex : ∀ name t, c.OfIndex name t → W t := by
    rintro name t ht rfl
    exact c.not_ofIndex_metadataTable name ht
  have hprepare := st.composed_prepare env (Primitive env c (fun _ => True) W)
    (.draw _ hsep.data_metadata) c.reads_all hindex hsep.data_metadata hsep.oplog_metadata
  have hsession := (st.moves_prepare (admits_writing env c fun _ => True) (fun _ _ _ => trivial)
    trivial (fun _ _ => trivial) w).1.1
  obtain ⟨houtcome, hagree, hbody⟩ := Uses.respects_agree hprepare (fun hne => hne rfl) w w' h
  unfold RunsAlike
  rw [Statement.exec_eq, bind_apply, bind_apply]
  rcases hr : st.prepare env c w with ⟨body | e | _, t⟩ <;>
    rcases hr' : st.prepare env c w' with ⟨body' | e' | _, t'⟩ <;>
    rw [hr, hr'] at houtcome hagree <;> rw [hr] at hsession hbody <;> cases houtcome
  · have hidle : t.session.inTransaction = false := by rw [hsession, hw]
    exact hagree.withBatchedWrite (Uses.respects_agree (hbody body rfl) fun hne => hne rfl) hidle
  · exact ⟨rfl, hagree.session⟩
  · exact ⟨rfl, hagree.session⟩

structure World.Twin (w w' : RedbWorld) : Prop where
  session : w.session = w'.session
  ticks : w.ticks = w'.ticks
  hub : w.hub = w'.hub

lemma respects_twin_onSession (m : Eff RedbSession StorageError α) :
    Respects World.Twin (onSession m) := by
  intro w w' h
  rw [onSession_apply, onSession_apply, h.session]
  exact ⟨rfl, ⟨rfl, h.ticks, h.hub⟩, fun _ _ => trivial⟩

lemma respects_twin_removeIfFound (name : String) (key : Bytes) :
    Respects World.Twin (removeIfFound name key) := by
  have hmove : ∀ cursor : RedbCursor,
      Respects World.Twin (move StorageSession.search cursor) := fun cursor =>
    .read fun w w' h => congrArg (StorageSession.search cursor) h.session
  refine (respects_twin_onSession _).bind fun cursor _ => (hmove _).bind fun r _ => ?_
  obtain ⟨_ | _, cursor'⟩ := r
  · exact .pure trivial
  · exact respects_twin_onSession _

lemma World.Twin.bind {β : Type} {m : RedbOp α} {f : α → RedbOp β}
    (hm : Respects World.Twin m) (hf : ∀ a t t', World.Twin t t' → RunsAlike (f a) t t')
    (h : w.Twin w') : RunsAlike (m >>= f) w w' := by
  obtain ⟨houtcome, htwin, -⟩ := hm w w' h
  unfold RunsAlike
  rw [bind_apply, bind_apply]
  rcases hr : m w with ⟨a | e | _, t⟩ <;> rcases hr' : m w' with ⟨a' | e' | _, t'⟩ <;>
    rw [hr, hr'] at houtcome htwin <;> cases houtcome
  · exact hf a t t' htwin
  · exact ⟨rfl, htwin.session⟩
  · exact ⟨rfl, htwin.session⟩

lemma World.Twin.dropIndexNamed (h : w.Twin w') (name : String) :
    RunsAlike (dropIndexNamed env c name) w w' := by
  refine h.bind (respects_twin_onSession _) fun _ t t' ht =>
    ht.bind (respects_twin_removeIfFound _ _) fun _ u u' hu => ?_
  have heq : u.uncached = u'.uncached := World.eq_of_parts hu.session rfl hu.ticks hu.hub
  have hrest : ∀ v : RedbWorld, (invalidateIndexCache >>= fun _ =>
      appendOplogIfEnabled env c "index_drop" (.string name) none false none) v =
      appendOplogIfEnabled env c "index_drop" (.string name) none false none v.uncached :=
    fun _ => rfl
  rw [RunsAlike, hrest, hrest, heq]
  exact ⟨rfl, rfl⟩

lemma RunsAlike.map {β : Type} {m : RedbOp α} (h : RunsAlike m w w') (f : α → β) :
    RunsAlike (m >>= fun a => pure (f a)) w w' := by
  obtain ⟨houtcome, hsession⟩ := h
  unfold RunsAlike
  rw [bind_apply, bind_apply]
  rcases hr : m w with ⟨a | e | _, t⟩ <;> rcases hr' : m w' with ⟨a' | e' | _, t'⟩ <;>
    rw [hr, hr'] at houtcome hsession <;> cases houtcome <;> exact ⟨rfl, hsession⟩

lemma alike_ofOutcome_bind {β : Type} {r : Outcome CollectionError α}
    {f : α → RedbOp β} (hsession : w.session = w'.session) (hf : ∀ a, RunsAlike (f a) w w') :
    RunsAlike (ofOutcome r >>= f) w w' := by
  cases r with
  | ok a => exact hf a
  | error e | panic => exact ⟨rfl, hsession⟩

lemma alike_createIndex (h : w.Agree env c w') (keys : Document)
    (options : Option IndexOptions) : RunsAlike (createIndex env c keys options) w w' :=
  alike_ofOutcome_bind h.session fun _ => h.listing _

lemma alike_dropIndex (h : w.Agree env c w') (fuel : ℕ) (name : String) :
    RunsAlike (dropIndex env c (fuel + 1) name) w w' := by
  rw [dropIndex]
  split
  · exact h.listing _
  · exact World.Twin.dropIndexNamed ⟨h.session, h.ticks, h.hub⟩ name

lemma Call.alike_exec (hsep : c.Separate) (hw : w.session.inTransaction = false)
    (h : w.Agree env c w') (call : Call) : RunsAlike (call.exec env c) w w' := by
  cases call with
  | statement st => exact st.alike_exec hsep hw h
  | createIndex keys options => exact (alike_createIndex h keys options).map Reply.createIndex
  | dropIndex name => exact (alike_dropIndex h 1 name).map fun _ => Reply.dropIndex

end

structure HandleConfig where
  validator : Option Document := none
  oplog : Option CollectionOplogSettings := none

def Handle.withConfig (c : Handle) (config : HandleConfig) : Handle :=
  { c with validator := config.validator, oplog := config.oplog }

structure SharedCollection (ι : Type) where
  db : Redb
  sessions : ι → TransactionSession
  caches : ι → Option (List IndexSpec)
  ticks : ℕ
  hub : OplogHub

inductive HandleCall
  | call (x : Call)
  | query (q : LocalClient.Query)

inductive HandleReply
  | reply (r : Reply)
  | answer (a : LocalClient.Answer)
deriving DecidableEq

def HandleCall.exec (env : Env) (geometry : Geometry) (c : Handle) : HandleCall → RedbOp HandleReply
  | call x => do return .reply (← x.exec env c)
  | query q => do return .answer (← q.exec env geometry c)

namespace SharedCollection

variable {ι : Type} (env : Env) (geometry : Geometry) (c : Handle)
  (config : ι → HandleConfig) (σ : SharedCollection ι)

def world (i : ι) : RedbWorld where
  session := ⟨σ.db, (σ.sessions i).inTransaction, (σ.sessions i).pendingWrites,
    (σ.sessions i).issued⟩
  indexCache := σ.caches i
  ticks := σ.ticks
  hub := σ.hub

def withWorld [DecidableEq ι] (σ : SharedCollection ι) (i : ι) (w : RedbWorld) :
    SharedCollection ι where
  db := w.session.db
  sessions := update σ.sessions i
    ⟨w.session.inTransaction, w.session.pendingWrites, w.session.issued⟩
  caches := update σ.caches i w.indexCache
  ticks := w.ticks
  hub := w.hub

def step [DecidableEq ι] (σ : SharedCollection ι) (x : ι × HandleCall) : SharedCollection ι :=
  σ.withWorld x.1 (x.2.exec env geometry (c.withConfig (config x.1)) (σ.world x.1)).2

def specs : List IndexSpec := specsIn env (σ.db.table c.metadataTable)

def RowsDerived : Prop :=
  ∀ spec ∈ σ.specs env c, spec.IsBTree → Derived (spec.covers env) (spec.row env)
    (docAt env (σ.db.table c.tableName)) (σ.db.table (c.indexTable spec.name)).get

def AsIfOpened (x : ι × HandleCall) : Prop :=
  RunsAlike (x.2.exec env geometry (c.withConfig (config x.1))) (σ.world x.1) (σ.world x.1).uncached

def Current (i : ι) : Prop := ∀ specs, σ.caches i = some specs → specs = σ.specs env c

structure KeptByOne (c : Handle) (w : RedbWorld) (x : Call) : Prop where
  returns : x.Returns env c w
  ordinary : x.Ordinary env c w
  steady : x.Steady env c w

/-- A call through a handle with a current list that keeps the indexes derived. -/
structure Careful (σ : SharedCollection ι) (x : ι × HandleCall) : Prop where
  current : σ.Current env c x.1
  kept : ∀ y, x.2 = .call y → KeptByOne env (c.withConfig (config x.1)) (σ.world x.1) y

structure New (σ : SharedCollection ι) : Prop where
  idle : ∀ i, (σ.sessions i).inTransaction = false
  data : σ.db.table c.tableName = .empty
  metadata : σ.db.table c.metadataTable = .empty
  index : ∀ name, σ.db.table (c.indexTable name) = .empty

section

variable {env geometry c config} {σ : SharedCollection ι} {i : ι}

lemma Current.agree (h : σ.Current env c i) (hidle : (σ.sessions i).inTransaction = false)
    (hcatalogued : Catalogued env (σ.db.table c.metadataTable)) :
    (σ.world i).Agree env (c.withConfig (config i)) (σ.world i).uncached := by
  refine ⟨rfl, rfl, rfl, ?_⟩
  have hread : readSpecs env (RedbCursor.shown (σ.world i).session c.metadataTable) =
      .ok (σ.specs env c) := by
    rw [shown_of_idle (w := σ.world i) hidle]
    exact hcatalogued.readSpecs_eq
  have hfresh : listed env (c.withConfig (config i)) (σ.world i).uncached = .ok (σ.specs env c) :=
    hread
  rw [hfresh, listed]
  cases hcache : (σ.world i).indexCache with
  | none => exact hread
  | some specs => rw [h specs hcache]

variable (env c) in
/-- No transaction is open, and the listed indexes are derived from documents with `ObjectId`s. -/
structure Coherent (σ : SharedCollection ι) : Prop where
  idle : ∀ i, (σ.sessions i).inTransaction = false
  catalogued : Catalogued env (σ.db.table c.metadataTable)
  unlisted : ∀ name, (σ.db.table c.metadataTable).get (Bytes.utf8 name) = none →
    σ.db.table (c.indexTable name) = .empty
  sound : Sound env c (σ.specs env c) σ.db.table
  stored : ∀ k d, docAt env (σ.db.table c.tableName) k = some d → OidPair k d

lemma New.coherent (h : σ.New c) : Coherent env c σ := by
  have hspecs : σ.specs env c = [] := by
    rw [specs, h.metadata]
    rfl
  refine ⟨h.idle, fun key bytes hget => ?_, fun name _ => h.index name, ⟨fun key bytes hget => ?_,
    ?_⟩,
    fun k d hd => ?_⟩
  · rw [h.metadata] at hget
    cases hget
  · rw [h.data] at hget
    cases hget
  · rw [hspecs]
    exact fun spec hmem => nomatch hmem
  · rw [h.data] at hd
    cases hd

lemma Coherent.settled (h : Coherent env c σ) (hcurrent : σ.Current env c i) :
    Settled env (c.withConfig (config i)) (σ.world i) :=
  ⟨h.idle i, h.catalogued, hcurrent, h.unlisted⟩

variable [DecidableEq ι]

lemma idle_withWorld (hidle : ∀ i, (σ.sessions i).inTransaction = false) {w : RedbWorld}
    (hw : w.session.inTransaction = false) (j : ι) :
    ((σ.withWorld i w).sessions j).inTransaction = false := by
  dsimp only [withWorld]
  by_cases hj : j = i
  · rw [hj, update_self]
    exact hw
  · rw [update_of_ne hj]
    exact hidle j

lemma Coherent.call (h : Coherent env c σ) (hcodec : env.Codec)
    (hsep : (c.withConfig (config i)).Separate) (hcurrent : σ.Current env c i) {x : Call}
    (hkept : KeptByOne env (c.withConfig (config i)) (σ.world i) x) :
    Coherent env c (σ.withWorld i (x.step env (c.withConfig (config i)) (σ.world i))) := by
  set c' := c.withConfig (config i)
  set w := σ.world i
  have hsettled : Settled env c' w := h.settled hcurrent
  have hdoes := Call.does_step hsep hsettled hkept.returns
  have hsound : Sound env c' ((w.specs env c').filter fun _ => true) w.committed := by
    rw [filter_true]
    exact ⟨h.sound.keyed, h.sound.derived⟩
  have hkeeps := hkept.steady.keeps hkept.ordinary hsound h.stored
  have hsettled' := hdoes.settled hcodec hsep hsettled
  have hsound' := hdoes.sound hcodec hsep hsettled hsound hkeeps
  rw [filter_true] at hsound'
  refine ⟨idle_withWorld h.idle hsettled'.idle, hsettled'.catalogued, hsettled'.unlisted,
    ⟨hsound'.keyed, hsound'.derived⟩, fun k d hd => ?_⟩
  rcases hdoes.stored hcodec hsep hsettled hsound hkeeps hd with hd | ⟨st, rfl, hpair⟩
  · exact h.stored k d hd
  · exact Statement.DistinctIds.oidPair hkept.ordinary h.stored hpair

lemma Coherent.query (h : Coherent env c σ) (q : LocalClient.Query) : Coherent env c
      (σ.withWorld i (q.exec env geometry (c.withConfig (config i)) (σ.world i)).2) := by
  have hsession : (q.exec env geometry (c.withConfig (config i)) (σ.world i)).2.session =
      (σ.world i).session :=
    ((LocalClient.admits_reading env (c.withConfig (config i))).moves
      (q.uses_exec (Handle.reads_all _)) _).1
  have hdb : (σ.withWorld i (q.exec env geometry (c.withConfig (config i)) (σ.world i)).2).db =
      σ.db := congrArg RedbSession.db hsession
  have hidle : ∀ j, ((σ.withWorld i
      (q.exec env geometry (c.withConfig (config i)) (σ.world i)).2).sessions j).inTransaction =
        false := by
    apply idle_withWorld h.idle
    rw [hsession]
    exact h.idle i
  refine ⟨hidle, ?_, ?_, ?_, ?_⟩
  · rw [hdb]
    exact h.catalogued
  · rw [hdb]
    exact h.unlisted
  · rw [specs, hdb]
    exact h.sound
  · rw [hdb]
    exact h.stored

section

variable (h : Coherent env c σ) (hsep : ∀ i, (c.withConfig (config i)).Separate)
  {x : ι × HandleCall} (hcareful : σ.Careful env c config x)
include h hsep hcareful

lemma Coherent.step (hcodec : env.Codec) : Coherent env c (σ.step env geometry c config x) := by
  obtain ⟨i, y | q⟩ := x
  · have hworld : (HandleCall.exec env geometry (c.withConfig (config i)) (.call y) (σ.world i)).2 =
        y.step env (c.withConfig (config i)) (σ.world i) := snd_bind_pure _ HandleReply.reply
    rw [SharedCollection.step, hworld]
    exact h.call hcodec (hsep i) hcareful.current (hcareful.kept y rfl)
  · have hworld :
        (HandleCall.exec env geometry (c.withConfig (config i)) (.query q) (σ.world i)).2 =
        (q.exec env geometry (c.withConfig (config i)) (σ.world i)).2 :=
      snd_bind_pure _ HandleReply.answer
    rw [SharedCollection.step, hworld]
    exact h.query q

omit [DecidableEq ι] in
lemma Coherent.asIfOpened :
    σ.AsIfOpened env geometry c config x := by
  obtain ⟨i, y | q⟩ := x
  · have hagree : (σ.world i).Agree env (c.withConfig (config i)) (σ.world i).uncached :=
      hcareful.current.agree (h.idle i) h.catalogued
    exact (y.alike_exec (hsep i) (h.idle i) hagree).map HandleReply.reply
  · have hagree : (σ.world i).Agree env (c.withConfig (config i)) (σ.world i).uncached :=
      hcareful.current.agree (h.idle i) h.catalogued
    have hreads : Uses env (c.withConfig (config i)) _ (fun _ => False)
        (q.exec env geometry (c.withConfig (config i))) _ := q.uses_exec (Handle.reads_all _)
    exact ((Uses.respects_agree hreads id).alike hagree).map HandleReply.answer

end

end

/-- Through handles with current index lists, every call does what it does through a new one. -/
theorem handles_coherent [DecidableEq ι] (env : Env) (geometry : Geometry) (c : Handle)
    (config : ι → HandleConfig) (hcodec : env.Codec)
    (hsep : ∀ i, (c.withConfig (config i)).Separate)
    (σ : SharedCollection ι) (hσ : σ.New c) (calls : List (ι × HandleCall))
    (hrun : Along (step env geometry c config) (Careful env c config) σ calls) :
    RowsDerived env c (calls.foldl (step env geometry c config) σ) ∧
      Along (step env geometry c config) (AsIfOpened env geometry c config) σ calls := by
  constructor
  · have hcoherent := hrun.invariant (I := Coherent env c)
      (fun σ x h hcareful => h.step hsep hcareful hcodec) hσ.coherent
    exact hcoherent.sound.derived
  · have hstart : Coherent env c σ := hσ.coherent
    clear hσ
    induction calls generalizing σ with
    | nil => trivial
    | cons x calls ih =>
      obtain ⟨hcareful, hrest⟩ := hrun
      exact ⟨hstart.asIfOpened hsep hcareful, ih _ hrest (hstart.step hsep hcareful hcodec)⟩

end SharedCollection

namespace Sample

def opened : SharedCollection Bool where
  db := start.session.db
  sessions := fun _ => ⟨false, .empty, []⟩
  caches := fun _ => none
  ticks := 0
  hub := {}

def bySteps (calls : List (Bool × HandleCall)) : SharedCollection Bool :=
  calls.foldl (SharedCollection.step env flat handle fun _ => {}) opened

lemma opened_new : opened.New handle where
  idle _ := rfl
  data := start_new.data
  metadata := start_new.metadata
  index := start_new.index

def createThenInsert : List (Bool × HandleCall) :=
  [(false, .call (create ascending)),
    (true, .call (.statement (insert (.objectId oid) (.string "x"))))]

end Sample

section

open Sample SharedCollection

theorem handles_coherent_create_insert : (bySteps createThenInsert).specs env handle = [ascending] ∧
      docAt env ((bySteps createThenInsert).db.table "t") (Bytes.utf8 oid.toHex) =
        some (doc (.objectId oid) (.string "x")) ∧
      RowsDerived env handle (bySteps createThenInsert) := by
  refine ⟨rfl, rfl,
    (handles_coherent env flat handle (fun _ => {}) codec (fun _ => separate) opened opened_new
      createThenInsert ⟨⟨fun specs h => ?_, fun y hy => ?_⟩, ⟨fun specs h => ?_, fun y hy => ?_⟩,
        trivial⟩).1⟩
  · cases h
  · cases hy
    exact ⟨by decide, fun _ _ h => absurd h (by decide), fun _ _ h => absurd rfl h⟩
  · have hnone : (bySteps [(false, .call (create ascending))]).caches true = none := by
      decide +kernel
    cases hnone.symm.trans h
  · cases hy
    refine ⟨by decide, ?_, nofun⟩
    have hempty : ((bySteps [(false, .call (create ascending))]).world true).begin.view
        handle.tableName = .empty := rfl
    refine ⟨fun doc hdoc => ?_, fun doc _ k d hd => ?_, pairwise_singleton _ _,
      nofun⟩
    · rw [mem_singleton.mp hdoc]
      exact ⟨oid, rfl⟩
    · have hnone : docAt env (OrderedTable.empty : Table) k = some d := hempty ▸ hd
      cases hnone

/-- A handle that has read the index list does not maintain an index that another one has made
since. -/
theorem stale_list_misses_index : ¬ RowsDerived env handle
      (bySteps ((false, .query (.find [] none)) :: [(true, .call (create ascending)),
          (false, .call (.statement (insert (.objectId oid) (.string "x"))))])) := by
  intro h
  have hrow := (h ascending (by decide) (by decide)
    (ascending.row env (doc (.objectId oid) (.string "x")) (Bytes.utf8 oid.toHex)) _).mpr
      ⟨doc (.objectId oid) (.string "x"), rfl, rfl, rfl⟩
  exact absurd hrow (by decide)

end

end Smongo
