import Smongo.Sync.Snapshot

/-!
# Pulling a namespace

A pull tries the change stream, a snapshot and then events, and falls back to polling.
-/

namespace Smongo

open List OrderedTable

/-- A document of the remote collection, and the place of the write that made it. -/
structure Version where
  doc : Document
  number : ℕ
deriving DecidableEq

inductive RemoteChange
  | insert (version : Version)
  | replace (version : Version)
  | update (id : Bson) (updatedFields removedFields : List String)
  | delete (id : Bson)

def changedFields (updated removed : List String) : Option (List String) :=
  if updated ≠ [] ∨ removed ≠ [] then some (updated ++ removed).eraseDups else none

structure PullSettings (κ τ : Type) where
  useChangeStream : Bool := true
  batchSize : ℕ := 100
  nsFilter : Option SyncFilter := none
  active : Option SyncFilter := none
  /-- The order of the ids. -/
  key : Bson → κ
  /-- Whether `{"_id": {"$gt": a}}` matches the id `b`. -/
  gt : Bson → Bson → Bool
  /-- What is read back from the JSON text of an id. -/
  reread : Bson → Bson
  number : Bson → Option τ
  zero : τ
  /-- Whether the server gives a token for a stream that has returned nothing. -/
  givesToken : Bool := true

/-- What goes wrong in a turn. -/
inductive PullFault
  | server (e : PyError)
  /-- A local write raises, after `n` others. -/
  | localWrite (n : ℕ) (e : PyError)
  | checkpoint (e : PyError)

namespace PullFault

def inServer : PullFault → Option PyError
  | server e => some e
  | _ => none

def inLocalWrite : PullFault → Option (ℕ × PyError)
  | localWrite n e => some (n, e)
  | _ => none

def inCheckpoint : PullFault → Option PyError
  | checkpoint e => some e
  | _ => none

end PullFault

inductive PullPhase (τ : Type)
  | idle
  /-- At the top of the loop over the pages. -/
  | paging (lastId : Bson)
  | pagesRead
  | opening
  | watching (position processed : ℕ)
  | polling
  | polled (found : List Version) (lastTs : τ)

/-- A call of `_upsert_remote_doc`. -/
structure HandedOver where
  version : Version
  remoteChanged : Option (List String) := none

variable {κ τ : Type} [LinearOrder κ]

structure PullState (κ τ : Type) [LinearOrder κ] where
  remote : OrderedTable κ Version := .empty
  log : List RemoteChange := []
  /-- The checkpoint `pull_cs_init`. -/
  init : Bool := false
  /-- The checkpoint `pull_cs_page`. -/
  page : Option Bson := none
  /-- The checkpoint `pull_cs_token`: a place in the log. -/
  token : Option ℕ := none
  /-- The checkpoint `pull_ts`. -/
  pullTs : Option τ := none
  phase : PullPhase τ := .idle
  /-- The calls of `_upsert_remote_doc` that have returned. -/
  handed : List HandedOver := []

namespace PullSettings

variable (cfg : PullSettings κ τ) (remote : OrderedTable κ Version)

def versions : List Version := remote.rows.map Prod.snd

def findAfter (lastId : Bson) : List Version :=
  if lastId ≠ .null then (versions remote).filter fun v => cfg.gt lastId (rawId v.doc)
  else versions remote

def limit (n : ℕ) (found : List Version) : List Version := if n = 0 then found else found.take n

def lastModified (doc : Document) : Option τ := (doc.get "_lastModified").bind cfg.number

def time (v : Version) : τ := (cfg.lastModified v.doc).getD cfg.zero

def findNewer [LinearOrder τ] (remote : OrderedTable κ Version) (lastTs : τ) : List Version :=
  let found := (versions remote).filter fun v => (cfg.lastModified v.doc).any (lastTs < ·)
  found.insertionSort fun v w => cfg.time v ≤ cfg.time w

/-- With `updateLookup`, the document of an update is the one that is there now. -/
def fullDocument : RemoteChange → Option Version
  | .insert v | .replace v => some v
  | .update id _ _ => remote.get (cfg.key id)
  | .delete _ => none

section

variable {κ τ : Type} (cfg : PullSettings κ τ)

def accepts (doc : Document) : Except PyError Bool := Smongo.accepts cfg.nsFilter cfg.active doc

def passes (v : Version) : Bool := Snapshot.accepted cfg.nsFilter cfg.active v.doc

def localWrite : Option (ℕ × PyError) → Except PyError (Option (ℕ × PyError))
  | none => .ok none
  | some (0, e) => .error e
  | some (n + 1, e) => .ok (some (n, e))

/-- The loop over documents that were read: those that the filters accept are handed to
`_upsert_remote_doc`. -/
def handOver : List Version → Option (ℕ × PyError) → List Version × Option PyError
  | [], _ => ([], none)
  | v :: rest, fault =>
    match cfg.accepts v.doc with
    | .error e => ([], some e)
    | .ok false => handOver rest fault
    | .ok true =>
      match localWrite fault with
      | .error e => ([], some e)
      | .ok fault => (handOver rest fault).map (v :: ·) id

variable {cfg} {v : Version}

lemma passes_eq {b : Bool} (h : cfg.accepts v.doc = .ok b) : cfg.passes v = b := by
  rw [passes, Snapshot.accepted]
  rw [accepts] at h
  rw [h]

lemma handOver_fst {fault : Option (ℕ × PyError)} {vs : List Version}
    (h : (cfg.handOver vs fault).2 = none) : (cfg.handOver vs fault).1 = vs.filter cfg.passes := by
  induction vs generalizing fault with
  | nil => rfl
  | cons v vs ih =>
    rw [handOver] at h ⊢
    cases haccepts : cfg.accepts v.doc with
    | error e =>
      rw [haccepts] at h
      cases h
    | ok b =>
      rw [haccepts] at h
      have hpasses := passes_eq haccepts
      cases b with
      | false =>
        rw [filter_cons_of_neg (by simp [hpasses])]
        exact ih h
      | true =>
        rw [filter_cons_of_pos hpasses]
        cases hwrite : localWrite fault with
        | error e =>
          rw [hwrite] at h
          cases h
        | ok fault' =>
          rw [hwrite] at h
          exact congrArg (v :: ·) (ih h)

lemma handOver_snd {vs : List Version} (h : ∀ v ∈ vs, ∃ b, cfg.accepts v.doc = .ok b) :
    (cfg.handOver vs none).2 = none := by
  induction vs with
  | nil => rfl
  | cons v vs ih =>
    obtain ⟨b, hb⟩ := h v mem_cons_self
    have hrest := ih fun w hw => h w (mem_cons_of_mem _ hw)
    rw [handOver, hb]
    cases b with
    | false | true => exact hrest

end

def takeDocument (fault : Option (ℕ × PyError)) (changed : Option (List String)) :
    Option Version → Except PyError (Option (List HandedOver))
  | none => .ok (some [])
  | some v =>
    if v.doc = [] then .ok (some [])
    else
      match cfg.accepts v.doc with
      | .error e => .error e
      | .ok false => .ok none
      | .ok true =>
        match localWrite fault with
        | .error e => .error e
        | .ok _ => .ok (some [⟨v, changed⟩])

def takeChange (fault : Option (ℕ × PyError)) (remote : OrderedTable κ Version) :
    RemoteChange → Except PyError (Option (List HandedOver))
  | .insert v => cfg.takeDocument fault none (cfg.fullDocument remote (.insert v))
  | .replace v => cfg.takeDocument fault none (cfg.fullDocument remote (.replace v))
  | .update id updated removed =>
    cfg.takeDocument fault (changedFields updated removed)
      (cfg.fullDocument remote (.update id updated removed))
  | .delete id =>
    if id ≠ .null then
      match localWrite fault with
      | .error e => .error e
      | .ok _ => .ok (some [])
    else .ok (some [])

def newest [LinearOrder τ] (lastTs : τ) (handed : List Version) : τ :=
  handed.foldl (fun m v => if m < cfg.time v then cfg.time v else m) lastTs

variable (s : PullState κ τ)

def resumedId : Bson := (s.page.map cfg.reread).getD .null

def beginPull : PullState κ τ :=
  { s with
    phase :=
      if cfg.useChangeStream then
        if s.init then .opening else .paging (cfg.resumedId s)
      else .polling }

def failed (e : PyError) : PullState κ τ :=
  { s with phase := if e.isPyMongo then .polling else .idle }

variable (fault : Option PullFault)

def saving (s saved : PullState κ τ) : PullState κ τ :=
  match fault.bind PullFault.inCheckpoint with
  | some e => failed s e
  | none => saved

def nextPhase (page : List Version) (lastId : Bson) : PullPhase τ :=
  if page.length < cfg.batchSize then .pagesRead else .paging lastId

def savePage (page : List Version) (lastId : Bson) (s : PullState κ τ) : PullState κ τ :=
  if page ≠ [] ∧ lastId ≠ .null then
    saving fault s { s with page := some lastId, phase := cfg.nextPhase page lastId }
  else { s with phase := cfg.nextPhase page lastId }

def lastIdOf (handed : List Version) (lastId : Bson) : Bson :=
  (handed.getLast?.map fun v => rawId v.doc).getD lastId

def readPage (lastId : Bson) (s : PullState κ τ) : PullState κ τ :=
  let page := limit cfg.batchSize (cfg.findAfter s.remote lastId)
  let out := cfg.handOver page (fault.bind PullFault.inLocalWrite)
  let s := { s with handed := s.handed ++ out.1.map fun v => { version := v } }
  match out.2 with
  | some e => failed s e
  | none => cfg.savePage fault page (lastIdOf out.1 lastId) s

def saveInit (s : PullState κ τ) : PullState κ τ :=
  saving fault s { s with init := true, phase := .opening }

def openStream (s : PullState κ τ) : PullState κ τ :=
  { s with phase := .watching (s.token.getD s.log.length) 0 }

variable (position processed : ℕ)

def closeStream (s : PullState κ τ) : PullState κ τ :=
  if processed = 0 ∧ cfg.givesToken then
    saving fault s { s with token := some position, phase := .idle }
  else { s with phase := .idle }

def readChange (change : RemoteChange) (s : PullState κ τ) : PullState κ τ :=
  match cfg.takeChange (fault.bind PullFault.inLocalWrite) s.remote change with
  | .error e => failed s e
  | .ok none => { s with phase := .watching (position + 1) (processed + 1) }
  | .ok (some calls) =>
    let s := { s with handed := s.handed ++ calls }
    saving fault s { s with
        token := some (position + 1)
        phase := .watching (position + 1) (processed + 1) }

def watch (s : PullState κ τ) : PullState κ τ :=
  if processed < cfg.batchSize then
    match s.log[position]? with
    | none => cfg.closeStream fault position processed s
    | some change => cfg.readChange fault position processed change s
  else cfg.closeStream fault position processed s

def poll [LinearOrder τ] (s : PullState κ τ) : PullState κ τ :=
  let lastTs := s.pullTs.getD cfg.zero
  let found := cfg.findNewer s.remote lastTs
  { s with phase := if found = [] then .idle else .polled found lastTs }

def handFound [LinearOrder τ] (fault : Option PullFault) (found : List Version) (lastTs : τ)
    (s : PullState κ τ) : PullState κ τ :=
  let out := cfg.handOver found (fault.bind PullFault.inLocalWrite)
  let s := { s with handed := s.handed ++ out.1.map fun v => { version := v }, phase := .idle }
  match out.2 with
  | some _ => s
  | none =>
    match fault.bind PullFault.inCheckpoint with
    | some _ => s
    | none => { s with pullTs := some (cfg.newest lastTs out.1) }

def serverFails (s : PullState κ τ) (e : PyError) : PullState κ τ :=
  match s.phase with
  | .paging _ | .opening => failed s e
  | .watching _ processed => if processed < cfg.batchSize then failed s e else s
  | .polling => { s with phase := .idle }
  | .idle | .pagesRead | .polled _ _ => s

def answered [LinearOrder τ] (fault : Option PullFault) (s : PullState κ τ) : PullState κ τ :=
  match s.phase with
  | .idle => cfg.beginPull s
  | .paging lastId => cfg.readPage fault lastId s
  | .pagesRead => saveInit fault s
  | .opening => openStream s
  | .watching position processed => cfg.watch fault position processed s
  | .polling => cfg.poll s
  | .polled found lastTs => cfg.handFound fault found lastTs s

def turn [LinearOrder τ] (fault : Option PullFault) (s : PullState κ τ) : PullState κ τ :=
  match fault.bind PullFault.inServer with
  | some e => cfg.serverFails s e
  | none => cfg.answered fault s

end PullSettings

inductive PullEvent
  /-- A remote insert, replacement or update; an update describes its changes. -/
  | write (doc : Document) (described : Option (List String × List String))
  | delete (id : Bson)
  | turn (fault : Option PullFault)

namespace PullSettings

variable (cfg : PullSettings κ τ)

def changeOf (v : Version) (described : Option (List String × List String)) :
    Option Version → RemoteChange
  | none => .insert v
  | some _ =>
    match described with
    | none => .replace v
    | some (updated, removed) => .update (rawId v.doc) updated removed

def write (doc : Document) (described : Option (List String × List String))
    (s : PullState κ τ) : PullState κ τ :=
  let k := cfg.key (rawId doc)
  let v : Version := ⟨doc, s.log.length⟩
  { s with
    remote := s.remote.insert k v
    log := s.log ++ [changeOf v described (s.remote.get k)] }

def delete (id : Bson) (s : PullState κ τ) : PullState κ τ :=
  match s.remote.get (cfg.key id) with
  | none => s
  | some _ => { s with remote := s.remote.erase (cfg.key id), log := s.log ++ [.delete id] }

def step [LinearOrder τ] (s : PullState κ τ) : PullEvent → PullState κ τ
  | .write doc described => cfg.write doc described s
  | .delete id => cfg.delete id s
  | .turn fault => cfg.turn fault s

end PullSettings

/-! ### What is to be shown -/

namespace PullState

def Handed (s : PullState κ τ) (v : Version) : Prop := ∃ call ∈ s.handed, call.version = v

/-- Every document of the remote collection that passes the filters has been handed over as it
is. -/
def Complete (cfg : PullSettings κ τ) (s : PullState κ τ) : Prop :=
  ∀ v ∈ PullSettings.versions s.remote, cfg.passes v = true → s.Handed v

/-- Only the pull itself has gone on. -/
structure Onward (s s' : PullState κ τ) : Prop where
  remote : s'.remote = s.remote
  log : s'.log = s.log
  handed : s.handed ⊆ s'.handed

variable {s s' : PullState κ τ} {v : Version}

lemma Onward.refl (s : PullState κ τ) : Onward s s := ⟨rfl, rfl, List.Subset.refl _⟩

lemma Handed.onward (h : s.Handed v) (hs : Onward s s') : s'.Handed v := by
  obtain ⟨call, hcall, hv⟩ := h
  exact ⟨call, hs.handed hcall, hv⟩

lemma Complete.onward {cfg : PullSettings κ τ} (h : s.Complete cfg) (hs : Onward s s') :
    s'.Complete cfg := by
  intro v hv hpasses
  rw [hs.remote] at hv
  exact (h v hv hpasses).onward hs

lemma Onward.phase (h : Onward s s') (phase : PullPhase τ) :
    Onward s { s' with phase := phase } :=
  ⟨h.remote, h.log, h.handed⟩

lemma Onward.hand (s : PullState κ τ) (calls : List HandedOver) :
    Onward s { s with handed := s.handed ++ calls } :=
  ⟨rfl, rfl, subset_append_left _ _⟩

end PullState

namespace PullSettings

open PullState

variable {cfg : PullSettings κ τ} {s s' : PullState κ τ}

variable {remote : OrderedTable κ Version} {v : Version}

lemma mem_versions : v ∈ versions remote ↔ ∃ k, remote.get k = some v := by
  simp only [versions, mem_map, get_eq_some_iff, Prod.exists, exists_eq_right]

def Aborted : PullPhase τ → Prop
  | .idle | .polling => True
  | _ => False

lemma failed_eq (s : PullState κ τ) (e : PyError) :
    ∃ phase, Aborted phase ∧ failed s e = { s with phase := phase } := by
  refine ⟨if e.isPyMongo then .polling else .idle, ?_, rfl⟩
  split_ifs <;> trivial

lemma onward_failed (h : Onward s s') (e : PyError) : Onward s (failed s' e) := h.phase _

variable (fault : Option PullFault)

lemma saving_cases (s saved : PullState κ τ) :
    saving fault s saved = saved ∨ ∃ e, saving fault s saved = failed s e := by
  rw [saving]
  cases fault.bind PullFault.inCheckpoint with
  | none => exact .inl rfl
  | some e => exact .inr ⟨e, rfl⟩

lemma onward_saving {t saved : PullState κ τ} (h : Onward t s) (h' : Onward t saved) :
    Onward t (saving fault s saved) := by
  rcases saving_cases fault s saved with heq | ⟨e, heq⟩
  · rw [heq]; exact h'
  · rw [heq]; exact onward_failed h e

lemma onward_savePage (h : Onward s s') (fault : Option PullFault) (page : List Version)
    (lastId : Bson) : Onward s (cfg.savePage fault page lastId s') := by
  rw [savePage]
  split_ifs
  · exact onward_saving fault h ⟨h.remote, h.log, h.handed⟩
  · exact h.phase _

lemma onward_closeStream (position processed : ℕ) :
    Onward s (cfg.closeStream fault position processed s) := by
  rw [closeStream]
  split_ifs
  · exact onward_saving fault (.refl s) ⟨rfl, rfl, List.Subset.refl _⟩
  · exact (Onward.refl s).phase _

lemma onward_readChange (position processed : ℕ) (change : RemoteChange) :
    Onward s (cfg.readChange fault position processed change s) := by
  rw [readChange]
  cases cfg.takeChange (fault.bind PullFault.inLocalWrite) s.remote change with
  | error e => exact onward_failed (.refl s) e
  | ok calls =>
    cases calls with
    | none => exact (Onward.refl s).phase _
    | some calls => exact onward_saving fault (.hand s calls) ⟨rfl, rfl, subset_append_left _ _⟩

def Readable (cfg : PullSettings κ τ) (doc : Document) : Prop :=
  doc ≠ [] ∧ ∃ b, cfg.accepts doc = .ok b

/-- The log tells how the documents came about. -/
structure Recorded (cfg : PullSettings κ τ) (s : PullState κ τ) : Prop where
  key : ∀ k v, s.remote.get k = some v → cfg.key (rawId v.doc) = k
  event : ∀ v ∈ versions s.remote, ∃ change, s.log[v.number]? = some change ∧
    cfg.fullDocument s.remote change = some v
  readable : ∀ change ∈ s.log, ∀ v, cfg.fullDocument s.remote change = some v → cfg.Readable v.doc

lemma Recorded.readable_of_mem (h : cfg.Recorded s) (hv : v ∈ versions s.remote) :
    cfg.Readable v.doc := by
  obtain ⟨change, hchange, hfull⟩ := h.event v hv
  exact h.readable change (mem_of_getElem? hchange) v hfull

lemma Recorded.number_lt (h : cfg.Recorded s) (hv : v ∈ versions s.remote) :
    v.number < s.log.length := by
  obtain ⟨change, hchange, -⟩ := h.event v hv
  exact (List.getElem?_eq_some_iff.mp hchange).1

lemma turn_cases [LinearOrder τ] (cfg : PullSettings κ τ) (fault : Option PullFault)
    (s : PullState κ τ) :
    cfg.turn fault s = cfg.answered fault s ∨ cfg.turn fault s = s ∨
      ∃ phase, Aborted phase ∧ cfg.turn fault s = { s with phase := phase } := by
  rw [turn]
  cases fault.bind PullFault.inServer with
  | none => exact .inl rfl
  | some e =>
    right
    change cfg.serverFails s e = s ∨ ∃ phase, _ ∧ cfg.serverFails s e = _
    rw [serverFails]
    cases s.phase with
    | idle | pagesRead | polled found lastTs => exact .inl rfl
    | paging lastId | opening => exact .inr (failed_eq s e)
    | watching position processed =>
      dsimp only
      split_ifs
      · exact .inr (failed_eq s e)
      · exact .inl rfl
    | polling => exact .inr ⟨.idle, trivial, rfl⟩

def pageAfter (cfg : PullSettings κ τ) (remote : OrderedTable κ Version) (lastId : Bson) :
    List Version :=
  limit cfg.batchSize (cfg.findAfter remote lastId)

def handAll (cfg : PullSettings κ τ) (found : List Version) (s : PullState κ τ) : PullState κ τ :=
  { s with handed := s.handed ++ (found.filter cfg.passes).map fun v => { version := v } }

/-- The whole page after `lastId` is handed over. -/
def pageRead (cfg : PullSettings κ τ) (fault : Option PullFault) (lastId : Bson)
    (s : PullState κ τ) : PullState κ τ :=
  let page := cfg.pageAfter s.remote lastId
  cfg.savePage fault page (lastIdOf (page.filter cfg.passes) lastId) (cfg.handAll page s)

def allFound [LinearOrder τ] (cfg : PullSettings κ τ) (found : List Version) (lastTs : τ)
    (s : PullState κ τ) : PullState κ τ :=
  { cfg.handAll found s with
    pullTs := some (cfg.newest lastTs (found.filter cfg.passes))
    phase := .idle }

variable {fault} {lastId : Bson} {found : List Version}

lemma readPage_eq (h : (cfg.handOver (cfg.pageAfter s.remote lastId)
      (fault.bind PullFault.inLocalWrite)).2 = none) :
    cfg.readPage fault lastId s = cfg.pageRead fault lastId s := by
  have hfst := handOver_fst h
  rw [pageAfter] at h hfst
  rw [readPage, h, hfst]
  rfl

section

variable (cfg fault)

lemma readPage_cases (lastId : Bson) (s : PullState κ τ) :
    cfg.readPage fault lastId s = cfg.pageRead fault lastId s ∨
      ∃ calls e, cfg.readPage fault lastId s = failed { s with handed := s.handed ++ calls } e := by
  cases hend : (cfg.handOver (cfg.pageAfter s.remote lastId)
      (fault.bind PullFault.inLocalWrite)).2 with
  | some e =>
    rw [pageAfter] at hend
    rw [readPage, hend]
    exact .inr ⟨_, e, rfl⟩
  | none => exact .inl (readPage_eq hend)

lemma handFound_cases [LinearOrder τ] (found : List Version) (lastTs : τ) (s : PullState κ τ) :
    cfg.handFound fault found lastTs s = cfg.allFound found lastTs s ∨
      ∃ calls, cfg.handFound fault found lastTs s =
        { s with handed := s.handed ++ calls, phase := .idle } := by
  rw [handFound]
  cases hend : (cfg.handOver found (fault.bind PullFault.inLocalWrite)).2 with
  | some e => exact .inr ⟨_, rfl⟩
  | none =>
    rw [handOver_fst hend]
    cases fault.bind PullFault.inCheckpoint with
    | none => exact .inl rfl
    | some e => exact .inr ⟨_, rfl⟩

lemma handFound_eq [LinearOrder τ] (found : List Version) (lastTs : τ) (s : PullState κ τ) :
    ∃ calls ts, cfg.handFound fault found lastTs s =
      { s with handed := s.handed ++ calls, pullTs := ts, phase := .idle } := by
  rcases handFound_cases cfg fault found lastTs s with heq | ⟨calls, heq⟩
  · exact ⟨_, _, heq⟩
  · exact ⟨calls, _, heq⟩

end

lemma handFound_none [LinearOrder τ] (lastTs : τ) (s : PullState κ τ)
    (hfound : ∀ v ∈ found, ∃ b, cfg.accepts v.doc = .ok b) :
    cfg.handFound none found lastTs s = cfg.allFound found lastTs s := by
  have hend := handOver_snd hfound
  rw [handFound, Option.bind_none, hend, handOver_fst hend]
  rfl

lemma handed_append (hv : v ∈ found) (hpasses : cfg.passes v = true)
    (hs' : s'.handed = (cfg.handAll found s).handed) : s'.Handed v := by
  refine ⟨{ version := v }, ?_, rfl⟩
  rw [hs']
  apply mem_append_right
  exact mem_map.mpr ⟨v, mem_filter.mpr ⟨hv, hpasses⟩, rfl⟩

lemma onward_answered [LinearOrder τ] (fault : Option PullFault) (s : PullState κ τ) :
    Onward s (cfg.answered fault s) := by
  have hphase := fun phase => (Onward.refl s).phase phase
  rw [answered]
  cases s.phase with
  | idle => exact hphase _
  | paging lastId =>
    dsimp only
    rcases readPage_cases cfg fault lastId s with heq | ⟨calls, e, heq⟩
    · rw [heq]; exact onward_savePage (.hand s _) _ _ _
    · rw [heq]; exact onward_failed (.hand s calls) e
  | pagesRead => exact onward_saving fault (.refl s) ⟨rfl, rfl, List.Subset.refl _⟩
  | opening => exact hphase _
  | watching position processed =>
    dsimp only
    rw [watch]
    split_ifs
    · cases s.log[position]? with
      | none => exact onward_closeStream _ _ _
      | some change => exact onward_readChange _ _ _ _
    · exact onward_closeStream _ _ _
  | polling => exact hphase _
  | polled found lastTs =>
    dsimp only
    obtain ⟨calls, ts, heq⟩ := handFound_eq cfg fault found lastTs s
    rw [heq]
    exact ⟨rfl, rfl, subset_append_left _ _⟩

lemma onward_turn [LinearOrder τ] (fault : Option PullFault) (s : PullState κ τ) :
    Onward s (cfg.turn fault s) := by
  rcases turn_cases cfg fault s with heq | heq | ⟨phase, -, heq⟩
  · rw [heq]; exact onward_answered fault s
  · rw [heq]; exact .refl s
  · rw [heq]; exact (Onward.refl s).phase phase

/-! ### The log records the changes -/

lemma Recorded.onward (h : cfg.Recorded s) (honward : Onward s s') : cfg.Recorded s' := by
  constructor
  · rw [honward.remote]; exact h.key
  · rw [honward.remote, honward.log]; exact h.event
  · rw [honward.remote, honward.log]; exact h.readable

lemma mem_versions_write {doc : Document} {described : Option (List String × List String)}
    (hv : v ∈ versions (cfg.write doc described s).remote) :
    v = ⟨doc, s.log.length⟩ ∨ v ∈ versions s.remote := by
  obtain ⟨k, hk⟩ := mem_versions.mp hv
  change (s.remote.insert _ _).get k = some v at hk
  rw [get_insert] at hk
  split_ifs at hk
  · exact .inl (Option.some.inj hk).symm
  · exact .inr (mem_versions.mpr ⟨k, hk⟩)

lemma mem_versions_erase {k : κ} (hv : v ∈ versions (remote.erase k)) : v ∈ versions remote := by
  obtain ⟨k', hk'⟩ := mem_versions.mp hv
  rw [get_erase] at hk'
  split_ifs at hk'
  exact mem_versions.mpr ⟨k', hk'⟩

lemma delete_cases (cfg : PullSettings κ τ) (id : Bson) (s : PullState κ τ) :
    cfg.delete id s = s ∨ cfg.delete id s =
      { s with remote := s.remote.erase (cfg.key id), log := s.log ++ [.delete id] } := by
  rw [PullSettings.delete]
  cases s.remote.get (cfg.key id) with
  | none => exact .inl rfl
  | some w => exact .inr rfl

variable (cfg) in
lemma fullDocument_changeOf (v : Version) (described : Option (List String × List String))
    (before : Option Version) (remote : OrderedTable κ Version) :
    cfg.fullDocument (remote.insert (cfg.key (rawId v.doc)) v) (changeOf v described before) =
      some v := by
  rcases before with _ | w
  · rfl
  · rcases described with _ | ⟨updated, removed⟩
    · rfl
    · change (remote.insert _ v).get (cfg.key (rawId v.doc)) = some v
      rw [get_insert, if_pos rfl]

lemma fullDocument_of_get {remote' : OrderedTable κ Version} {change : RemoteChange}
    (hkey : ∀ k, remote.get k = some v → cfg.key (rawId v.doc) = k)
    (hfull : cfg.fullDocument remote change = some v)
    (hget : remote'.get (cfg.key (rawId v.doc)) = some v) :
    cfg.fullDocument remote' change = some v := by
  cases change with
  | insert w | replace w | delete id => exact hfull
  | update id updated removed =>
    rw [fullDocument] at hfull ⊢
    rw [← hkey _ hfull]
    exact hget

/-- One event more: what is found afterwards was there before, or is what the event tells of. -/
lemma Recorded.extend (h : cfg.Recorded s) {change : RemoteChange} (hget : ∀ k v,
      remote.get k = some v → s.remote.get k = some v ∨ cfg.key (rawId v.doc) = k ∧
        v.number = s.log.length ∧ cfg.fullDocument remote change = some v)
    (hchange : ∀ v, cfg.fullDocument remote change = some v → cfg.Readable v.doc) :
    cfg.Recorded { s with remote := remote, log := s.log ++ [change] } := by
  constructor
  · intro k v hv
    exact (hget k v hv).elim (h.key k v) And.left
  · intro v hv
    obtain ⟨k, hk⟩ := mem_versions.mp hv
    rcases hget k v hk with hold | ⟨-, hnumber, hfull⟩
    · obtain ⟨change, hchange, hfull⟩ := h.event v (mem_versions.mpr ⟨k, hold⟩)
      refine ⟨change, ?_, fullDocument_of_get (fun k hk => h.key k v hk) hfull ?_⟩
      · exact (List.getElem?_append_left (List.getElem?_eq_some_iff.mp hchange).1).trans hchange
      · rw [h.key k v hold]
        exact hk
    · exact ⟨change, by rw [hnumber]; exact getElem?_concat_length, hfull⟩
  · intro c hc v hfull
    rcases mem_append.mp hc with hc | hc
    · cases c with
      | insert w | replace w => exact h.readable _ hc v hfull
      | delete id => cases hfull
      | update id updated removed =>
        rcases hget _ v hfull with hold | ⟨-, -, hnew⟩
        · exact h.readable _ hc v hold
        · exact hchange v hnew
    · rw [mem_singleton.mp hc] at hfull
      exact hchange v hfull

lemma Recorded.write (h : cfg.Recorded s) {doc : Document} (hdoc : cfg.Readable doc)
    (described : Option (List String × List String)) :
    cfg.Recorded (cfg.write doc described s) := by
  have hfull := fullDocument_changeOf cfg ⟨doc, s.log.length⟩ described
    (s.remote.get (cfg.key (rawId doc))) s.remote
  refine h.extend (fun k v hv => ?_) fun v hv => ?_
  · rw [get_insert] at hv
    split_ifs at hv with hk
    · obtain rfl := Option.some.inj hv
      exact .inr ⟨hk.symm, rfl, hfull⟩
    · exact .inl hv
  · obtain rfl := Option.some.inj (hfull.symm.trans hv)
    exact hdoc

lemma Recorded.delete (h : cfg.Recorded s) (id : Bson) : cfg.Recorded (cfg.delete id s) := by
  rcases delete_cases cfg id s with heq | heq
  · rw [heq]; exact h
  · rw [heq]
    refine h.extend (fun k v hv => ?_) nofun
    rw [get_erase] at hv
    split_ifs at hv
    exact .inl hv

lemma not_mem_versions_empty (v : Version) :
    v ∉ versions (empty : OrderedTable κ Version) := not_mem_nil

lemma recorded_new (cfg : PullSettings κ τ) : cfg.Recorded {} :=
  ⟨fun _ v hv => absurd hv.symm (Option.some_ne_none v), fun v hv => absurd hv
    (not_mem_versions_empty v),
    fun _ hchange => absurd hchange not_mem_nil⟩

end PullSettings

end Smongo
