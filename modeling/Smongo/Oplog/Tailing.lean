import Smongo.Client.Core
import Smongo.Oplog.Reader

/-!
# Tailing an oplog

Sessions append to one oplog while a reader asks for what comes after its last entry.
-/

namespace Smongo

open Eff List RedbSession OrderedTable Bytes Bool

/-- Sessions that share a database, and a reader of an oplog. -/
structure Tailing where
  db : Redb
  sessions : ℕ → TransactionSession
  ticks : ℕ
  received : List (String × OplogEntry)

inductive TailingEvent (oplogTable : String)
  | beginTransaction (i : ℕ)
  | commitTransaction (i : ℕ)
  | rollbackTransaction (i : ℕ)
  | append (i : ℕ) (op : String) (docId : Bson) (payload : Option Document) (opts : AppendOplogOpts)
  /-- A session writes to a table other than the oplog. -/
  | write (i : ℕ) (name : {name : String // name ≠ oplogTable}) (op : PendingWrite)
  | read

namespace Tailing

variable (env : Env) (codec : OplogCodec) (cfg : CollectionOplogSettings) (skipInternal : Bool)
  (σ : Tailing)

def session (i : ℕ) : RedbSession :=
  ⟨σ.db, (σ.sessions i).inTransaction, (σ.sessions i).pendingWrites, (σ.sessions i).issued⟩

def withSession (i : ℕ) (s : RedbSession) : Tailing :=
  { σ with
    db := s.db
    sessions := Function.update σ.sessions i ⟨s.inTransaction, s.pendingWrites, s.issued⟩ }

def checkpoint : Option String := σ.received.getLast?.map Prod.fst

def step : TailingEvent cfg.oplogTable → Tailing
  | .beginTransaction i => σ.withSession i (beginTransaction (σ.session i)).2
  | .commitTransaction i => σ.withSession i (commitTransaction (σ.session i)).2
  | .rollbackTransaction i => σ.withSession i (rollbackTransaction (σ.session i)).2
  | .append i op docId payload opts =>
    let w := (appendOplog env cfg op docId payload opts ⟨σ.session i, none, σ.ticks, {}⟩).2
    { σ.withSession i w.session with ticks := w.ticks }
  | .write i name op => σ.withSession i (doWrite name op (σ.session i)).2
  | .read =>
    -- the reader has a session of its own
    match (readFrom env codec cfg.oplogTable σ.checkpoint skipInternal
      (⟨σ.db, false, .empty, []⟩ : RedbSession)).1 with
    | .ok entries => { σ with received := σ.received ++ entries }
    | _ => σ

def buffered (i : ℕ) : Rows :=
  ((σ.session i).pendingFor cfg.oplogTable).filterMap fun
    | .put k v => some (k, v)
    | .del _ => none

def publishes : TailingEvent cfg.oplogTable → Rows
  | .commitTransaction i => σ.buffered cfg i
  | .append i op docId payload opts =>
    if (σ.sessions i).inTransaction then []
    else
      match env.toWriter (oplogEntryToDocument
        (newOplogEntry env cfg σ.ticks op docId payload opts)) with
      | .error _ => []
      | .ok buf => [(utf8 (oplogKey env σ.ticks), buf)]
  | _ => []

def valueHas (p : OplogEntry → Bool) (value : Bytes) : Bool :=
  (decodeOplogValueBytes env codec value).toOption.any p

def InOrder (ev : TailingEvent cfg.oplogTable) : Prop :=
  ∀ r ∈ σ.publishes env cfg ev, valueHas env codec (!·.internal) r.2 = true →
    Tail.Above (σ.checkpoint.map utf8) r.1

instance (σ : Tailing) (ev : TailingEvent cfg.oplogTable) :
    Decidable (σ.InOrder env codec cfg ev) :=
  inferInstanceAs (Decidable (∀ r ∈ σ.publishes env cfg ev, _))

def committed : List (String × OplogEntry) :=
  (σ.db.table cfg.oplogTable).rows.filterMap (decodeRow env codec)

/-- No transaction is open, the oplog is empty and nothing has been read. -/
structure Fresh (σ : Tailing) : Prop where
  log : σ.db.table cfg.oplogTable = .empty
  buffers : ∀ i, (σ.sessions i).pendingWrites = .empty
  received : σ.received = []

section

variable {env codec cfg}

lemma filter_filterMap_decodeRow (p : OplogEntry → Bool) (rows : Rows) :
    (rows.filterMap (decodeRow env codec)).filter (fun e => p e.2) =
      (rows.filter fun r => valueHas env codec p r.2).filterMap (decodeRow env codec) := by
  rw [filter_filterMap, filterMap_filter]
  refine filterMap_congr fun r _ => ?_
  cases hrow : decodeRow env codec r with
  | none => simp
  | some e =>
    obtain ⟨-, hentry⟩ := decodeRow_eq_some.mp hrow
    simp [valueHas, hentry, Except.toOption, Option.filter]

variable (env codec) in
def Stamped (ticks : ℕ) (r : Row) : Prop :=
  ∃ tick < ticks, r.1 = utf8 (oplogKey env tick) ∧
    ∃ entry, decodeOplogValueBytes env codec r.2 = .ok entry

variable {ticks : ℕ} {r : Row}

lemma Stamped.mono {ticks' : ℕ} (h : Stamped env codec ticks r)
    (hle : ticks ≤ ticks') : Stamped env codec ticks' r := by
  obtain ⟨tick, hlt, hrest⟩ := h
  exact ⟨tick, hlt.trans_le hle, hrest⟩

lemma Stamped.decodeRow (h : Stamped env codec ticks r) :
    ∃ key entry, r.1 = utf8 key ∧ decodeRow env codec r = some (key, entry) := by
  obtain ⟨tick, -, hkey, entry, hentry⟩ := h
  refine ⟨oplogKey env tick, entry, hkey, decodeRow_eq_some.mpr ⟨?_, hentry⟩⟩
  rw [hkey, ofUtf8_utf8]

lemma Stamped.ne_new (hinj : Function.Injective (oplogKey env))
    (h : Stamped env codec ticks r) : r.1 ≠ utf8 (oplogKey env ticks) := by
  obtain ⟨tick, hlt, hkey, -⟩ := h
  intro heq
  rw [hkey] at heq
  exact hlt.ne (hinj (utf8_injective heq))

variable (env codec cfg) in
/-- The oplog, the buffers and the reader hold rows of appended entries, each under its own key. -/
structure Good (σ : Tailing) (t : Tail Bytes Bytes) : Prop where
  log : t.log = σ.db.table cfg.oplogTable
  received : σ.received = t.received.filterMap (decodeRow env codec)
  tracks : t.Tracks
  logStamped : ∀ r ∈ t.log.rows, Stamped env codec σ.ticks r
  puts : ∀ i, (σ.session i).pendingFor cfg.oplogTable = (σ.buffered cfg i).map fun r => .put r.1 r.2
  stamped : ∀ i, ∀ r ∈ σ.buffered cfg i, Stamped env codec σ.ticks r
  distinct : ∀ i, (σ.buffered cfg i).Pairwise fun a b => a.1 ≠ b.1
  new : ∀ i, ∀ r ∈ σ.buffered cfg i, t.log.get r.1 = none
  apart : ∀ i j, i ≠ j → ∀ a ∈ σ.buffered cfg i, ∀ b ∈ σ.buffered cfg j, a.1 ≠ b.1

lemma Fresh.good {σ : Tailing} (h : σ.Fresh cfg) : Good env codec cfg σ ⟨.empty, []⟩ := by
  have hbuffered : ∀ i, σ.buffered cfg i = [] := fun i => by
    simp [buffered, pendingFor, session, h.buffers i]
  refine
    { log := h.log.symm
      received := h.received
      tracks := ⟨.nil, fun r hr => (not_mem_nil hr).elim⟩
      logStamped := fun r hr => (not_mem_nil hr).elim
      puts := fun i => ?_
      stamped := fun i r hr => ?_
      distinct := fun i => ?_
      new := fun i r hr => rfl
      apart := fun i j _ a ha => ?_ }
  · rw [hbuffered i]
    simp [pendingFor, session, h.buffers i]
  · rw [hbuffered i] at hr
    cases hr
  · rw [hbuffered i]
    exact .nil
  · rw [hbuffered i] at ha
    cases ha

variable {σ : Tailing} {t : Tail Bytes Bytes}

lemma Good.checkpoint_eq (h : Good env codec cfg σ t) : σ.checkpoint.map utf8 = t.mark := by
  rw [checkpoint, Tail.mark, h.received]
  rcases eq_nil_or_concat t.received with hnil | ⟨rows, r, hrows⟩
  · rw [hnil]
    rfl
  · have hr : r ∈ t.received := by simp [hrows]
    obtain ⟨key, entry, hkey, hrow⟩ := (h.logStamped r (h.tracks.sub r hr)).decodeRow
    simp [hrows, filterMap_append, hrow, hkey]

lemma session_withSession (σ : Tailing) (i : ℕ) (s : RedbSession) (j : ℕ) :
    ((σ.withSession i s).session j).pendingWrites =
      if j = i then s.pendingWrites else (σ.session j).pendingWrites := by
  dsimp only [session, withSession]
  by_cases hj : j = i
  · rw [if_pos hj, hj, Function.update_self]
  · rw [if_neg hj, Function.update_of_ne hj]

variable (cfg) in
/-- What an event makes of the oplog and of the buffer of one session: `items` are committed,
`kept` are buffered after it. -/
structure Moves (σ σ' : Tailing) (i : ℕ) (items kept : Rows) : Prop where
  log : σ'.db.table cfg.oplogTable = Change.applyAll (σ.db.table cfg.oplogTable)
    (items.map fun r => .put r.1 r.2)
  pending : ∀ j, (σ'.session j).pendingFor cfg.oplogTable =
    if j = i then kept.map fun r => .put r.1 r.2 else (σ.session j).pendingFor cfg.oplogTable
  received : σ'.received = σ.received
  ticks : σ.ticks ≤ σ'.ticks

variable {σ' : Tailing} {i : ℕ} {items kept : Rows}

lemma Moves.buffered_eq (h : Moves cfg σ σ' i items kept) (j : ℕ) :
    σ'.buffered cfg j = if j = i then kept else σ.buffered cfg j := by
  rw [buffered, h.pending j]
  by_cases hj : j = i
  · rw [if_pos hj, if_pos hj, filterMap_map]
    exact filterMap_some
  · rw [if_neg hj, if_neg hj]
    rfl

def Held (env : Env) (codec : OplogCodec) (cfg : CollectionOplogSettings) (σ σ' : Tailing) (i : ℕ)
    (r : Row) : Prop :=
  r ∈ σ.buffered cfg i ∨ (r.1 = utf8 (oplogKey env σ.ticks) ∧ Stamped env codec σ'.ticks r)

section

variable (h : Good env codec cfg σ t)
include h

lemma Held.stamped (hticks : σ.ticks ≤ σ'.ticks)
    (hr : Held env codec cfg σ σ' i r) : Stamped env codec σ'.ticks r := by
  rcases hr with hr | ⟨-, hr⟩
  · exact (h.stamped i r hr).mono hticks
  · exact hr

lemma Held.get_eq_none (hinj : Function.Injective (oplogKey env))
    (hr : Held env codec cfg σ σ' i r) : t.log.get r.1 = none := by
  rcases hr with hr | ⟨hkey, -⟩
  · exact h.new i r hr
  · rw [Option.eq_none_iff_forall_ne_some]
    intro v hv
    have hmem := get_eq_some_iff.mp hv
    exact (h.logStamped _ hmem).ne_new hinj hkey

lemma Held.ne_other (hinj : Function.Injective (oplogKey env))
    (hr : Held env codec cfg σ σ' i r) {j : ℕ} (hj : j ≠ i)
    {b : Row} (hb : b ∈ σ.buffered cfg j) : r.1 ≠ b.1 := by
  rcases hr with hr | ⟨hkey, -⟩
  · exact h.apart i j (Ne.symm hj) r hr b hb
  · intro heq
    exact (h.stamped j b hb).ne_new hinj (heq ▸ hkey)

lemma Good.publish (hinj : Function.Injective (oplogKey env))
    (hmoves : Moves cfg σ σ' i items kept)
    (hheld : ∀ r ∈ items ++ kept, Held env codec cfg σ σ' i r)
    (hdistinct : (items ++ kept).Pairwise fun a b => a.1 ≠ b.1) :
    t.Fresh items ∧ Good env codec cfg σ' (t.publish items) := by
  obtain ⟨hitems, hkept, hacross⟩ := pairwise_append.mp hdistinct
  have hfresh : t.Fresh items := ⟨hitems, fun r hr =>
    (hheld r (mem_append_left _ hr)).get_eq_none h hinj⟩
  have hbuffered := hmoves.buffered_eq
  -- a row that is kept, or held by another session
  have hrow : ∀ j, ∀ r ∈ σ'.buffered cfg j,
      (j = i ∧ r ∈ kept) ∨ (j ≠ i ∧ r ∈ σ.buffered cfg j) := by
    intro j r hr
    rw [hbuffered j] at hr
    by_cases hj : j = i
    · rw [if_pos hj] at hr
      exact .inl ⟨hj, hr⟩
    · rw [if_neg hj] at hr
      exact .inr ⟨hj, hr⟩
  have hheldKept : ∀ r ∈ kept, Held env codec cfg σ σ' i r := fun r hr =>
    hheld r (mem_append_right _ hr)
  refine ⟨hfresh,
    { log := ?_
      received := hmoves.received.trans h.received
      tracks := h.tracks.publish hfresh
      logStamped := fun r hr => ?_
      puts := fun j => ?_
      stamped := fun j r hr => ?_
      distinct := fun j => ?_
      new := fun j r hr => ?_
      apart := fun j k hjk a ha b hb => ?_ }⟩
  · rw [hmoves.log, ← h.log]
    rfl
  · rcases (Tail.mem_publish hfresh).mp hr with hr | hr
    · exact (h.logStamped r hr).mono hmoves.ticks
    · exact (hheld r (mem_append_left _ hr)).stamped h hmoves.ticks
  · rw [hmoves.pending j, hbuffered j]
    by_cases hj : j = i
    · rw [if_pos hj, if_pos hj]
    · rw [if_neg hj, if_neg hj]
      exact h.puts j
  · rcases hrow j r hr with ⟨-, hr⟩ | ⟨-, hr⟩
    · exact (hheldKept r hr).stamped h hmoves.ticks
    · exact (h.stamped j r hr).mono hmoves.ticks
  · rw [hbuffered j]
    split
    · exact hkept
    · exact h.distinct j
  · rw [Option.eq_none_iff_forall_ne_some]
    intro v hv
    have hmem := (Tail.mem_publish hfresh).mp (get_eq_some_iff.mp hv)
    rcases hmem with hold | hitem
    · have hnone : t.log.get r.1 = none := by
        rcases hrow j r hr with ⟨-, hr⟩ | ⟨-, hr⟩
        · exact (hheldKept r hr).get_eq_none h hinj
        · exact h.new j r hr
      rw [get_eq_some_iff.mpr hold] at hnone
      cases hnone
    · rcases hrow j r hr with ⟨-, hr⟩ | ⟨hj, hr⟩
      · exact hacross _ hitem r hr rfl
      · exact (hheld _ (mem_append_left _ hitem)).ne_other h hinj hj hr rfl
  · rcases hrow j a ha with ⟨hj, ha⟩ | ⟨hj, ha⟩ <;> rcases hrow k b hb with ⟨hk, hb⟩ | ⟨hk, hb⟩
    · exact absurd (hj.trans hk.symm) hjk
    · exact (hheldKept a ha).ne_other h hinj hk hb
    · exact ((hheldKept b hb).ne_other h hinj hj ha).symm
    · exact h.apart j k hjk a ha b hb

lemma Good.keep (hinj : Function.Injective (oplogKey env))
    (hmoves : Moves cfg σ σ' i [] (σ.buffered cfg i)) :
    t.Fresh [] ∧ Good env codec cfg σ' (t.publish []) :=
  h.publish hinj hmoves (fun _ hr => .inl hr) (h.distinct i)

end

lemma moves_forget (s : RedbSession) (hdb : s.db = σ.db) (hpending : s.pendingWrites = .empty) :
    Moves cfg σ (σ.withSession i s) i [] [] := by
  refine ⟨?_, fun j => ?_, rfl, le_rfl⟩
  · rw [withSession, hdb]
    rfl
  · rw [pendingFor, session_withSession]
    by_cases hj : j = i
    · rw [if_pos hj, if_pos hj, hpending]
      rfl
    · rw [if_neg hj, if_neg hj]
      rfl

lemma Good.moves_commit (h : Good env codec cfg σ t) :
    Moves cfg σ (σ.withSession i (commitTransaction (σ.session i)).2) i (σ.buffered cfg i) [] := by
  refine ⟨?_, fun j => ?_, rfl, le_rfl⟩
  · rw [← h.puts i]
    exact table_commitTransaction _ _
  · rw [pendingFor, session_withSession]
    by_cases hj : j = i
    · rw [if_pos hj, if_pos hj]
      rfl
    · rw [if_neg hj, if_neg hj]
      rfl

lemma pendingFor_withSession (s : RedbSession) (j : ℕ) (name : String) :
    ((σ.withSession i s).session j).pendingFor name =
      if j = i then s.pendingFor name else (σ.session j).pendingFor name := by
  rw [pendingFor, session_withSession]
  split <;> rfl

section

variable (h : Good env codec cfg σ t)
include h

lemma Good.moves_write {name : String} (hname : name ≠ cfg.oplogTable) (op : PendingWrite) :
    Moves cfg σ (σ.withSession i (doWrite name op (σ.session i)).2) i [] (σ.buffered cfg i) := by
  refine ⟨?_, fun j => ?_, rfl, le_rfl⟩
  · refine (table_doWrite _ _ _ _).trans (if_neg ?_)
    exact fun hboth => hname hboth.2.symm
  · rw [pendingFor_withSession, ← h.puts i]
    by_cases hj : j = i
    · rw [if_pos hj, if_pos hj, pendingFor_doWrite, if_neg]
      exact fun hboth => hname hboth.2.symm
    · rw [if_neg hj, if_neg hj]

lemma Good.moves_put (r : Row) : Moves cfg σ
      { σ.withSession i (doWrite cfg.oplogTable (.put r.1 r.2) (σ.session i)).2 with
        ticks := σ.ticks + 1 } i
      (if (σ.sessions i).inTransaction = true then [] else [r])
      (if (σ.sessions i).inTransaction = true then σ.buffered cfg i ++ [r]
        else σ.buffered cfg i) := by
  have htable := table_doWrite (σ.session i) cfg.oplogTable (.put r.1 r.2) cfg.oplogTable
  have hpending := pendingFor_doWrite (σ.session i) cfg.oplogTable (.put r.1 r.2) cfg.oplogTable
  have hflag : (σ.session i).inTransaction = (σ.sessions i).inTransaction := rfl
  rw [hflag] at htable hpending
  refine ⟨htable.trans ?_, fun j => (pendingFor_withSession _ j _).trans ?_, rfl, Nat.le_succ _⟩
  · cases (σ.sessions i).inTransaction <;> simp [session]
  · by_cases hj : j = i
    · rw [if_pos hj, if_pos hj, hpending, h.puts i]
      cases (σ.sessions i).inTransaction <;> simp
    · rw [if_neg hj, if_neg hj]

lemma Good.append (hinj : Function.Injective (oplogKey env))
    (hcodec : env.Codec) (hjson : codec.Distinguishes env) (i : ℕ) (op : String) (docId : Bson)
    (payload : Option Document) (opts : AppendOplogOpts) :
    t.Fresh (σ.publishes env cfg (.append i op docId payload opts)) ∧
      Good env codec cfg (σ.step env codec cfg skipInternal (.append i op docId payload opts))
        (t.publish (σ.publishes env cfg (.append i op docId payload opts))) := by
  rw [step, publishes, appendOplog_apply]
  cases hbuf : env.toWriter (oplogEntryToDocument
      (newOplogEntry env cfg σ.ticks op docId payload opts)) with
  | error e =>
    -- the clock and the random source have been asked, and nothing is written
    simp only [ite_self]
    refine h.keep (i := i) hinj ⟨rfl, fun j => ?_, rfl, Nat.le_succ _⟩
    refine (pendingFor_withSession _ j _).trans ?_
    rw [← h.puts i]
  | ok buf =>
    let r : Row := (utf8 (oplogKey env σ.ticks), buf)
    have hr : Stamped env codec (σ.ticks + 1) r := ⟨σ.ticks, Nat.lt_succ_self _, rfl, _,
      decodeOplogValueBytes_toWriter hcodec hjson hbuf⟩
    have hmoves := h.moves_put (i := i) r
    have hnew : ∀ b ∈ σ.buffered cfg i, b.1 ≠ r.1 := fun b hb => (h.stamped i b hb).ne_new hinj
    cases hflag : (σ.sessions i).inTransaction with
    | true =>
      simp only [hflag, if_true] at hmoves ⊢
      refine h.publish hinj hmoves (fun b hb => ?_) ?_
      · rw [nil_append] at hb
        rcases mem_append.mp hb with hb | hb
        · exact .inl hb
        · obtain rfl := mem_singleton.mp hb
          exact .inr ⟨rfl, hr⟩
      · rw [nil_append]
        refine pairwise_append.mpr ⟨h.distinct i, pairwise_singleton _ _, ?_⟩
        intro a ha b hb
        rw [mem_singleton.mp hb]
        exact hnew a ha
    | false =>
      simp only [hflag, false_eq_true, if_false] at hmoves ⊢
      refine h.publish hinj hmoves (fun b hb => ?_) ?_
      · rcases mem_cons.mp hb with rfl | hb
        · exact .inr ⟨rfl, hr⟩
        · exact .inl hb
      · exact pairwise_cons.mpr ⟨fun b hb => (hnew b hb).symm, h.distinct i⟩

lemma Good.read : Good env codec cfg (σ.step env codec cfg skipInternal .read)
      (t.read (valueHas env codec fun e => !(skipInternal && e.internal))) := by
  let s : RedbSession := ⟨σ.db, false, .empty, []⟩
  have hshown : RedbCursor.shown s cfg.oplogTable = t.log.rows := by
    rw [h.log, RedbCursor.shown, Redb.table]
    cases htable : σ.db.tables cfg.oplogTable with
    | none => simp [empty]
    | some table => simp [s, htable, view, Redb.table]
  have hdecodes : ∀ r ∈ RedbCursor.shown s cfg.oplogTable, ∃ e, decodeRow env codec r = some e := by
    intro r hr
    rw [hshown] at hr
    obtain ⟨key, entry, -, hrow⟩ := (h.logStamped r hr).decodeRow
    exact ⟨_, hrow⟩
  have hread := readFrom_eq cfg.oplogTable σ.checkpoint skipInternal hdecodes
  have hstep : (σ.step env codec cfg skipInternal .read) = { σ with
        received := σ.received ++ handedOut env codec skipInternal
          (t.log.rows.filter fun r => Tail.Above t.mark r.1) } := by
    rw [step, hread, hshown, h.checkpoint_eq]
  rw [hstep]
  refine
    { log := h.log
      received := ?_
      tracks := h.tracks.read
      logStamped := h.logStamped
      puts := h.puts
      stamped := h.stamped
      distinct := h.distinct
      new := h.new
      apart := h.apart }
  dsimp only [Tail.read]
  rw [filterMap_append, h.received, handedOut,
    filter_filterMap_decodeRow fun e => !(skipInternal && e.internal), filter_filter]
  simp only [Bool.decide_and, Bool.decide_eq_true, Bool.and_comm]

lemma Good.step (hinj : Function.Injective (oplogKey env))
    (hcodec : env.Codec) (hjson : codec.Distinguishes env) (ev : TailingEvent cfg.oplogTable) :
    (t.Fresh (σ.publishes env cfg ev) ∧ Good env codec cfg (σ.step env codec cfg skipInternal ev)
        (t.publish (σ.publishes env cfg ev))) ∨
    (σ.publishes env cfg ev = [] ∧ Good env codec cfg (σ.step env codec cfg skipInternal ev)
      (t.read (valueHas env codec fun e => !(skipInternal && e.internal)))) := by
  cases ev with
  | beginTransaction i =>
    exact .inl (h.publish hinj (moves_forget _ rfl rfl) nofun .nil)
  | commitTransaction i =>
    left
    refine h.publish hinj h.moves_commit (fun r hr => ?_) ?_
    · rw [append_nil] at hr
      exact .inl hr
    · rw [append_nil]
      exact h.distinct i
  | rollbackTransaction i =>
    exact .inl (h.publish hinj (moves_forget _ rfl rfl) nofun .nil)
  | append i op docId payload opts =>
    exact .inl (h.append skipInternal hinj hcodec hjson i op docId payload opts)
  | write i name op => exact .inl (h.keep hinj (h.moves_write name.2 op))
  | read => exact .inr ⟨rfl, h.read skipInternal⟩

end

lemma Good.inOrder_iff (h : Good env codec cfg σ t) (ev : TailingEvent cfg.oplogTable) :
    σ.InOrder env codec cfg ev ↔
      t.InOrder (valueHas env codec (!·.internal)) (σ.publishes env cfg ev) := by
  rw [InOrder, h.checkpoint_eq]
  rfl

variable (env codec cfg) in
def Caught (σ : Tailing) : Prop :=
  ∃ t, Good env codec cfg σ t ∧ t.Caught (valueHas env codec (!·.internal))

variable (env codec cfg) in
def Missed (σ : Tailing) : Prop :=
  ∃ t, Good env codec cfg σ t ∧ t.Missed (valueHas env codec (!·.internal))

lemma valueHas_taken (v : Bytes) (h : valueHas env codec (!·.internal) v = true) :
    valueHas env codec (fun e => !(skipInternal && e.internal)) v = true := by
  unfold valueHas at h ⊢
  cases hentry : (decodeOplogValueBytes env codec v).toOption with
  | none => rw [hentry] at h; cases h
  | some entry =>
    rw [hentry, Option.any_some, not_eq_true'] at h
    rw [Option.any_some, h, Bool.and_false]
    rfl

section

variable (hinj : Function.Injective (oplogKey env)) (hcodec : env.Codec)
  (hjson : codec.Distinguishes env)

include hinj hcodec hjson

lemma Caught.step (h : Caught env codec cfg σ) {ev : TailingEvent cfg.oplogTable}
    (horder : σ.InOrder env codec cfg ev) :
    Caught env codec cfg (σ.step env codec cfg skipInternal ev) := by
  obtain ⟨t, hgood, hcaught⟩ := h
  rcases hgood.step skipInternal hinj hcodec hjson ev with
    ⟨hfresh, hnext⟩ | ⟨-, hnext⟩
  · exact ⟨_, hnext, hcaught.publish hfresh ((hgood.inOrder_iff ev).mp horder)⟩
  · exact ⟨_, hnext, hcaught.read (valueHas_taken skipInternal)⟩

lemma Caught.missed (h : Caught env codec cfg σ) {ev : TailingEvent cfg.oplogTable}
    (horder : ¬σ.InOrder env codec cfg ev) :
    Missed env codec cfg (σ.step env codec cfg skipInternal ev) := by
  obtain ⟨t, hgood, -⟩ := h
  rw [hgood.inOrder_iff] at horder
  rcases hgood.step skipInternal hinj hcodec hjson ev with
    ⟨hfresh, hnext⟩ | ⟨hnone, -⟩
  · exact ⟨_, hnext, Tail.missed_publish hgood.tracks hfresh horder⟩
  · rw [hnone] at horder
    exact absurd nofun horder

lemma Missed.step (h : Missed env codec cfg σ) (ev : TailingEvent cfg.oplogTable) :
    Missed env codec cfg (σ.step env codec cfg skipInternal ev) := by
  obtain ⟨t, hgood, hmissed⟩ := h
  rcases hgood.step skipInternal hinj hcodec hjson ev with
    ⟨hfresh, hnext⟩ | ⟨-, hnext⟩
  · exact ⟨_, hnext, hmissed.publish hfresh⟩
  · exact ⟨_, hnext, hmissed.read hgood.tracks⟩

lemma Caught.run (h : Caught env codec cfg σ) (events : List (TailingEvent cfg.oplogTable)) :
    (Along (Tailing.step env codec cfg skipInternal) (InOrder env codec cfg) σ events ∧
      Caught env codec cfg (events.foldl (Tailing.step env codec cfg skipInternal) σ)) ∨
    (¬Along (Tailing.step env codec cfg skipInternal) (InOrder env codec cfg) σ events ∧
      Missed env codec cfg (events.foldl (Tailing.step env codec cfg skipInternal) σ)) := by
  induction events generalizing σ with
  | nil => exact .inl ⟨trivial, h⟩
  | cons ev events ih =>
    by_cases horder : σ.InOrder env codec cfg ev
    · rcases ih (h.step skipInternal hinj hcodec hjson horder) with
        ⟨halong, hcaught⟩ | ⟨halong, hmissed⟩
      · exact .inl ⟨⟨horder, halong⟩, hcaught⟩
      · exact .inr ⟨fun hboth => halong hboth.2, hmissed⟩
    · refine .inr ⟨fun hboth => horder hboth.1, ?_⟩
      have hmissed := h.missed skipInternal hinj hcodec hjson horder
      rw [foldl_cons]
      clear ih h horder
      -- what was missed once is missed for ever
      generalize Tailing.step env codec cfg skipInternal σ ev = σ at hmissed ⊢
      induction events generalizing σ with
      | nil => exact hmissed
      | cons ev events ih => exact ih _ (hmissed.step skipInternal hinj hcodec hjson ev)

end

lemma Caught.received_eq (h : Caught env codec cfg σ) :
    (σ.step env codec cfg skipInternal .read).received.filter (fun e => !e.2.internal) =
      ((σ.step env codec cfg skipInternal .read).committed env codec cfg).filter
        fun e => !e.2.internal := by
  obtain ⟨t, hgood, hcaught⟩ := h
  have hnext := hgood.read skipInternal
  rw [hnext.received, committed, ← hnext.log, filter_filterMap_decodeRow (!·.internal),
    filter_filterMap_decodeRow (!·.internal),
    hcaught.received_eq (valueHas_taken skipInternal) hgood.tracks]

lemma Missed.received_ne (h : Missed env codec cfg σ) :
    σ.received.filter (fun e => !e.2.internal) ≠
      (σ.committed env codec cfg).filter fun e => !e.2.internal := by
  obtain ⟨t, hgood, r, hr, hwanted, hreceived, -⟩ := h
  obtain ⟨key, entry, hkey, hrow⟩ := (hgood.logStamped r hr).decodeRow
  intro heq
  have hmem : (key, entry) ∈ (σ.committed env codec cfg).filter fun e => !e.2.internal := by
    rw [committed, ← hgood.log, filter_filterMap_decodeRow (!·.internal)]
    exact mem_filterMap.mpr ⟨r, mem_filter.mpr ⟨hr, hwanted⟩, hrow⟩
  rw [← heq, hgood.received] at hmem
  obtain ⟨r', hr', hrow'⟩ := mem_filterMap.mp (mem_filter.mp hmem).1
  -- a row received under the same key is the same row of the log
  obtain ⟨key', entry', hkey', hrow''⟩ := (hgood.logStamped r' (hgood.tracks.sub r' hr')).decodeRow
  rw [hrow'] at hrow''
  cases hrow''
  have hsame : r' = r := by
    have hget := get_eq_some_iff.mpr (hgood.tracks.sub r' hr')
    rw [hkey', ← hkey, get_eq_some_iff.mpr hr] at hget
    exact Prod.ext (hkey'.trans hkey.symm) (Option.some.inj hget).symm
  exact hreceived (hsame ▸ hr')

end

/-- Each committed non-internal entry is received once, in order, iff none was committed under a key
not above the checkpoint. -/
theorem tailing_complete (env : Env) (codec : OplogCodec) (cfg : CollectionOplogSettings)
    (skipInternal : Bool) (hcodec : env.Codec) (hjson : codec.Distinguishes env)
    (hinj : Function.Injective (oplogKey env)) (σ : Tailing) (hσ : σ.Fresh cfg)
    (events : List (TailingEvent cfg.oplogTable)) :
    let σ' := (events ++ [TailingEvent.read]).foldl (step env codec cfg skipInternal) σ
    σ'.received.filter (fun e => !e.2.internal) =
        (σ'.committed env codec cfg).filter (fun e => !e.2.internal) ↔
      Along (step env codec cfg skipInternal) (InOrder env codec cfg) σ events := by
  have hstart : Caught env codec cfg σ := ⟨_, hσ.good, nofun⟩
  rw [foldl_append, foldl_cons, foldl_nil]
  rcases hstart.run skipInternal hinj hcodec hjson events with
    ⟨halong, hcaught⟩ | ⟨halong, hmissed⟩
  · exact iff_of_true (hcaught.received_eq skipInternal) halong
  · exact iff_of_false (hmissed.step skipInternal hinj hcodec hjson .read).received_ne halong

end Tailing

namespace Sample

def usersLog : CollectionOplogSettings := ⟨"__oplog_shop_users", "shop.users", none⟩

def bsonOnly : OplogCodec := ⟨fun _ => none, fun _ => ""⟩

def usersEntries : List Document :=
  (List.range 3).map fun tick => oplogEntryToDocument
    (newOplogEntry env usersLog tick "insert" (.int32 1) none {})

def stillEnv : Env :=
  { Env.ofLists usersEntries [] with
    timeNanos := fun _ => 0
    uuid := fun tick => String.ofList (replicate tick 'a') }

lemma stillEnv_codec : stillEnv.Codec := by
  have hcodec : (Env.ofLists usersEntries []).Codec :=
    Env.codec_ofLists (by decide +kernel) (by decide +kernel)
  exact ⟨hcodec.document, hcodec.spec⟩

lemma stillEnv_distinguishes : bsonOnly.Distinguishes stillEnv := by
  refine ⟨fun {d b} h => ?_, fun _ => rfl⟩
  have hmem : b ∈ (encodings id usersEntries).map Prod.snd := mem_of_lookupBy h
  intro hnil
  subst hnil
  revert hmem
  decide +kernel

lemma oplogKey_stillEnv_injective : Function.Injective (oplogKey stillEnv) := by
  intro m n h
  have hlength := congrArg String.length h
  simpa [oplogKey, stillEnv, String.length_append] using hlength

def quietTailing : Tailing := ⟨⟨fun _ => none, []⟩, fun _ => ⟨false, .empty, []⟩, 0, []⟩

lemma quietTailing_fresh : quietTailing.Fresh usersLog := ⟨rfl, fun _ => rfl, rfl⟩

def appendBy (i : ℕ) : TailingEvent usersLog.oplogTable := .append i "insert" (.int32 1) none {}

def orderlyTailing : List (TailingEvent usersLog.oplogTable) :=
  [.beginTransaction 0, appendBy 0, .read, .commitTransaction 0, appendBy 1]

def lateCommit : List (TailingEvent usersLog.oplogTable) :=
  [.beginTransaction 0, appendBy 0, appendBy 1, .read, .commitTransaction 0]

end Sample

namespace Tailing

section

open Sample

theorem tailing_complete_orderly :
    let σ := (orderlyTailing ++ [TailingEvent.read]).foldl
      (step stillEnv bsonOnly usersLog true) quietTailing
    Along (step stillEnv bsonOnly usersLog true) (InOrder stillEnv bsonOnly usersLog) quietTailing
        orderlyTailing ∧
      σ.received.length = 2 ∧
      σ.received.filter (fun e => !e.2.internal) =
        (σ.committed stillEnv bsonOnly usersLog).filter fun e => !e.2.internal := by
  have halong : Along (step stillEnv bsonOnly usersLog true) (InOrder stillEnv bsonOnly usersLog)
      quietTailing orderlyTailing := by
    refine ⟨?_, ?_, ?_, ?_, ?_, trivial⟩ <;> decide +kernel
  refine ⟨halong, by decide +kernel, ?_⟩
  exact (tailing_complete stillEnv bsonOnly usersLog true stillEnv_codec stillEnv_distinguishes
    oplogKey_stillEnv_injective quietTailing quietTailing_fresh orderlyTailing).mpr halong

theorem tailing_misses_late_commit :
    let σ := (lateCommit ++ [TailingEvent.read]).foldl
      (step stillEnv bsonOnly usersLog true) quietTailing
    quietTailing.Fresh usersLog ∧ σ.received.filter (fun e => !e.2.internal) ≠
        (σ.committed stillEnv bsonOnly usersLog).filter fun e => !e.2.internal := by
  refine ⟨quietTailing_fresh, fun h => ?_⟩
  have hlength := congrArg length h
  revert hlength
  decide +kernel

end

end Tailing

end Smongo
