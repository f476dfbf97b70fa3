import Smongo.Collection.Indexes
import Smongo.Storage.Overlay

/-!
# Row operations on redb

What the basic operations of a collection come to on a redb session.
-/

namespace Smongo

open Eff List RedbCursor RedbSession Outcome

@[simp] lemma onSession_apply {S C α : Type} [StorageSession S C] (m : Eff S StorageError α)
    (w : World S) : onSession m w =
      ((m w.session).1.mapError .storageError, { w with session := (m w.session).2 }) := rfl

namespace World

def written (w : RedbWorld) (name : String) (op : PendingWrite) : RedbWorld :=
  { w with session := (doWrite name op w.session).2 }

def buffer (w : RedbWorld) (name : String) (op : PendingWrite) : RedbWorld :=
  { w with session := w.session.buffer name op }

def committed (w : RedbWorld) (name : String) : Table := w.session.db.table name

def view (w : RedbWorld) (name : String) : Table := w.session.view name

/-- A table looks the same in both worlds: what is committed, what a session sees of it and what
cursors show. -/
structure SameTable (name : String) (w w' : RedbWorld) : Prop where
  committed : w'.committed name = w.committed name
  view : w'.view name = w.view name
  shown : shown w'.session name = shown w.session name

variable {w w₁ w₂ w₃ : RedbWorld} {name name' : String} {op : PendingWrite}

lemma SameTable.refl : SameTable name w w := ⟨rfl, rfl, rfl⟩

lemma SameTable.trans (h : SameTable name w₁ w₂) (h' : SameTable name w₂ w₃) :
    SameTable name w₁ w₃ :=
  ⟨h'.committed.trans h.committed, h'.view.trans h.view, h'.shown.trans h.shown⟩

lemma view_written : (w.written name op).view name = op.apply (w.view name) :=
  (view_doWrite _ _ _ _).trans (if_pos rfl)

lemma sameTable_written (h : name' ≠ name) (op : PendingWrite) :
    SameTable name' w (w.written name op) where
  committed := (table_doWrite _ _ _ _).trans (if_neg fun hand => h hand.2)
  view := (view_doWrite _ _ _ _).trans (if_neg h)
  shown := shown_doWrite_of_ne h op

end World

variable {w : RedbWorld}

lemma openTable_apply (name : String) (w : RedbWorld) :
    openTable name w = (.ok ({ tableName := name } : RedbCursor), w) := rfl

lemma written_of_inTransaction (hw : w.session.inTransaction = true) (name : String)
    (op : PendingWrite) : w.written name op = w.buffer name op := by
  rw [World.written, doWrite_of_inTransaction _ _ _ hw]
  rfl

lemma putRow_written (name : String) (key value : Bytes) (w : RedbWorld) :
    putRow name key value w = (.ok (), w.written name (.put key value)) := rfl

lemma putRow_apply (hw : w.session.inTransaction = true) (name : String) (key value : Bytes) :
    putRow name key value w = (.ok (), w.buffer name (.put key value)) := by
  rw [putRow_written, written_of_inTransaction hw]

lemma appendOplog_apply (env : Env) (cfg : CollectionOplogSettings) (op : String) (docId : Bson)
    (payload : Option Document) (opts : AppendOplogOpts) (w : RedbWorld) :
    appendOplog env cfg op docId payload opts w = match env.toWriter (oplogEntryToDocument
        (newOplogEntry env cfg w.ticks op docId payload opts)) with
      | .error e => (.error (.other ("Oplog serialization error: " ++ e)),
          { w with ticks := w.ticks + 1 })
      | .ok buf => (.ok (oplogKey env w.ticks), { w with
            session := (doWrite cfg.oplogTable
              (.put (Bytes.utf8 (oplogKey env w.ticks)) buf) w.session).2
            ticks := w.ticks + 1
            hub := w.hub.notify (newOplogEntry env cfg w.ticks op docId payload opts) }) := by
  have hdraw : (draw : RedbOp ℕ) w = (.ok w.ticks, { w with ticks := w.ticks + 1 }) := rfl
  rw [appendOplog, bind_of_ok hdraw]
  cases env.toWriter (oplogEntryToDocument
      (newOplogEntry env cfg w.ticks op docId payload opts)) with
  | error e => rfl
  | ok buf => rfl

variable {cursor : RedbCursor} {pre : Bytes}

section

variable (hw : w.session.inTransaction = true) {key : Bytes} (hkey : cursor.pendingKey = some key)
include hw hkey

lemma update_apply (value : Bytes) :
    (onSession (StorageSession.update (StorageCursor.setValue cursor value))) w =
      (.ok (), w.buffer cursor.tableName (.put key value)) := by
  have hwrite := doWrite_of_inTransaction w.session cursor.tableName (.put key value) hw
  have hinsert : update { cursor with pendingValue := some value } w.session =
      (.ok (), w.session.buffer cursor.tableName (.put key value)) := by
    simp only [RedbCursor.update, RedbCursor.insert, RedbCursor.effectiveKey,
      effectiveValue, hkey, Option.some_or]
    exact hwrite
  change ((update { cursor with pendingValue := some value } w.session).1.mapError _,
    { w with session := (update { cursor with pendingValue := some value } w.session).2 }) = _
  rw [hinsert]
  rfl

lemma remove_apply :
    (onSession (StorageSession.remove cursor)) w =
      (.ok (), w.buffer cursor.tableName (.del key)) := by
  have hwrite := doWrite_of_inTransaction w.session cursor.tableName (.del key) hw
  have hremove : cursor.remove w.session =
      (.ok (), w.session.buffer cursor.tableName (.del key)) := by
    simp only [remove, effectiveKey, hkey, Option.some_or]
    exact hwrite
  change ((cursor.remove w.session).1.mapError _,
    { w with session := (cursor.remove w.session).2 }) = _
  rw [hremove]
  rfl

end

lemma move_search (cursor : RedbCursor) (w : RedbWorld) :
    (move StorageSession.search cursor) w = (.ok (cursor.search w.session), w) := rfl

lemma removeIfFound_written (name : String) (key : Bytes) (w : RedbWorld) :
    removeIfFound name key w =
      (.ok (), if ((w.committed name).get key).isSome then w.written name (.del key) else w) := by
  let cursor : RedbCursor := { tableName := name, pendingKey := some key }
  have heff : cursor.effectiveKey = .ok key := rfl
  rw [removeIfFound, bind_of_ok (openTable_apply name w)]
  refine (bind_of_ok (move_search cursor w)).trans ?_
  cases hget : (w.committed name).get key with
  | none =>
    obtain ⟨e, hsearch⟩ := search_of_get_eq_none heff hget
    rw [hsearch]
    rfl
  | some value =>
    rw [search_of_get_eq_some heff hget]
    rfl

lemma removeIfFound_apply (hw : w.session.inTransaction = true) (name : String) (key : Bytes) :
    removeIfFound name key w = (.ok (),
      if ((w.committed name).get key).isSome then w.buffer name (.del key) else w) := by
  rw [removeIfFound_written, written_of_inTransaction hw]

def rowsWith (pre : Bytes) (rows : Rows) : Rows := rows.filter fun r => pre.isPrefixOf r.1

variable {rows : Rows}

lemma mem_rowsWith {r : Row} : r ∈ rowsWith pre rows ↔ r ∈ rows ∧ pre <+: r.1 := by
  rw [rowsWith, mem_filter, isPrefixOf_iff_prefix]

lemma rowsWith_of_all_lt (h : ∀ r ∈ rows, r.1 < pre) : rowsWith pre rows = [] := by
  rw [eq_nil_iff_forall_not_mem]
  intro r hr
  obtain ⟨hmem, hpre⟩ := mem_rowsWith.mp hr
  exact Bytes.not_lt_of_prefix hpre (h r hmem)

lemma rowsWith_eq_takeWhile
    (hsorted : rows.Pairwise fun a b => a.1 < b.1) (h : ∀ r ∈ rows, ¬ r.1 < pre) :
    rowsWith pre rows = rows.takeWhile fun r => pre.isPrefixOf r.1 := by
  induction rows with
  | nil => rfl
  | cons row rows ih =>
    obtain ⟨hafter, hsorted'⟩ := pairwise_cons.mp hsorted
    rw [rowsWith, filter_cons, takeWhile_cons]
    split
    · rw [← ih hsorted' fun r hr => h r (mem_cons_of_mem _ hr)]
      rfl
    · next hrow =>
      rw [filter_eq_nil_iff]
      intro r hr hpre
      refine hrow ( isPrefixOf_iff_prefix.mpr ?_)
      exact Bytes.prefix_of_between (h row mem_cons_self)
        (lt_asymm (α := Bytes) (hafter r hr)) ( isPrefixOf_iff_prefix.mp hpre)

lemma rowsWith_of_seek {before after : Rows} {row : Row}
    (hsorted : (before ++ row :: after).Pairwise fun a b => a.1 < b.1)
    (hbefore : ∀ r ∈ before, r.1 < pre) (hrow : ¬ row.1 < pre) :
    rowsWith pre (before ++ row :: after) =
      (row :: after).takeWhile fun r => pre.isPrefixOf r.1 := by
  have hrest := (pairwise_append.mp hsorted).2.1
  rw [rowsWith, filter_append, ← rowsWith, ← rowsWith, rowsWith_of_all_lt hbefore,
    nil_append, rowsWith_eq_takeWhile hrest]
  intro r hr
  rcases mem_cons.mp hr with rfl | hr
  · exact hrow
  · have hlt := (pairwise_cons.mp hrest).1 r hr
    exact fun hr' => hrow (hlt.trans hr')

def hasPrefix (rows : Rows) (pre : Bytes) : Bool := rows.any fun r => pre.isPrefixOf r.1

lemma hasPrefix_eq_true : hasPrefix rows pre = true ↔ ∃ r ∈ rows, pre <+: r.1 := by
  simp [hasPrefix, isPrefixOf_iff_prefix]

lemma hasPrefix_eq : hasPrefix rows pre = !(rowsWith pre rows).isEmpty := by
  rw [Bool.eq_iff_iff, hasPrefix_eq_true]
  simp [eq_nil_iff_forall_not_mem, mem_rowsWith]

lemma move_next_nil (h : cursor.Left w.session []) :
    (move StorageSession.next cursor) w =
      (.ok (.error (.notFound "end of cursor"), cursor.materialize w.session), w) :=
  congrArg (fun r => (ok r, w)) (next_of_left_nil h)

lemma indexHasPrefix_apply (cursor : RedbCursor) (pre : Bytes) (w : RedbWorld) :
    indexHasPrefix cursor pre w = (.ok (hasPrefix (shown w.session cursor.tableName) pre), w) := by
  let sought := StorageCursor.setKey cursor pre
  have hmove : (move StorageSession.searchNear sought) w =
      (.ok (sought.searchNear w.session), w) := rfl
  have hseek : RedbCursor.Seek (shown w.session cursor.tableName) pre
      (sought.searchNear w.session) := searchNear_seek (c := sought) w.session rfl
  have hsorted := shown_sorted w.session cursor.tableName
  refine (bind_of_ok hmove).trans ?_
  generalize shown w.session cursor.tableName = rows at hseek hsorted ⊢
  generalize sought.searchNear w.session = result at hseek ⊢
  cases hseek with
  | empty c' hrows =>
    rw [hrows]
    rfl
  | found before row after sign c' hrows hbefore hrow hsign _ hat =>
    subst hrows
    rw [hasPrefix_eq, rowsWith_of_seek hsorted hbefore hrow, takeWhile_cons]
    change (if sign < 0 then _ else _ : RedbOp Bool) w = _
    rw [if_neg (by omega), hat.getKeyRaw]
    cases hpre : pre.isPrefixOf row.1 <;> exact congrArg (fun b => (ok b, w)) hpre
  | past row c' hrows hat =>
    rw [hasPrefix_eq, rowsWith_of_all_lt hrows]
    exact bind_of_ok (move_next_nil (hat.left w.session))

lemma keyTaken_apply (c : Handle) (spec : IndexSpec) (key : Bytes) (w : RedbWorld) :
    keyTaken c spec key w = (.ok (spec.options.unique &&
      hasPrefix (shown w.session (c.indexTable spec.name)) key), w) := by
  unfold keyTaken
  cases spec.options.unique with
  | false => rfl
  | true => rw [if_pos rfl, bind_of_ok (openTable_apply _ w), indexHasPrefix_apply, Bool.true_and]

section

variable {β : Type} {name : String} {body : RedbCursor → β → RedbOp (Bool × RedbCursor × β)}

variable {cursor : RedbCursor}

lemma move_next_cons {row : Row} {rest : Rows} (h : cursor.Left w.session (row :: rest)) :
    ∃ cursor', (move StorageSession.next cursor) w =
        (.ok (.ok (), cursor'), w) ∧ RedbCursor.At cursor' row rest ∧
      cursor'.tableName = cursor.tableName ∧ cursor'.pendingKey = some row.1 := by
  obtain ⟨cursor', hnext, hat, hname, hkey, -⟩ := next_of_left_cons h
  exact ⟨cursor', congrArg (fun r => (ok r, w)) hnext, hat, hname, hkey⟩

section

variable {step : β → Row → Outcome CollectionError β}
  (hbody : ∀ cursor row rest acc, RedbCursor.At cursor row rest →
    body cursor acc = ofOutcome (do .ok (true, cursor, ← step acc row)))
include hbody

lemma whileNext_fold {fuel : ℕ} (hfuel : rows.length < fuel) (hleft : cursor.Left w.session rows)
    (acc : β) :
    whileNext body fuel cursor acc w = (rows.foldlM step acc, w) := by
  induction rows generalizing fuel cursor acc with
  | nil =>
    obtain ⟨fuel, rfl⟩ : ∃ n, fuel = n + 1 := ⟨fuel - 1, by omega⟩
    exact bind_of_ok (move_next_nil hleft)
  | cons row rows ih =>
    obtain ⟨fuel, rfl⟩ : ∃ n, fuel = n + 1 := ⟨fuel - 1, by omega⟩
    obtain ⟨cursor', hnext, hat, -⟩ := move_next_cons hleft
    refine (bind_of_ok hnext).trans ?_
    change (body cursor' acc >>= _) w = _
    rw [hbody cursor' row rows acc hat, foldlM_cons]
    cases step acc row with
    | error e | panic => rfl
    | ok acc' => exact ih (by simpa using hfuel) (hat.left w.session) acc'

lemma forRows_fold (acc : β) (w : RedbWorld) :
    forRows name acc body w = ((shown w.session name).foldlM step acc, w) := by
  have hleft := left_shown w.session name
  exact whileNext_fold hbody (Nat.lt_succ_of_le (rowsLeft_of_left hleft).ge) hleft acc

end

section

variable {I : Rows → β → RedbWorld → Prop} {Q : β → RedbWorld → Prop}
  (hnil : ∀ acc w, I [] acc w → Q acc w)
  (hstep : ∀ cursor row rest acc w r w', RedbCursor.At cursor row rest →
    cursor.tableName = name → cursor.pendingKey = some row.1 → I (row :: rest) acc w →
    body cursor acc w = (.ok r, w') → RedbCursor.At r.2.1 row rest ∧ r.2.1.tableName = name ∧
      if r.1 then I rest r.2.2 w' else Q r.2.2 w')
include hnil hstep

lemma whileNext_ok {fuel : ℕ} (hfuel : rows.length < fuel) (hname : cursor.tableName = name)
    {acc acc' : β} {w' : RedbWorld} (hleft : cursor.Left w.session rows) (hinv : I rows acc w)
    (h : whileNext body fuel cursor acc w = (.ok acc', w')) : Q acc' w' := by
  induction rows generalizing fuel cursor acc w with
  | nil =>
    obtain ⟨fuel, rfl⟩ : ∃ n, fuel = n + 1 := ⟨fuel - 1, by omega⟩
    rw [whileNext, bind_of_ok (move_next_nil hleft)] at h
    cases h
    exact hnil _ _ hinv
  | cons row rows ih =>
    obtain ⟨fuel, rfl⟩ : ∃ n, fuel = n + 1 := ⟨fuel - 1, by omega⟩
    obtain ⟨cursor', hnext, hat, hname', hkey⟩ := move_next_cons hleft
    rw [whileNext, bind_of_ok hnext] at h
    obtain ⟨⟨goOn, cursor'', acc₁⟩, w₁, hbody, hrest⟩ := bind_eq_ok.mp h
    obtain ⟨hat', hname'', hpost⟩ :=
      hstep cursor' row rows acc w _ w₁ hat (hname'.trans hname) hkey hinv hbody
    cases goOn with
    | true => exact ih (by simpa using hfuel) hname'' (hat'.left w₁.session) hpost hrest
    | false =>
      cases hrest
      exact hpost

lemma forRows_ok {acc acc' : β} {w w' : RedbWorld} (hinv : I (shown w.session name) acc w)
    (h : forRows name acc body w = (.ok acc', w')) : Q acc' w' := by
  have hleft := left_shown w.session name
  exact whileNext_ok hnil hstep (Nat.lt_succ_of_le (rowsLeft_of_left hleft).ge) rfl hleft hinv h

end

section

variable {I : Rows → RedbWorld → Prop}
  (hstep : ∀ cursor row rest acc w, RedbCursor.At cursor row rest → cursor.tableName = name →
    cursor.pendingKey = some row.1 → I (row :: rest) w →
    ∃ acc' w', body cursor acc w = (.ok (true, cursor, acc'), w') ∧ I rest w')
include hstep

lemma whileNext_returns {fuel : ℕ} (hfuel : rows.length < fuel) (hname : cursor.tableName = name)
    (acc : β) (hleft : cursor.Left w.session rows) (hinv : I rows w) :
    ∃ acc' w', whileNext body fuel cursor acc w = (.ok acc', w') ∧ I [] w' := by
  induction rows generalizing fuel cursor acc w with
  | nil =>
    obtain ⟨fuel, rfl⟩ : ∃ n, fuel = n + 1 := ⟨fuel - 1, by omega⟩
    exact ⟨acc, w, bind_of_ok (move_next_nil hleft), hinv⟩
  | cons row rows ih =>
    obtain ⟨fuel, rfl⟩ : ∃ n, fuel = n + 1 := ⟨fuel - 1, by omega⟩
    obtain ⟨cursor', hnext, hat, hname', hkey⟩ := move_next_cons hleft
    obtain ⟨acc₁, w₁, hbody, hrest⟩ :=
      hstep cursor' row rows acc w hat (hname'.trans hname) hkey hinv
    obtain ⟨acc₂, w₂, hloop, hdone⟩ := ih (by simpa using hfuel) (hname'.trans hname) acc₁
      (hat.left w₁.session) hrest
    exact ⟨acc₂, w₂, (bind_of_ok hnext).trans ((bind_of_ok hbody).trans hloop), hdone⟩

lemma forRows_returns (acc : β) {w : RedbWorld} (hinv : I (shown w.session name) w) :
    ∃ acc' w', forRows name acc body w = (.ok acc', w') ∧ I [] w' := by
  have hleft := left_shown w.session name
  exact whileNext_returns hstep (Nat.lt_succ_of_le (rowsLeft_of_left hleft).ge) rfl acc hleft hinv

end

end

lemma getValueRaw_of_at {row : Row} {rest : Rows} (hat : RedbCursor.At cursor row rest) :
    (liftStorage (StorageCursor.getValueRaw cursor) : RedbOp Bytes) = ofOutcome (.ok row.2) := by
  rw [hat.getValueRaw]
  rfl

variable (env : Env)

def readSpec (specs : List IndexSpec) (row : Row) : Outcome CollectionError (List IndexSpec) :=
  match env.specFromSlice row.2 with
  | .ok spec => .ok (specs ++ [spec])
  | .error e => .error (.other ("Failed to deserialize index spec: " ++ e))

def readSpecs (rows : Rows) :
    Outcome CollectionError (List IndexSpec) := rows.foldlM (readSpec env) []

def listed (c : Handle) (w : RedbWorld) : Outcome CollectionError (List IndexSpec) :=
  match w.indexCache with
  | some specs => .ok specs
  | none => readSpecs env (shown w.session c.metadataTable)

lemma listIndexesBody_eq (cursor : RedbCursor) (row : Row)
    (rest : Rows) (acc : List IndexSpec) (hat : RedbCursor.At cursor row rest) :
    listIndexesBody env cursor acc =
      (ofOutcome (do .ok (true, cursor, ← readSpec env acc row)) : RedbOp _) := by
  funext w
  rw [listIndexesBody, hat.getValueRaw]
  change (match env.specFromSlice row.2 with
    | .ok spec => pure (true, cursor, acc ++ [spec])
    | .error e => fail _ : RedbOp _) w = _
  unfold readSpec
  cases env.specFromSlice row.2 <;> rfl

lemma listIndexes_apply (c : Handle) (w : RedbWorld) : listIndexes env c w = (listed env c w,
      match listed env c w with
      | .ok specs => { w with indexCache := some specs }
      | _ => w) := by
  have hread : (read World.indexCache : RedbOp _) w = (.ok w.indexCache, w) := rfl
  rw [listIndexes, bind_of_ok hread]
  unfold listed
  cases hcache : w.indexCache with
  | some specs =>
    have hw : { w with indexCache := some specs } = w := by rw [← hcache]
    exact congrArg (Prod.mk _) hw.symm
  | none =>
    have hfold : forRows c.metadataTable [] (listIndexesBody env) w =
        (readSpecs env (shown w.session c.metadataTable), w) :=
      forRows_fold (listIndexesBody_eq env) [] w
    refine (bind_apply w _ _).trans ?_
    rw [hfold]
    cases readSpecs env (shown w.session c.metadataTable) <;> rfl

lemma listIndexes_of_listed {env : Env} {c : Handle} {specs : List IndexSpec}
    (h : listed env c w = .ok specs) :
    listIndexes env c w = (.ok specs, { w with indexCache := some specs }) := by
  rw [listIndexes_apply, h]

end Smongo
