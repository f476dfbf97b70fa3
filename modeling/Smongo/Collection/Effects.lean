import Mathlib.Data.List.ReduceOption
import Smongo.Collection.Atomicity
import Smongo.Collection.Maintenance

/-!
# What statements do to documents

A statement that ends without error is a sequence of document writes.
-/

namespace Smongo

open Eff List Outcome IndexSpec World Statement

inductive DocWrite
  | insert (doc : Document)
  | replace (key : Bytes) (old new : Document)
  | delete (key : Bytes) (old : Document)

variable (env : Env)

def idKey (doc : Document) : Bytes :=
  match doc.get "_id" with
  | some id => Bytes.utf8 (idString env id)
  | none => []

lemma idKey_of_extractIdString {env : Env} {doc : Document} {idStr : String}
    (h : extractIdString env doc = .ok idStr) : idKey env doc = Bytes.utf8 idStr := by
  unfold extractIdString at h
  unfold idKey
  cases hid : doc.get "_id" with
  | none =>
    rw [hid] at h
    cases h
  | some id =>
    rw [hid] at h
    cases h
    rfl

def DocWrite.Data (t t' : Table) : DocWrite → Prop
  | insert doc => ∃ bytes, env.toWriter doc = .ok bytes ∧ t' = t.insert (idKey env doc) bytes
  | replace key _ new => ∃ bytes, env.toWriter new = .ok bytes ∧ t' = t.insert key bytes
  | delete key _ => t' = t.erase key

/-- The table of an index afterwards; `committed` are its committed rows. -/
def DocWrite.index (spec : IndexSpec) (committed t : Table) : DocWrite → Table
  | insert doc => spec.added env doc (idKey env doc) t
  | replace _ old new => spec.changed env committed old new (idKey env old) (idKey env new) t
  | delete _ old => spec.removed env committed old (idKey env old) t

def DocWrite.HasId : DocWrite → Prop
  | insert doc => ∃ idStr, extractIdString env doc = .ok idStr
  | replace _ old new => (∃ idStr, extractIdString env old = .ok idStr) ∧
      ∃ idStr, extractIdString env new = .ok idStr
  | delete _ old => ∃ idStr, extractIdString env old = .ok idStr

/-! ### The documents a statement is about -/

def identify (ticks : ℕ) (doc : Document) : Document × ℕ :=
  match doc.get "_id" with
  | some _ => (doc, ticks)
  | none => (doc.insert "_id" (.objectId (env.objectIdNew ticks)), ticks + 1)

def identifyAll (env : Env) : ℕ → List Document → List Document × ℕ
  | ticks, [] => ([], ticks)
  | ticks, doc :: rest =>
    let (doc, ticks) := identify env ticks doc
    let (rest, ticks) := identifyAll env ticks rest
    (doc :: rest, ticks)

def upsertDocument (ticks : ℕ) (filter update : Document) : Outcome String Document :=
  let (base, ticks) := identify env ticks (extractEqualityFields filter)
  do
    let doc ← applyUpdateForUpsert env ticks base update
    .ok (identify env (ticks + 1) doc).1

def hits (filter : Document) (rows : Rows) : List (Bytes × Document) :=
  rows.filterMap fun r =>
    match env.fromReader r.2 with
    | .ok doc => if evalQuery env doc filter = .ok true then some (r.1, doc) else none
    | .error _ => none

/-- The documents that a statement on one or on all matches acts on. -/
def chosen (once : Bool) (filter : Document) (rows : Rows) : List (Bytes × Document) :=
  if once then (hits env filter rows).take 1 else hits env filter rows

def World.rows (c : Handle) (w : RedbWorld) : Rows := RedbCursor.shown w.session c.tableName

namespace Statement

variable (env : Env) (c : Handle) (w : RedbWorld)

def targets : Statement → List (Bytes × Document)
  | insertOne _ _ => []
  | insertMany _ _ => []
  | updateOne filter _ _ => (hits env filter (w.rows c)).take 1
  | updateMany filter _ _ => hits env filter (w.rows c)
  | deleteOne filter _ => (hits env filter (w.rows c)).take 1
  | deleteMany filter _ => hits env filter (w.rows c)

def Touches (target : Bytes × Document) (x : DocWrite) : Statement → Prop
  | insertOne _ _ => False
  | insertMany _ _ => False
  | updateOne _ update _ => ∃ tick new, applyUpdate env tick target.2 update = .ok new ∧
      x = .replace target.1 target.2 new
  | updateMany _ update _ => ∃ tick new, applyUpdate env tick target.2 update = .ok new ∧
      x = .replace target.1 target.2 new
  | deleteOne _ _ => x = .delete target.1 target.2
  | deleteMany _ _ => x = .delete target.1 target.2

def upserts (filter update : Document) (options : UpdateOptions) : List Document :=
  if options.upsert ∧ hits env filter (w.rows c) = [] then
    match upsertDocument env w.ticks filter update with
    | .ok doc => [doc]
    | _ => []
  else []

def inserts : Statement → List Document
  | insertOne document _ => [(identify env w.ticks document).1]
  | insertMany documents _ => (identifyAll env w.ticks documents).1
  | updateOne filter update options => upserts env c w filter update options
  | updateMany filter update options => upserts env c w filter update options
  | deleteOne _ _ => []
  | deleteMany _ _ => []

def Performs (st : Statement) (xs : List DocWrite) : Prop :=
  ∃ ts ys, ts.Sublist (st.targets env c w) ∧ List.Forall₂ (fun t x => st.Touches env t x) ts ys ∧
    xs = ys ++ (st.inserts env c w).map .insert

end Statement

section

variable (env : Env) (c : Handle) (specs : List IndexSpec)

/-- Inside a transaction, and nothing of the collection's contents has changed. -/
structure Still (w w' : RedbWorld) : Prop where
  inTransaction : w'.session.inTransaction = true
  db : w'.session.db = w.session.db
  listed : listed env c w' = .ok specs
  data : w'.view c.tableName = w.view c.tableName
  index : ∀ name, w'.view (c.indexTable name) = w.view (c.indexTable name)

/-- Inside a transaction, and the change of contents is the document write. -/
structure Wrote (x : DocWrite) (w w' : RedbWorld) : Prop where
  inTransaction : w'.session.inTransaction = true
  db : w'.session.db = w.session.db
  listed : listed env c w' = .ok specs
  hasId : x.HasId env
  data : x.Data env (w.view c.tableName) (w'.view c.tableName)
  index : Indexed c specs
    (fun spec t => x.index env spec (w.committed (c.indexTable spec.name)) t) w w'

def WroteAll : List DocWrite → RedbWorld → RedbWorld → Prop
  | [], w, w' => Still env c specs w w'
  | x :: xs, w, w' => ∃ w₁, Wrote env c specs x w w₁ ∧ WroteAll xs w₁ w'

end

section

variable {env : Env} {c : Handle} {specs : List IndexSpec} {w w₁ w' : RedbWorld}
  {x : DocWrite} {xs : List DocWrite}

lemma Still.trans (h : Still env c specs w w₁) (h' : Still env c specs w₁ w') :
    Still env c specs w w' where
  inTransaction := h'.inTransaction
  db := h'.db.trans h.db
  listed := h'.listed
  data := h'.data.trans h.data
  index name := (h'.index name).trans (h.index name)

lemma Still.committed (h : Still env c specs w w₁) (name : String) :
    w₁.committed name = w.committed name := by
  rw [World.committed, h.db, World.committed]

lemma Still.wrote (h : Still env c specs w w₁) (h' : Wrote env c specs x w₁ w') :
    Wrote env c specs x w w' where
  inTransaction := h'.inTransaction
  db := h'.db.trans h.db
  listed := h'.listed
  hasId := h'.hasId
  data := h.data ▸ h'.data
  index := by
    refine ⟨fun spec hmem htree => ?_, fun name hname => ?_⟩
    · rw [h'.index.bTree spec hmem htree, h.committed, h.index]
    · rw [h'.index.others name hname, h.index]

lemma Wrote.still (h : Wrote env c specs x w w₁) (h' : Still env c specs w₁ w') :
    Wrote env c specs x w w' where
  inTransaction := h'.inTransaction
  db := h'.db.trans h.db
  listed := h'.listed
  hasId := h.hasId
  data := h'.data.symm ▸ h.data
  index := by
    refine ⟨fun spec hmem htree => ?_, fun name hname => ?_⟩
    · rw [h'.index, h.index.bTree spec hmem htree]
    · rw [h'.index, h.index.others name hname]

lemma WroteAll.of_still (h : Still env c specs w w₁) (h' : WroteAll env c specs xs w₁ w') :
    WroteAll env c specs xs w w' := by
  cases xs with
  | nil => exact h.trans h'
  | cons x xs =>
    obtain ⟨w₂, hx, hxs⟩ := h'
    exact ⟨w₂, h.wrote hx, hxs⟩

lemma WroteAll.append {ys : List DocWrite} (h : WroteAll env c specs xs w w₁)
    (h' : WroteAll env c specs ys w₁ w') : WroteAll env c specs (xs ++ ys) w w' := by
  induction xs generalizing w with
  | nil => exact .of_still h h'
  | cons x xs ih =>
    obtain ⟨w₂, hx, hxs⟩ := h
    exact ⟨w₂, hx, ih hxs⟩

lemma Wrote.all (h : Wrote env c specs x w w') (hw : w'.session.inTransaction = true) :
    WroteAll env c specs [x] w w' :=
  ⟨w', h, hw, rfl, h.listed, rfl, fun _ => rfl⟩

lemma still_of_uses {α : Type} {m : RedbOp α} {P : String → Prop}
    (hm : Uses env c (fun _ => True) P m) (hmetadata : ¬ P c.metadataTable)
    (hdata : ¬ P c.tableName) (hindex : ∀ name, ¬ P (c.indexTable name))
    (hw : w.session.inTransaction = true) (hlisted : listed env c w = .ok specs) :
    Still env c specs w (m w).2 := by
  have hwriting := ((admits_writing env c P).moves hm w).1
  have hlisting := ((admits_listing env c specs hmetadata).moves hm w).1
  exact {
    inTransaction := writing_inTransaction hwriting hw
    db := writing_db hwriting hw
    listed := (hlisting hw hlisted).2
    data := writing_view hwriting hw hdata
    index := fun name => writing_view hwriting hw (hindex name) }

/-- Index maintenance, one write of data and anything that changes no contents make a document
write. -/
lemma wrote_of_phases {α β : Type} {m : RedbOp α} {m' : RedbOp β} (hsep : c.Separate)
    {op : PendingWrite} (hm : Uses env c (fun _ => True) (fun t => ∃ n, c.OfIndex n t) m)
    (hm' : Uses env c (fun _ => True) (fun t => ∃ cfg ∈ c.oplog, t = cfg.oplogTable) m')
    (hw : w.session.inTransaction = true) (hlisted : listed env c w = .ok specs)
    (hw₁ : (m w).2 = w₁) (hw' : (m' (w₁.buffer c.tableName op)).2 = w') (hid : x.HasId env)
    (hdata : x.Data env (w.view c.tableName) (op.apply (w.view c.tableName)))
    (hindex : Indexed c specs
      (fun spec t => x.index env spec (w.committed (c.indexTable spec.name)) t) w w₁) :
    Wrote env c specs x w w' := by
  have hwriting := ((admits_writing env c _).moves hm w).1
  have hmetadata : ¬ ∃ n, c.OfIndex n c.metadataTable := fun ⟨n, hn⟩ =>
    c.not_ofIndex_metadataTable n hn
  have hlisting := ((admits_listing env c specs hmetadata).moves hm w).1
  rw [hw₁] at hwriting hlisting
  have htx₁ := writing_inTransaction hwriting hw
  have hview₁ : w₁.view c.tableName = w.view c.tableName :=
    writing_view hwriting hw fun ⟨n, hn⟩ => hsep.data_index n hn
  have hlisted₂ : listed env c (w₁.buffer c.tableName op) = .ok specs := by
    rw [← (hlisting hw hlisted).2]
    unfold listed buffer
    rw [shown_buffer_of_ne htx₁ (Ne.symm hsep.data_metadata)]
  have hindex_ne : ∀ name, c.indexTable name ≠ c.tableName := fun name h =>
    hsep.data_index name (h ▸ .inl rfl)
  have hstill : Still env c specs (w₁.buffer c.tableName op) w' := by
    rw [← hw']
    refine still_of_uses hm' ?_ ?_ ?_ htx₁ hlisted₂
    · rintro ⟨cfg, hcfg, h⟩
      exact hsep.oplog_metadata cfg hcfg h.symm
    · rintro ⟨cfg, hcfg, h⟩
      exact hsep.oplog_data cfg hcfg h.symm
    · rintro name ⟨cfg, hcfg, h⟩
      exact hsep.oplog_index cfg hcfg name (h ▸ .inl rfl)
  have hdb₁ : w₁.session.db = w.session.db := writing_db hwriting hw
  have hbuffer : ∀ name, (w₁.buffer c.tableName op).view (c.indexTable name) =
      w₁.view (c.indexTable name) := by
    intro name
    rw [view, buffer, RedbSession.view_buffer _ _ _ htx₁, if_neg (hindex_ne name)]
    rfl
  have hwrote : Wrote env c specs x w (w₁.buffer c.tableName op) := by
    refine ⟨htx₁, hdb₁, hlisted₂, hid, ?_, fun spec hmem htree => ?_, fun name hname => ?_⟩
    · rw [view_buffer htx₁, hview₁]
      exact hdata
    · rw [hbuffer, hindex.bTree spec hmem htree]
    · rw [hbuffer, hindex.others name hname]
  exact hwrote.still hstill

lemma Handle.ofIndex_any (c : Handle) (n t : String) (h : c.OfIndex n t) : ∃ n, c.OfIndex n t :=
  ⟨n, h⟩

/-- Index maintenance stays inside the transaction. -/
lemma inTransaction_of_uses {α : Type} {m : RedbOp α} {r : Outcome CollectionError α}
    {P : String → Prop} (hm : Uses env c (fun _ => True) P m)
    (hw : w.session.inTransaction = true) (hrun : m w = (r, w₁)) :
    w₁.session.inTransaction = true := by
  have hrel := ((admits_writing env c P).moves hm w).1
  rw [hrun] at hrel
  exact writing_inTransaction hrel hw

lemma serializeDocument_eq_ok {doc : Document} {bytes : Bytes}
    (h : serializeDocument env doc = .ok bytes) : env.toWriter doc = .ok bytes :=
  ofExcept_eq_ok.mp (mapError_eq_ok.mp h)

section

variable (hsep : c.Separate) (hw : w.session.inTransaction = true)
  (hlisted : listed env c w = .ok specs) (hnames : (specs.map name).Nodup)
include hsep hw hlisted hnames

lemma storeNew_wrote {doc : Document} {id : Bson} {internal : Bool}
    (hrun : storeNew env c doc id internal w = (.ok (), w')) :
    Wrote env c specs (.insert doc) w w' := by
  obtain ⟨⟨⟩, w₁, hindexes, hrun⟩ := bind_eq_ok.mp hrun
  obtain ⟨bytes, hbytes, hrun⟩ := ofOutcome_bind_eq_ok.mp hrun
  obtain ⟨keyStr, hkey, hrun⟩ := ofOutcome_bind_eq_ok.mp hrun
  obtain ⟨idStr, hid, hview⟩ := insertIntoIndexes_indexed hw hlisted hnames hindexes
  obtain rfl : keyStr = idStr := by
    rw [hkey] at hid
    cases hid
    rfl
  have huses : Uses env c _ _ (insertIntoIndexes env c doc) :=
    uses_insertIntoIndexes c.reads_all c.ofIndex_any doc
  have htx₁ := inTransaction_of_uses huses hw hindexes
  rw [bind_of_ok (putRow_apply htx₁ _ _ _)] at hrun
  refine wrote_of_phases hsep huses (uses_appendOplogIfEnabled
    (fun cfg hcfg => ⟨cfg, hcfg, rfl⟩) "insert" id (some doc) internal none) hw hlisted
    (congrArg Prod.snd hindexes) (congrArg Prod.snd hrun) ⟨_, hkey⟩ ?_ ?_
  · exact ⟨bytes, serializeDocument_eq_ok hbytes, by rw [idKey_of_extractIdString hkey]; rfl⟩
  · simp only [DocWrite.index, idKey_of_extractIdString hkey]
    exact hview

section

variable {doc : Document} {internal : Bool} {cursor : RedbCursor} {key : Bytes}
  (hcursor : cursor.tableName = c.tableName) (hkey : cursor.pendingKey = some key)
include hcursor hkey

lemma writeBack_wrote {update original : Document} {cursor' : RedbCursor}
    (hrun : writeBack env c update internal cursor original doc w = (.ok cursor', w')) :
    (∃ bytes, cursor' = StorageCursor.setValue cursor bytes) ∧
      Wrote env c specs (.replace key original doc) w w' := by
  obtain ⟨⟨⟩, w₁, hindexes, hrun⟩ := bind_eq_ok.mp hrun
  obtain ⟨bytes, hbytes, hrun⟩ := ofOutcome_bind_eq_ok.mp hrun
  obtain ⟨oldIdStr, newIdStr, hold, hnew, hview⟩ :=
    updateInIndexes_indexed hw hlisted hnames hindexes
  have huses : Uses env c _ _ (updateInIndexes env c original doc) :=
    uses_updateInIndexes c.reads_all c.ofIndex_any original doc
  have htx₁ := inTransaction_of_uses huses hw hindexes
  rw [bind_of_ok (update_apply htx₁ hkey bytes), hcursor] at hrun
  cases hid : Document.get doc "_id" with
  | none =>
    rw [hid] at hrun
    cases hrun
  | some id =>
    rw [hid] at hrun
    obtain ⟨⟨⟩, w₂, hoplog, hrun⟩ := bind_eq_ok.mp hrun
    cases hrun
    refine ⟨⟨bytes, rfl⟩, wrote_of_phases hsep huses (uses_appendOplogIfEnabled
      (fun cfg hcfg => ⟨cfg, hcfg, rfl⟩) "update" id (some update) internal
      (some (docTopLevelChanged original doc)))
      hw hlisted (congrArg Prod.snd hindexes) (congrArg Prod.snd hoplog) ⟨⟨_, hold⟩, _, hnew⟩
      ?_ ?_⟩
    · exact ⟨bytes, serializeDocument_eq_ok hbytes, rfl⟩
    · simp only [DocWrite.index, idKey_of_extractIdString hold, idKey_of_extractIdString hnew]
      exact hview

lemma deleteRow_wrote (hrun : deleteRow env c internal cursor doc w = (.ok (), w')) :
    Wrote env c specs (.delete key doc) w w' := by
  unfold deleteRow at hrun
  cases hid : Document.get doc "_id" with
  | none =>
    rw [hid] at hrun
    cases hrun
  | some id =>
    rw [hid] at hrun
    obtain ⟨⟨⟩, w₁, hindexes, hrun⟩ := bind_eq_ok.mp hrun
    obtain ⟨idStr, hidStr, hview⟩ := removeFromIndexes_indexed hw hlisted hnames hindexes
    have huses : Uses env c _ _ (removeFromIndexes env c doc) :=
      uses_removeFromIndexes c.reads_all c.ofIndex_any doc
    have htx₁ := inTransaction_of_uses huses hw hindexes
    rw [bind_of_ok (remove_apply htx₁ hkey), hcursor] at hrun
    refine wrote_of_phases hsep huses (uses_appendOplogIfEnabled
      (fun cfg hcfg => ⟨cfg, hcfg, rfl⟩) "delete" id none internal none) hw hlisted
      (congrArg Prod.snd hindexes) (congrArg Prod.snd hrun) ⟨_, hidStr⟩ rfl ?_
    simp only [DocWrite.index, idKey_of_extractIdString hidStr]
    exact hview

end

end

/-! ### Loops over the documents -/

lemma hits_append (filter : Document) (rows rows' : Rows) :
    hits env filter (rows ++ rows') = hits env filter rows ++ hits env filter rows' :=
  filterMap_append

lemma hits_singleton {filter doc : Document} {row : Row} (h : env.fromReader row.2 = .ok doc) :
    hits env filter [row] = if evalQuery env doc filter = .ok true then [(row.1, doc)] else [] := by
  simp only [hits, filterMap_cons, filterMap_nil, h]
  by_cases hit : evalQuery env doc filter = .ok true
  · simp [hit]
  · simp [hit]

lemma Still.refl (hw : w.session.inTransaction = true)
    (hlisted : Smongo.listed env c w = .ok specs) :
    Still env c specs w w := ⟨hw, rfl, hlisted, rfl, fun _ => rfl⟩

section

variable (h : WroteAll env c specs xs w w')
include h

lemma WroteAll.inTransaction_listed :
    w'.session.inTransaction = true ∧ Smongo.listed env c w' = .ok specs := by
  induction xs generalizing w with
  | nil => exact ⟨Still.inTransaction h, Still.listed h⟩
  | cons x xs ih =>
    obtain ⟨w₁, -, hxs⟩ := h
    exact ih hxs

lemma WroteAll.inTransaction : w'.session.inTransaction = true := h.inTransaction_listed.1

lemma WroteAll.listed : Smongo.listed env c w' = .ok specs := h.inTransaction_listed.2

lemma WroteAll.db : w'.session.db = w.session.db := by
  induction xs generalizing w with
  | nil => exact Still.db h
  | cons x xs ih =>
    obtain ⟨w₁, hx, hxs⟩ := h
    rw [ih hxs, hx.db]

lemma WroteAll.others {name : String}
    (hname : ∀ spec ∈ specs, ¬ c.Maintains spec (c.indexTable name)) :
    w'.view (c.indexTable name) = w.view (c.indexTable name) := by
  induction xs generalizing w with
  | nil => exact Still.index h name
  | cons x xs ih =>
    obtain ⟨w₁, hx, hxs⟩ := h
    rw [ih hxs, hx.index.others name hname]

end

def Did (env : Env) (c : Handle) (specs : List IndexSpec) (w w' : RedbWorld) :
    Option DocWrite → Prop
  | none => Still env c specs w w'
  | some x => Wrote env c specs x w w'

/-- One turn of a loop that acts by `G` on selected rows; `n` and `n'` count these and the writes.
-/
def Turn (env : Env) (c : Handle) (specs : List IndexSpec) (once : Bool) (filter : Document)
    (G : Bytes × Document → Option DocWrite → Prop) (row : Row) (goOn : Bool)
    (n n' : ℕ × ℕ) (w w' : RedbWorld) : Prop :=
  ∃ doc, env.fromReader row.2 = .ok doc ∧ if evalQuery env doc filter = .ok true then
      goOn = !once ∧ ∃ x, G (row.1, doc) x ∧ Did env c specs w w' x ∧
        n' = (n.1 + 1, n.2 + x.toList.length)
    else goOn = true ∧ n' = n ∧ w' = w

/-- What such a loop has done when `ts` are the rows selected so far. -/
structure Looped (env : Env) (c : Handle) (specs : List IndexSpec)
    (G : Bytes × Document → Option DocWrite → Prop) (ts : List (Bytes × Document)) (n : ℕ × ℕ)
    (w w' : RedbWorld) : Prop where
  count : n.1 = ts.length
  still : ts = [] → w' = w
  wrote : ∃ xs, List.Forall₂ G ts xs ∧ n.2 = xs.reduceOption.length ∧
    WroteAll env c specs xs.reduceOption w w'

variable {G : Bytes × Document → Option DocWrite → Prop} {ts : List (Bytes × Document)} {n : ℕ × ℕ}

lemma Looped.nil (hw : w.session.inTransaction = true) (hlisted : listed env c w = .ok specs) :
    Looped env c specs G [] (0, 0) w w :=
  ⟨rfl, fun _ => rfl, [], .nil, rfl, Still.refl hw hlisted⟩

lemma Looped.act (h : Looped env c specs G ts n w w₁) {t : Bytes × Document} {x : Option DocWrite}
    (hx : G t x) (hdid : Did env c specs w₁ w' x) :
    Looped env c specs G (ts ++ [t]) (n.1 + 1, n.2 + x.toList.length) w w' := by
  obtain ⟨hcount, -, xs, hG, hmodified, hwrote⟩ := h
  refine ⟨by simp [hcount], fun hnil => absurd hnil (by simp), xs ++ [x],
    rel_append hG (.cons hx .nil), ?_, ?_⟩
  · cases x <;> simp [reduceOption_append, reduceOption_singleton, hmodified]
  · rw [reduceOption_append]
    cases x with
    | none => exact hwrote.append hdid
    | some x => exact hwrote.append (Wrote.all hdid (Wrote.inTransaction hdid))

lemma Looped.touched (h : Looped env c specs G ts n w w') :
    ∃ ts' xs, ts'.Sublist ts ∧ List.Forall₂ (fun t x => G t (some x)) ts' xs ∧
      WroteAll env c specs xs w w' := by
  obtain ⟨-, -, xs, hG, -, hwrote⟩ := h
  have htouched : ∃ ts', ts'.Sublist ts ∧
      List.Forall₂ (fun t x => G t (some x)) ts' xs.reduceOption := by
    clear hwrote
    induction hG with
    | nil => exact ⟨[], .refl _, .nil⟩
    | @cons t x ts xs hx _ ih =>
      obtain ⟨ts', hsub, hts'⟩ := ih
      cases x with
      | none => exact ⟨ts', hsub.cons t, hts'⟩
      | some x => exact ⟨t :: ts', hsub.cons_cons t, .cons hx hts'⟩
  obtain ⟨ts', hsub, hts'⟩ := htouched
  exact ⟨ts', _, hsub, hts', hwrote⟩

lemma forRows_looped {β : Type} {once : Bool} {filter : Document} {f : β → ℕ × ℕ}
    {body : RedbCursor → β → RedbOp (Bool × RedbCursor × β)}
    (hbody : ∀ cursor row rest acc w r w', RedbCursor.At cursor row rest →
      cursor.tableName = c.tableName → cursor.pendingKey = some row.1 →
      w.session.inTransaction = true → listed env c w = .ok specs →
      body cursor acc w = (.ok r, w') →
        RedbCursor.At r.2.1 row rest ∧ r.2.1.tableName = c.tableName ∧
          Turn env c specs once filter G row r.1 (f acc) (f r.2.2) w w')
    (hw : w.session.inTransaction = true) (hlisted : listed env c w = .ok specs) {acc acc' : β}
    (hacc : f acc = (0, 0)) (hrun : forRows c.tableName acc body w = (.ok acc', w')) :
    Looped env c specs G (chosen env once filter (w.rows c)) (f acc') w w' := by
  refine forRows_ok (I := fun rest acc w₁ => ∃ before, w.rows c = before ++ rest ∧
      (once = true → hits env filter before = []) ∧
      Looped env c specs G (hits env filter before) (f acc) w w₁)
    (Q := fun acc w₁ => Looped env c specs G (chosen env once filter (w.rows c)) (f acc) w w₁)
    ?_ ?_ ?_ hrun
  · rintro acc w₁ ⟨before, hrows, honce, hlooped⟩
    rw [hrows, append_nil]
    cases once with
    | true =>
      rw [chosen, if_pos rfl, honce rfl, take_nil]
      rwa [honce rfl] at hlooped
    | false => exact hlooped
  · rintro cursor row rest acc w₁ r w₂ hat hname hkey ⟨before, hrows, honce, hlooped⟩ hturn
    obtain ⟨xs, -, -, hwrote⟩ := hlooped.wrote
    obtain ⟨hat', hname', doc, hdoc, hif⟩ := hbody cursor row rest acc w₁ r w₂ hat hname hkey
      hwrote.inTransaction hwrote.listed hturn
    refine ⟨hat', hname', ?_⟩
    have hhits : hits env filter (before ++ [row]) = hits env filter before ++
        if evalQuery env doc filter = .ok true then [(row.1, doc)] else [] := by
      rw [hits_append, hits_singleton hdoc]
    have hrows' : w.rows c = (before ++ [row]) ++ rest := by rw [hrows]; simp
    by_cases hit : evalQuery env doc filter = .ok true
    · rw [if_pos hit] at hif hhits
      obtain ⟨hgo, x, hx, hdid, hcount⟩ := hif
      have hacted := hlooped.act hx hdid
      rw [← hhits, ← hcount] at hacted
      cases once with
      | true =>
        rw [hgo]
        have htake : (hits env filter (w.rows c)).take 1 = hits env filter (before ++ [row]) := by
          rw [hrows', hits_append, hhits, honce rfl]
          rfl
        rw [if_neg (by simp), chosen, if_pos rfl, htake]
        exact hacted
      | false =>
        rw [hgo]
        exact ⟨before ++ [row], hrows', by simp, hacted⟩
    · rw [if_neg hit] at hif hhits
      obtain ⟨hgo, hcount, rfl⟩ := hif
      rw [hgo, if_pos rfl]
      rw [append_nil] at hhits
      exact ⟨before ++ [row], hrows', fun h => by rw [hhits, honce h], by rwa [hhits, hcount]⟩
  · exact ⟨[], rfl, fun _ => rfl, by rw [hacc]; exact .nil hw hlisted⟩

lemma readMatch_ok {filter doc : Document} {hit : Bool} {cursor : RedbCursor}
    {row : Row} {rest : Rows} (hat : RedbCursor.At cursor row rest)
    (hrun : readMatch env filter cursor w = (.ok (doc, hit), w')) :
    env.fromReader row.2 = .ok doc ∧ evalQuery env doc filter = .ok hit ∧ w' = w := by
  rw [readMatch, getValueRaw_of_at hat] at hrun
  replace hrun := (bind_of_ok (ofOutcome_apply w (.ok row.2))).symm.trans hrun
  obtain ⟨doc', hdoc, hrun⟩ := ofOutcome_bind_eq_ok.mp hrun
  obtain ⟨hit', hhit, hrun⟩ := ofOutcome_bind_eq_ok.mp hrun
  cases hrun
  exact ⟨ofExcept_eq_ok.mp (mapError_eq_ok.mp hdoc), mapError_eq_ok.mp hhit, rfl⟩

lemma still_ticks (hw : w.session.inTransaction = true) (hlisted : listed env c w = .ok specs)
    (ticks : ℕ) : Still env c specs w { w with ticks := ticks } :=
  ⟨hw, rfl, hlisted, rfl, fun _ => rfl⟩

def UpdatesTo (env : Env) (update : Document) (t : Bytes × Document) (x : Option DocWrite) : Prop :=
  ∃ tick new, applyUpdate env tick t.2 update = .ok new ∧
    x = if new.eq t.2 then none else some (.replace t.1 t.2 new)

lemma UpdatesTo.touches {update : Document} {t : Bytes × Document}
    (h : UpdatesTo env update t (some x)) : ∃ tick new, applyUpdate env tick t.2 update = .ok new ∧
      x = .replace t.1 t.2 new := by
  obtain ⟨tick, new, happly, hx⟩ := h
  split at hx <;> cases hx
  exact ⟨tick, new, happly, rfl⟩

section

variable (hsep : c.Separate) (hnames : (specs.map name).Nodup)
  {cursor : RedbCursor} {row : Row} {rest : Rows}
  (hat : RedbCursor.At cursor row rest) (hcursor : cursor.tableName = c.tableName)
  (hkey : cursor.pendingKey = some row.1) (hw : w.session.inTransaction = true)
  (hlisted : listed env c w = .ok specs)
include hsep hnames hat hcursor hkey hw hlisted

omit hat in
lemma updateRow_acted {update original : Document} {internal modified : Bool}
    {cursor' : RedbCursor}
    (hrun : updateRow env c update internal cursor original w = (.ok (cursor', modified), w')) :
    (cursor' = cursor ∨ ∃ bytes, cursor' = StorageCursor.setValue cursor bytes) ∧
      ∃ x, UpdatesTo env update (row.1, original) x ∧ Did env c specs w w' x ∧
        modified = x.isSome := by
  obtain ⟨doc, hdoc, hrun⟩ := ofOutcome_bind_eq_ok.mp hrun
  have hdoc := mapError_eq_ok.mp hdoc
  have hticks := still_ticks hw hlisted (w.ticks + 1)
  split at hrun
  · next heq =>
    cases hrun
    exact ⟨.inl rfl, none, ⟨_, doc, hdoc, by rw [if_pos heq]⟩, hticks, rfl⟩
  · next hne =>
    obtain ⟨cursor₁, w₁, hback, hrun⟩ := bind_eq_ok.mp hrun
    cases hrun
    obtain ⟨hset, hwrote⟩ := writeBack_wrote hsep hticks.inTransaction hticks.listed hnames hcursor
      hkey hback
    exact ⟨.inr hset, some _, ⟨_, doc, hdoc, by rw [if_neg hne]⟩, hticks.wrote hwrote, rfl⟩

lemma updateBody_turn {once internal : Bool} {filter update : Document} {counts : ℕ × ℕ}
    {r : Bool × RedbCursor × ℕ × ℕ}
    (hrun : updateBody env c once filter update internal cursor counts w = (.ok r, w')) :
    RedbCursor.At r.2.1 row rest ∧ r.2.1.tableName = c.tableName ∧
      Turn env c specs once filter (UpdatesTo env update) row r.1 counts r.2.2 w w' := by
  obtain ⟨⟨doc, hit⟩, w₁, hmatch, hrun⟩ := bind_eq_ok.mp hrun
  obtain ⟨hdoc, heval, rfl⟩ := readMatch_ok hat hmatch
  cases hit with
  | false =>
    cases hrun
    exact ⟨hat, hcursor, doc, hdoc, by rw [if_neg (by simp [heval])]; exact ⟨rfl, rfl, rfl⟩⟩
  | true =>
    obtain ⟨⟨cursor', modified⟩, w₂, hrow, hrun⟩ := bind_eq_ok.mp hrun
    cases hrun
    obtain ⟨hmoved, x, hx, hdid, hmodified⟩ :=
      updateRow_acted hsep hnames hcursor hkey hw hlisted hrow
    have hturn : Turn env c specs once filter (UpdatesTo env update) row (!once) counts
        (counts.1 + 1, if modified then counts.2 + 1 else counts.2) w₁ w' := by
      refine ⟨doc, hdoc, ?_⟩
      rw [if_pos heval]
      refine ⟨rfl, x, hx, hdid, ?_⟩
      rw [hmodified]
      cases x <;> rfl
    rcases hmoved with rfl | ⟨bytes, rfl⟩
    · exact ⟨hat, hcursor, hturn⟩
    · exact ⟨hat.stageValue _, hcursor, hturn⟩

lemma deleteBody_turn {once internal : Bool} {filter : Document} {count : ℕ}
    {r : Bool × RedbCursor × ℕ}
    (hrun : deleteBody env c once filter internal cursor count w = (.ok r, w')) :
    RedbCursor.At r.2.1 row rest ∧ r.2.1.tableName = c.tableName ∧
      Turn env c specs once filter (fun t x => x = some (.delete t.1 t.2)) row r.1 (count, count)
        (r.2.2, r.2.2) w w' := by
  obtain ⟨⟨doc, hit⟩, w₁, hmatch, hrun⟩ := bind_eq_ok.mp hrun
  obtain ⟨hdoc, heval, rfl⟩ := readMatch_ok hat hmatch
  cases hit with
  | false =>
    cases hrun
    exact ⟨hat, hcursor, doc, hdoc, by rw [if_neg (by simp [heval])]; exact ⟨rfl, rfl, rfl⟩⟩
  | true =>
    obtain ⟨⟨⟩, w₂, hrow, hrun⟩ := bind_eq_ok.mp hrun
    cases hrun
    have hwrote := deleteRow_wrote hsep hw hlisted hnames hcursor hkey hrow
    refine ⟨hat, hcursor, doc, hdoc, ?_⟩
    rw [if_pos heval]
    exact ⟨rfl, _, rfl, hwrote, rfl⟩

end

lemma ensureId_apply (env : Env) (doc : Document) (w : RedbWorld) :
    ∃ id, ensureId env doc w = (.ok (id, (identify env w.ticks doc).1),
      { w with ticks := (identify env w.ticks doc).2 }) := by
  unfold ensureId identify
  cases doc.get "_id" with
  | some id => exact ⟨id, rfl⟩
  | none => exact ⟨_, rfl⟩

variable (env c) in
def Handle.Accepts (doc : Document) : Prop :=
  ∀ schema ∈ c.validator, env.validateDocument doc schema = .ok ()

lemma validateDoc_ok {doc : Document} (h : validateDoc env c doc w = (.ok (), w')) :
    w' = w ∧ c.Accepts env doc := by
  unfold validateDoc at h
  unfold Handle.Accepts
  cases hvalidator : c.validator with
  | none =>
    rw [hvalidator] at h
    cases h
    exact ⟨rfl, nofun⟩
  | some schema =>
    rw [hvalidator] at h
    cases hvalid : env.validateDocument doc schema with
    | error e => simp [hvalid] at h
    | ok u =>
      simp only [hvalid] at h
      cases h
      refine ⟨rfl, fun schema' hschema => ?_⟩
      cases hschema
      exact hvalid

lemma prepareDocuments_ok {documents : List Document} {prepared : List (Bson × Document)}
    (h : prepareDocuments env c documents w = (.ok prepared, w')) :
    prepared.map Prod.snd = (identifyAll env w.ticks documents).1 ∧
      (∀ doc ∈ (identifyAll env w.ticks documents).1, c.Accepts env doc) ∧
      w' = { w with ticks := (identifyAll env w.ticks documents).2 } := by
  induction documents generalizing w prepared with
  | nil =>
    cases h
    exact ⟨rfl, nofun, rfl⟩
  | cons doc rest ih =>
    obtain ⟨id, hid⟩ := ensureId_apply env doc w
    rw [prepareDocuments, bind_of_ok hid] at h
    obtain ⟨⟨⟩, w₁, hvalid, h⟩ := bind_eq_ok.mp h
    obtain ⟨rfl, haccepts⟩ := validateDoc_ok hvalid
    obtain ⟨prepared', w₂, hrest, h⟩ := bind_eq_ok.mp h
    cases h
    obtain ⟨hdocs, hall, rfl⟩ := ih hrest
    refine ⟨by rw [map_cons, hdocs]; rfl, fun d hd => ?_, rfl⟩
    rcases mem_cons.mp hd with rfl | hd
    · exact haccepts
    · exact hall d hd

section

variable (hsep : c.Separate) (hw : w.session.inTransaction = true)
  (hlisted : listed env c w = .ok specs) (hnames : (specs.map name).Nodup)
include hsep hw hlisted hnames

lemma insertOneInner_wrote {document : Document} {internal : Bool} {result : InsertOneResult}
    (hrun : insertOneInner env c document internal w = (.ok result, w')) :
    c.Accepts env (identify env w.ticks document).1 ∧
      Wrote env c specs (.insert (identify env w.ticks document).1) w w' := by
  obtain ⟨id, hid⟩ := ensureId_apply env document w
  rw [insertOneInner, bind_of_ok hid] at hrun
  obtain ⟨⟨⟩, w₁, hvalid, hrun⟩ := bind_eq_ok.mp hrun
  obtain ⟨rfl, haccepts⟩ := validateDoc_ok hvalid
  obtain ⟨⟨⟩, w₂, hstore, hrun⟩ := bind_eq_ok.mp hrun
  cases hrun
  have hticks := still_ticks hw hlisted (identify env w.ticks document).2
  exact ⟨haccepts,
    hticks.wrote (storeNew_wrote hsep hticks.inTransaction hticks.listed hnames hstore)⟩

lemma insertPrepared_wrote {prepared : List (Bson × Document)} {internal : Bool}
    {result : InsertManyResult}
    (hrun : insertPrepared env c prepared internal w = (.ok result, w')) :
    WroteAll env c specs ((prepared.map Prod.snd).map .insert) w w' := by
  obtain ⟨⟨⟩, w₁, hloop, hrun⟩ := bind_eq_ok.mp hrun
  cases hrun
  clear hrun
  induction prepared generalizing w with
  | nil =>
    cases hloop
    exact Still.refl hw hlisted
  | cons p rest ih =>
    obtain ⟨⟨⟩, w₂, hstore, hloop⟩ := bind_eq_ok.mp hloop
    have hwrote := storeNew_wrote hsep hw hlisted hnames hstore
    exact ⟨w₂, hwrote, ih hwrote.inTransaction hwrote.listed hloop⟩

lemma upsertNew_wrote {filter update : Document} {internal : Bool} {result : UpdateResult}
    (hrun : upsertNew env c filter update internal w = (.ok result, w')) :
    ∃ doc, upsertDocument env w.ticks filter update = .ok doc ∧
      (result.matchedCount, result.modifiedCount) = (0, 0) ∧ c.Accepts env doc ∧
      Wrote env c specs (.insert doc) w w' := by
  have hbase : upsertBase env filter w =
      (.ok (identify env w.ticks (extractEqualityFields filter)).1,
        { w with ticks := (identify env w.ticks (extractEqualityFields filter)).2 }) := by
    unfold upsertBase identify Document.containsKey
    cases (extractEqualityFields filter).get "_id" <;> rfl
  rw [upsertNew, bind_of_ok hbase] at hrun
  unfold upsertDocument
  generalize identify env w.ticks (extractEqualityFields filter) = base at hrun
  obtain ⟨newDoc, hdoc, hrun⟩ := ofOutcome_bind_eq_ok.mp hrun
  obtain ⟨_, w₁, hinsert, hrun⟩ := bind_eq_ok.mp hrun
  cases hrun
  have hticks := still_ticks hw hlisted (base.2 + 1)
  obtain ⟨haccepts, hwrote⟩ :=
    insertOneInner_wrote hsep hticks.inTransaction hticks.listed hnames hinsert
  refine ⟨(identify env (base.2 + 1) newDoc).1, ?_, rfl, haccepts, hticks.wrote hwrote⟩
  dsimp only
  rw [mapError_eq_ok.mp hdoc]
  rfl

end

section

variable (hsep : c.Separate) (hnames : (specs.map name).Nodup)
  (hw : w.session.inTransaction = true) (hlisted : listed env c w = .ok specs)
include hsep hnames hw hlisted

variable {once : Bool} {filter : Document}

section

variable {update : Document} {options : UpdateOptions} {result : UpdateResult}
  (hrun : updateInner env c once filter update options w = (.ok result, w'))
include hrun

lemma updateInner_looped :
    ∃ w₁, Looped env c specs (UpdatesTo env update) (chosen env once filter (w.rows c))
        (result.matchedCount, result.modifiedCount) w w₁ ∧
      (∀ doc ∈ upserts env c w filter update options, c.Accepts env doc) ∧
      WroteAll env c specs ((upserts env c w filter update options).map .insert) w₁ w' := by
  obtain ⟨⟨matched, modified⟩, w₁, hloop, hrest⟩ := bind_eq_ok.mp hrun
  have hend : (if matched = 0 ∧ options.upsert = true then
      upsertNew env c filter update options.internal
    else pure ⟨matched, modified, none⟩) w₁ = (.ok result, w') := hrest
  have hlooped := forRows_looped (f := id) (fun cursor row rest acc w r w' hat hname hkey
    hw hlisted hbody => updateBody_turn hsep hnames hat hname hkey hw hlisted hbody) hw hlisted rfl
    hloop
  have hnone : matched = 0 ↔ hits env filter (w.rows c) = [] := by
    have hcount : matched = _ := hlooped.count
    rw [hcount, length_eq_zero_iff, chosen]
    cases once with
    | true | false => simp
  obtain ⟨xs, hacts, hmodified, hwrote⟩ := hlooped.wrote
  by_cases hupsert : matched = 0 ∧ options.upsert = true
  · -- no target: the loop left the world as it was
    have hempty := hnone.mp hupsert.1
    have htargets : chosen env once filter (w.rows c) = [] := by
      rw [chosen, hempty]
      cases once <;> rfl
    obtain rfl := hlooped.still htargets
    rw [if_pos hupsert] at hend
    obtain ⟨doc, hdoc, hresult, haccepts, hwrote'⟩ := upsertNew_wrote hsep hw hlisted hnames hend
    have hupserts : upserts env c w₁ filter update options = [doc] := by
      rw [upserts, if_pos ⟨hupsert.2, hempty⟩, hdoc]
    rw [hupserts]
    refine ⟨w₁, ?_, ?_, hwrote'.all hwrote'.inTransaction⟩
    · rw [hresult, htargets]
      exact .nil hw hlisted
    · intro d hd
      rw [mem_singleton.mp hd]
      exact haccepts
  · rw [if_neg hupsert] at hend
    cases hend
    have hupserts : upserts env c w filter update options = [] := by
      rw [upserts, if_neg fun h => hupsert ⟨hnone.mpr h.2, h.1⟩]
    rw [hupserts]
    exact ⟨w', hlooped, nofun, Still.refl hwrote.inTransaction hwrote.listed⟩

lemma updateInner_performs :
    ∃ ts ys, ts.Sublist (chosen env once filter (w.rows c)) ∧
      List.Forall₂ (fun t x => ∃ tick new, applyUpdate env tick t.2 update = .ok new ∧
        x = .replace t.1 t.2 new) ts ys ∧
      (∀ doc ∈ upserts env c w filter update options, c.Accepts env doc) ∧
      WroteAll env c specs (ys ++ (upserts env c w filter update options).map .insert) w w' := by
  obtain ⟨w₁, hlooped, haccepts, hwrote'⟩ := updateInner_looped hsep hnames hw hlisted hrun
  obtain ⟨ts, ys, hsub, hacts, hwrote⟩ := hlooped.touched
  exact ⟨ts, ys, hsub, hacts.imp fun _ _ h => h.touches, haccepts, hwrote.append hwrote'⟩

end

section

variable {internal : Bool} {result : DeleteResult}
  (hrun : deleteInner env c once filter internal w = (.ok result, w'))
include hrun

lemma deleteInner_looped :
    Looped env c specs (fun t x => x = some (.delete t.1 t.2)) (chosen env once filter (w.rows c))
      (result.deletedCount, result.deletedCount) w w' := by
  obtain ⟨count, w₁, hloop, hrun⟩ := bind_eq_ok.mp hrun
  cases hrun
  exact forRows_looped (f := fun count => (count, count)) (fun cursor row rest acc w r w' hat hname
    hkey hw hlisted hbody => deleteBody_turn hsep hnames hat hname hkey hw hlisted hbody) hw hlisted
    rfl hloop

lemma deleteInner_performs :
    ∃ ts ys, ts.Sublist (chosen env once filter (w.rows c)) ∧
      List.Forall₂ (fun t x => x = .delete t.1 t.2) ts ys ∧ WroteAll env c specs ys w w' := by
  obtain ⟨ts, ys, hsub, hacts, hwrote⟩ := (deleteInner_looped hsep hnames hw hlisted hrun).touched
  exact ⟨ts, ys, hsub, hacts.imp fun _ _ h => Option.some.inj h, hwrote⟩

end

section

variable {st : Statement} {reply : Reply} (hrun : st.exec env c w = (.ok reply, w'))
include hrun

/-- A statement that returns `Ok` performs its document writes, and inserts what is valid. -/
lemma Statement.exec_performs_accepts :
    (∀ doc ∈ st.inserts env c w, c.Accepts env doc) ∧
      ∃ xs, st.Performs env c w xs ∧ WroteAll env c specs xs w w' := by
  cases st with
  | insertOne document internal =>
    obtain ⟨result, w₁, hinsert, hrun⟩ := bind_eq_ok.mp hrun
    cases hrun
    rw [Smongo.insertOne, withBatchedWrite_of_inTransaction _ hw] at hinsert
    obtain ⟨haccepts, hwrote⟩ := insertOneInner_wrote hsep hw hlisted hnames hinsert
    refine ⟨fun d hd => ?_, _, ⟨[], [], nil_sublist _, .nil, rfl⟩, hwrote.all hwrote.inTransaction⟩
    rw [mem_singleton.mp hd]
    exact haccepts
  | insertMany documents internal =>
    obtain ⟨result, w₁, hinsert, hrun⟩ := bind_eq_ok.mp hrun
    cases hrun
    obtain ⟨prepared, w₂, hprepare, hinsert⟩ := bind_eq_ok.mp hinsert
    obtain ⟨hdocs, haccepts, rfl⟩ := prepareDocuments_ok hprepare
    have hticks := still_ticks hw hlisted (identifyAll env w.ticks documents).2
    rw [withBatchedWrite_of_inTransaction _ hticks.inTransaction] at hinsert
    have hwrote := insertPrepared_wrote hsep hticks.inTransaction hticks.listed hnames hinsert
    rw [hdocs] at hwrote
    exact ⟨haccepts, _, ⟨[], [], nil_sublist _, .nil, rfl⟩, .of_still hticks hwrote⟩
  | updateOne filter update options | updateMany filter update options =>
    obtain ⟨result, w₁, hupdate, hrun⟩ := bind_eq_ok.mp hrun
    cases hrun
    obtain ⟨ts, ys, hsub, hacts, haccepts, hwrote⟩ := updateInner_performs hsep hnames hw hlisted
      ((withBatchedWrite_of_inTransaction _ hw).symm.trans hupdate)
    exact ⟨haccepts, _, ⟨ts, ys, hsub, hacts, rfl⟩, hwrote⟩
  | deleteOne filter internal | deleteMany filter internal =>
    obtain ⟨result, w₁, hdelete, hrun⟩ := bind_eq_ok.mp hrun
    cases hrun
    obtain ⟨ts, ys, hsub, hacts, hwrote⟩ := deleteInner_performs hsep hnames hw hlisted
      ((withBatchedWrite_of_inTransaction _ hw).symm.trans hdelete)
    exact ⟨nofun, ys, ⟨ts, ys, hsub, hacts, (append_nil ys).symm⟩, hwrote⟩

lemma Statement.exec_performs :
    ∃ xs, st.Performs env c w xs ∧ WroteAll env c specs xs w w' :=
  (exec_performs_accepts hsep hnames hw hlisted hrun).2

end

end

end

end Smongo
