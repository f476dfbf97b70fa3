import Smongo.Collection.Buffering

/-!
# Index maintenance, table by table

What writing a document does to the table of each plain B-tree index.
-/

namespace Smongo

open Eff List RedbCursor RedbSession Bytes IndexSpec World

namespace Handle

variable (c : Handle)

lemma ofIndex_indexTable {m n : String} : c.OfIndex m (c.indexTable n) ↔ m = n := by
  constructor
  · rintro (h | h | h)
    · exact ((String.append_right_inj _).mp h).symm
    · exact absurd (congrArg String.toList h) (by simp [indexTable, textTable])
    · exact absurd (congrArg String.toList h) (by simp [indexTable, prefixTable])
  · rintro rfl
    exact .inl rfl

lemma indexTable_ne_prefixTable (m n : String) : c.indexTable m ≠ c.prefixTable n := fun h =>
  absurd (congrArg String.toList h) (by simp [indexTable, prefixTable])

lemma not_ofIndex_metadataTable (n : String) : ¬ c.OfIndex n c.metadataTable := by
  rintro (h | h | h)
  · exact absurd (congrArg String.toList h) (by simp [indexTable, metadataTable])
  · exact absurd (congrArg String.toList h) (by simp [textTable, metadataTable])
  · exact absurd (congrArg String.toList h) (by simp [prefixTable, metadataTable])

/-- The tables of data, metadata and oplog are different, and none belongs to an index. -/
structure Separate : Prop where
  data_index : ∀ n, ¬ c.OfIndex n c.tableName
  data_metadata : c.tableName ≠ c.metadataTable
  oplog_data : ∀ cfg ∈ c.oplog, cfg.oplogTable ≠ c.tableName
  oplog_metadata : ∀ cfg ∈ c.oplog, cfg.oplogTable ≠ c.metadataTable
  oplog_index : ∀ cfg ∈ c.oplog, ∀ n, ¬ c.OfIndex n cfg.oplogTable

lemma separate_of_new (name : String) :
    Separate { tableName := name, collectionName := name } where
  data_index n := by
    rintro (h | h | h) <;> replace h := congrArg (fun s => s.toList.length) h
    · simp [indexTable] at h
    · simp [textTable] at h
    · simp [prefixTable] at h
  data_metadata h := by
    replace h := congrArg (fun s => s.toList.length) h
    simp [metadataTable] at h
  oplog_data := by simp
  oplog_metadata := by simp
  oplog_index := by simp

end Handle

lemma Sample.separate : handle.Separate := Handle.separate_of_new "t"

section

variable {P : String → Prop} {w w' : RedbWorld}

section

variable (h : (writing P).rel w w') (hw : w.session.inTransaction = true)
include h hw

lemma writing_inTransaction : w'.session.inTransaction = true := by
  obtain ⟨ws, -, hbuffers⟩ := h hw
  exact hbuffers.inTransaction

lemma writing_db : w'.session.db = w.session.db := by
  obtain ⟨ws, -, hbuffers⟩ := h hw
  exact hbuffers.db

lemma writing_view {name : String} (hname : ¬ P name) : w'.view name = w.view name := by
  obtain ⟨ws, hws, hbuffers⟩ := h hw
  have hnone : writesTo name ws = [] := by
    simp only [writesTo, map_eq_nil_iff, filter_eq_nil_iff, decide_eq_true_eq]
    rintro x hx rfl
    exact hname (hws x hx)
  rw [World.view, hbuffers.view hw, hnone]
  rfl

end

def listing (env : Env) (c : Handle) (specs : List IndexSpec) : Frame RedbWorld where
  rel w w' := w.session.inTransaction = true → listed env c w = .ok specs →
    w'.session.inTransaction = true ∧ listed env c w' = .ok specs
  refl _ hw hlisted := ⟨hw, hlisted⟩
  trans h h' hw hlisted := by
    obtain ⟨ht, hlisted'⟩ := h hw hlisted
    exact h' ht hlisted'

lemma shown_buffer_of_ne {s : RedbSession} (hs : s.inTransaction = true) {name name' : String}
    (h : name' ≠ name) (op : PendingWrite) :
    shown (s.buffer name op) name' = shown s name' := by
  unfold shown
  rw [buffer_db, view_buffer s name op hs, if_neg h]

lemma admits_listing (env : Env) (c : Handle) (specs : List IndexSpec)
    (hP : ¬ P c.metadataTable) : Admits env c P (listing env c specs) where
  draw _ hw hlisted := ⟨hw, hlisted⟩
  notify _ _ _ _ _ hw hlisted := ⟨hw, hlisted⟩
  list w specs' hcache hread hw hlisted := by
    refine ⟨hw, ?_⟩
    rw [listed, hcache] at hlisted
    exact hread.symm.trans hlisted
  write w name op hname hw hlisted := by
    have hne : c.metadataTable ≠ name := by
      rintro rfl
      exact hP hname
    rw [doWrite_of_inTransaction _ _ _ hw]
    refine ⟨hw, ?_⟩
    rw [← hlisted]
    unfold listed
    rw [shown_buffer_of_ne hw hne]

end

/-! ### B-tree indexes -/

def IndexSpec.IsBTree (spec : IndexSpec) : Prop := resolveIndexType spec.keys spec.options = .bTree

instance : DecidablePred IndexSpec.IsBTree := fun _ => inferInstanceAs (Decidable (_ = _))

namespace IndexSpec

variable (env : Env) (spec : IndexSpec) (doc : Document)

def covers : Bool :=
  match partialAdmits env doc spec.options with
  | .ok admitted => admitted
  | _ => false

def row (key : Bytes) : Bytes := specIndexKey env doc spec ++ key

def added (key : Bytes) (t : Table) : Table :=
  if spec.covers env doc then t.insert (spec.row env doc key) key else t

def removed (committed : Table) (doc : Document) (key : Bytes) (t : Table) : Table :=
  if (committed.get (spec.row env doc key)).isSome then t.erase (spec.row env doc key) else t

def changed (committed : Table) (old new : Document) (oldKey newKey : Bytes) (t : Table) : Table :=
  if specIndexKey env old spec = specIndexKey env new spec ∧ oldKey = newKey then t
  else spec.added env new newKey (spec.removed env committed old oldKey t)

end IndexSpec

section

variable {env : Env} {c : Handle} {spec : IndexSpec} {w w' : RedbWorld}

lemma view_buffer (hw : w.session.inTransaction = true) (name : String) (op : PendingWrite) :
    (w.buffer name op).view name = op.apply (w.view name) := by
  rw [World.view, World.buffer, RedbSession.view_buffer _ _ _ hw, if_pos rfl]
  rfl

lemma insertIntoBTree_apply (hw : w.session.inTransaction = true) (doc : Document)
    (idStr : String) :
    insertIntoBTree env c doc idStr spec w =
      if spec.options.unique && hasPrefix (shown w.session (c.indexTable spec.name))
          (specIndexKey env doc spec) then
        (.error (duplicateKeyError spec), w)
      else (.ok (), w.buffer (c.indexTable spec.name)
        (.put (spec.row env doc (utf8 idStr)) (utf8 idStr))) := by
  rw [insertIntoBTree, bind_of_ok (keyTaken_apply c spec _ w)]
  split
  · rfl
  · exact putRow_apply hw _ _ _

variable {doc : Document}

lemma insertIntoIndexesSingle_of_admits (h : spec.IsBTree) {admitted : Bool}
    (hadmits : partialAdmits env doc spec.options = .ok admitted) (idStr : String) (w : RedbWorld) :
    insertIntoIndexesSingle env c doc idStr spec w =
      if admitted then insertIntoBTree env c doc idStr spec w else (.ok (), w) := by
  have hread : (ofOutcome (partialAdmits env doc spec.options)) w =
      (.ok admitted, w) := by
    rw [hadmits]
    rfl
  rw [insertIntoIndexesSingle, bind_of_ok hread]
  cases admitted with
  | false => rfl
  | true => simp only [if_true, show resolveIndexType spec.keys spec.options = .bTree from h]

section

variable (h : spec.IsBTree) (hw : w.session.inTransaction = true)
include h hw

lemma removeFromIndexesSingle_bTree (doc : Document) (idStr : String) :
    removeFromIndexesSingle env c doc idStr spec w = (.ok (),
      if ((w.committed (c.indexTable spec.name)).get (spec.row env doc (utf8 idStr))).isSome then
        w.buffer (c.indexTable spec.name) (.del (spec.row env doc (utf8 idStr)))
      else w) := by
  rw [removeFromIndexesSingle, show resolveIndexType spec.keys spec.options = .bTree from h]
  exact removeIfFound_apply hw _ _

lemma insertIntoIndexesSingle_view
    {idStr : String} (hrun : insertIntoIndexesSingle env c doc idStr spec w = (.ok (), w')) :
    w'.view (c.indexTable spec.name) =
      spec.added env doc (utf8 idStr) (w.view (c.indexTable spec.name)) := by
  obtain ⟨admitted, hadmits, -⟩ := ofOutcome_bind_eq_ok.mp hrun
  have hcovers : spec.covers env doc = admitted := by rw [covers, hadmits]
  rw [insertIntoIndexesSingle_of_admits h hadmits] at hrun
  rw [added, hcovers]
  cases admitted with
  | false =>
    cases hrun
    rfl
  | true =>
    rw [if_pos rfl, insertIntoBTree_apply hw] at hrun
    split at hrun
    · cases hrun
    · cases hrun
      exact view_buffer hw _ _

lemma removeFromIndexesSingle_view
    {idStr : String} (hrun : removeFromIndexesSingle env c doc idStr spec w = (.ok (), w')) :
    w'.view (c.indexTable spec.name) = spec.removed env (w.committed (c.indexTable spec.name)) doc
      (utf8 idStr) (w.view (c.indexTable spec.name)) := by
  rw [removeFromIndexesSingle_bTree h hw] at hrun
  cases hrun
  unfold removed
  split
  · exact view_buffer hw _ _
  · rfl

lemma updateInIndexesSingle_view {oldDoc newDoc : Document} {oldIdStr newIdStr : String}
    (hrun : updateInIndexesSingle env c oldDoc newDoc oldIdStr newIdStr spec w = (.ok (), w')) :
    w'.view (c.indexTable spec.name) = spec.changed env (w.committed (c.indexTable spec.name))
      oldDoc newDoc (utf8 oldIdStr) (utf8 newIdStr)
      (w.view (c.indexTable spec.name)) := by
  unfold updateInIndexesSingle at hrun
  unfold changed
  split at hrun
  · next hsame =>
    rw [if_pos ⟨hsame.2.1, congrArg utf8 hsame.2.2⟩]
    cases hrun
    rfl
  · next hdiff =>
    rw [if_neg fun hsame => hdiff ⟨h, hsame.1, utf8_injective hsame.2⟩]
    obtain ⟨⟨⟩, w₁, hremove, hinsert⟩ := bind_eq_ok.mp hrun
    have hmoves := ((admits_writing env c (c.Maintains spec)).moves
      (uses_removeFromIndexesSingle c.reads_all (fun _ ht => ht) oldDoc oldIdStr) w).1
    rw [hremove] at hmoves
    rw [insertIntoIndexesSingle_view h (writing_inTransaction hmoves hw) hinsert,
      removeFromIndexesSingle_view h hw hremove]

end

/-- Each B-tree index table changed by `f`, and tables of no index did not change. -/
structure Indexed (c : Handle) (specs : List IndexSpec) (f : IndexSpec → Table → Table)
    (w w' : RedbWorld) : Prop where
  bTree : ∀ spec ∈ specs, spec.IsBTree →
    w'.view (c.indexTable spec.name) = f spec (w.view (c.indexTable spec.name))
  others : ∀ name, (∀ spec ∈ specs, ¬ c.Maintains spec (c.indexTable name)) →
    w'.view (c.indexTable name) = w.view (c.indexTable name)

lemma not_maintains_of_notMem {specs : List IndexSpec} {name : String}
    (h : name ∉ specs.map IndexSpec.name) :
    ∀ spec ∈ specs, ¬ c.Maintains spec (c.indexTable name) := by
  intro spec hmem hmaintains
  apply h
  rw [← c.ofIndex_indexTable.mp hmaintains.ofIndex]
  exact mem_map_of_mem hmem

section

variable {specs : List IndexSpec} {body : IndexSpec → RedbOp Unit}
  (hframe : ∀ spec w, (writing (c.Maintains spec)).rel w (body spec w).2)
include hframe

lemma forM_view_of_not_maintains (hw : w.session.inTransaction = true) {name : String}
    (hname : ∀ spec ∈ specs, ¬ c.Maintains spec (c.indexTable name))
    (hrun : specs.forM body w = (.ok (), w')) :
    w'.view (c.indexTable name) = w.view (c.indexTable name) := by
  have hmoves : Moves (writing fun t => t ≠ c.indexTable name) (specs.forM body) := by
    refine .forM specs fun x hx s => ⟨fun hs => ?_, fun _ _ => trivial⟩
    obtain ⟨ws, hws, hbuffers⟩ := hframe x s hs
    refine ⟨ws, fun v hv heq => hname x hx ?_, hbuffers⟩
    rw [← heq]
    exact hws v hv
  have hrel := (hmoves w).1
  rw [hrun] at hrel
  exact writing_view hrel hw fun h => h rfl

/-- Bodies that write only to their own index do to each index table what its own turn does. -/
lemma forM_indexed (hnames : (specs.map name).Nodup) {f : IndexSpec → Table → Table}
    {db : Redb} (hbody : ∀ spec w w', spec.IsBTree → w.session.inTransaction = true →
      w.session.db = db → body spec w = (.ok (), w') →
        w'.view (c.indexTable spec.name) = f spec (w.view (c.indexTable spec.name)))
    (hw : w.session.inTransaction = true) (hdb : w.session.db = db)
    (hrun : specs.forM body w = (.ok (), w')) : Indexed c specs f w w' := by
  refine ⟨?_, fun name hname => forM_view_of_not_maintains hframe hw hname hrun⟩
  induction specs generalizing w with
  | nil =>
    intro spec hmem
    cases hmem
  | cons first rest ih =>
    intro spec hmem htree
    obtain ⟨hfirst, hrest⟩ := nodup_cons.mp hnames
    obtain ⟨⟨⟩, w₁, hone, hmany⟩ := bind_eq_ok.mp hrun
    have hmoves := hframe first w
    rw [hone] at hmoves
    have hw₁ := writing_inTransaction hmoves hw
    have hdb₁ := (writing_db hmoves hw).trans hdb
    rcases mem_cons.mp hmem with rfl | hmem
    · rw [forM_view_of_not_maintains hframe hw₁ (not_maintains_of_notMem hfirst) hmany,
        hbody spec w w₁ htree hw hdb hone]
    · have hne : first.name ≠ spec.name := fun h => hfirst (h ▸ mem_map_of_mem hmem)
      rw [ih hrest hw₁ hdb₁ hmany spec hmem htree,
        writing_view hmoves hw fun h => hne (c.ofIndex_indexTable.mp h.ofIndex)]

end

variable {specs : List IndexSpec} (hw : w.session.inTransaction = true)
  (hlisted : listed env c w = .ok specs) (hnames : (specs.map name).Nodup)
include hw hlisted hnames

lemma insertIntoIndexes_indexed (hrun : insertIntoIndexes env c doc w = (.ok (), w')) :
    ∃ idStr, extractIdString env doc = .ok idStr ∧
      Indexed c specs (fun spec t => spec.added env doc (utf8 idStr) t) w w' := by
  rw [insertIntoIndexes, bind_of_ok (listIndexes_of_listed hlisted)] at hrun
  obtain ⟨idStr, hid, hloop⟩ := ofOutcome_bind_eq_ok.mp hrun
  have hindexed := forM_indexed (w := { w with indexCache := some specs }) (fun spec w =>
      ((admits_writing env c (c.Maintains spec)).moves
        (uses_insertIntoIndexesSingle c.reads_all (fun _ ht => ht) doc idStr) w).1) hnames
    (f := fun spec t => spec.added env doc (utf8 idStr) t)
    (fun spec w w' htree hw _ hone => insertIntoIndexesSingle_view htree hw hone) hw rfl hloop
  exact ⟨idStr, hid, hindexed.bTree, hindexed.others⟩

lemma removeFromIndexes_indexed (hrun : removeFromIndexes env c doc w = (.ok (), w')) :
    ∃ idStr, extractIdString env doc = .ok idStr ∧
      Indexed c specs (fun spec t => spec.removed env (w.committed (c.indexTable spec.name)) doc
        (utf8 idStr) t) w w' := by
  rw [removeFromIndexes, bind_of_ok (listIndexes_of_listed hlisted)] at hrun
  obtain ⟨idStr, hid, hloop⟩ := ofOutcome_bind_eq_ok.mp hrun
  have hindexed := forM_indexed (w := { w with indexCache := some specs }) (fun spec w =>
      ((admits_writing env c (c.Maintains spec)).moves
        (uses_removeFromIndexesSingle c.reads_all (fun _ ht => ht) doc idStr) w).1) hnames
    (f := fun spec t => spec.removed env (w.committed (c.indexTable spec.name)) doc (utf8 idStr) t)
    (fun spec w₁ w₂ htree hw₁ hdb hone => by
      rw [removeFromIndexesSingle_view htree hw₁ hone, committed, committed, hdb])
    hw rfl hloop
  exact ⟨idStr, hid, hindexed.bTree, hindexed.others⟩

lemma updateInIndexes_indexed {oldDoc newDoc : Document}
    (hrun : updateInIndexes env c oldDoc newDoc w = (.ok (), w')) :
    ∃ oldIdStr newIdStr, extractIdString env oldDoc = .ok oldIdStr ∧
      extractIdString env newDoc = .ok newIdStr ∧
      Indexed c specs (fun spec t => spec.changed env (w.committed (c.indexTable spec.name)) oldDoc
        newDoc (utf8 oldIdStr) (utf8 newIdStr) t) w w' := by
  rw [updateInIndexes, bind_of_ok (listIndexes_of_listed hlisted)] at hrun
  obtain ⟨oldIdStr, hold, hrun⟩ := ofOutcome_bind_eq_ok.mp hrun
  obtain ⟨newIdStr, hnew, hloop⟩ := ofOutcome_bind_eq_ok.mp hrun
  have hindexed := forM_indexed (w := { w with indexCache := some specs }) (fun spec w =>
      ((admits_writing env c (c.Maintains spec)).moves (uses_updateInIndexesSingle c.reads_all
        (fun _ ht => ht) oldDoc newDoc oldIdStr newIdStr) w).1) hnames
    (f := fun spec t => spec.changed env (w.committed (c.indexTable spec.name)) oldDoc newDoc
      (utf8 oldIdStr) (utf8 newIdStr) t)
    (fun spec w₁ w₂ htree hw₁ hdb hone => by
      rw [updateInIndexesSingle_view htree hw₁ hone, committed, committed, hdb])
    hw rfl hloop
  exact ⟨oldIdStr, newIdStr, hold, hnew, hindexed.bTree, hindexed.others⟩

end

end Smongo
