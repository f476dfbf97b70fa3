import Mathlib.Logic.Relation
import Smongo.Collection.Catalog

/-!
# Index calls between statements

What `create_index` and `drop_index` do to a settled collection.
-/

namespace Smongo

open Eff List RedbCursor RedbSession OrderedTable Bytes Function Redb IndexSpec World

def IndexSpec.rebuilt (env : Env) (spec : IndexSpec) (rows : Rows) (t : Table) : Table :=
  rows.foldl (fun t row =>
    match env.fromReader row.2 with
    | .ok doc => spec.added env doc (idKey env doc) t
    | .error _ => t) t

def IndexSpec.uncollated (spec : IndexSpec) : IndexSpec :=
  { spec with options := { spec.options with collation := none } }

lemma IndexSpec.uncollated_of_none {spec : IndexSpec} (h : spec.options.collation = none) :
    spec.uncollated = spec := by
  rw [uncollated, ← h]

lemma IndexSpec.uncollated_covers (env : Env) (spec : IndexSpec) (doc : Document) :
    spec.uncollated.covers env doc = spec.covers env doc := rfl

namespace World

variable {w : RedbWorld} {name name' : String}

def writtenAll (w : RedbWorld) (name : String) (ops : List PendingWrite) : RedbWorld :=
  ops.foldl (fun w op => w.written name op) w

lemma writtenAll_append (ops ops' : List PendingWrite) :
    w.writtenAll name (ops ++ ops') = (w.writtenAll name ops).writtenAll name ops' :=
  foldl_append

lemma view_writtenAll (ops : List PendingWrite) :
    (w.writtenAll name ops).view name = Change.applyAll (w.view name) ops := by
  induction ops generalizing w with
  | nil => rfl
  | cons op ops ih =>
    refine ih.trans ?_
    rw [view_written, Change.applyAll_cons]

lemma sameTable_writtenAll (h : name' ≠ name) (ops : List PendingWrite) :
    SameTable name' w (w.writtenAll name ops) := by
  induction ops generalizing w with
  | nil => exact .refl
  | cons op ops ih => exact (sameTable_written h op).trans ih

end World

section

variable {env : Env} {c : Handle} {spec : IndexSpec} {w w' : RedbWorld}

lemma specIndexKey_of_collation (h : spec.options.collation = none) (doc : Document) :
    specIndexKey env doc spec = extractIndexKey doc spec.keys := by
  rw [specIndexKey, h]
  rfl

namespace IndexSpec

variable (env spec)

def built (doc : Document) (key : Bytes) : Option Bytes :=
  if spec.covers env doc then
    if is2dsphereKeys spec.keys then twodsphereIndexKey env doc spec.keys
    else some (extractIndexKey doc spec.keys ++ key)
  else none

def buildOps (doc : Document) (key : Bytes) : List PendingWrite :=
  (spec.built env doc key).toList.map fun r => .put r key

def buildAllOps (rows : Rows) : List PendingWrite :=
  rows.flatMap fun row =>
    match env.fromReader row.2 with
    | .ok doc => spec.buildOps env doc (idKey env doc)
    | .error _ => []

variable {env spec}

lemma mem_buildAllOps {rows : Rows} {op : PendingWrite}
    (h : op ∈ spec.buildAllOps env rows) : ∃ k v, op = .put k v := by
  obtain ⟨row, -, hop⟩ := mem_flatMap.mp h
  cases hdoc : env.fromReader row.2 with
  | ok doc =>
    rw [hdoc] at hop
    obtain ⟨r, -, rfl⟩ := mem_map.mp hop
    exact ⟨_, _, rfl⟩
  | error e =>
    rw [hdoc] at hop
    cases hop

end IndexSpec

variable {doc : Document} {rows : Rows}

lemma rebuildRow_written {idStr : String} {seen seen' : List Bytes}
    (hrun : rebuildRow env c spec.name spec.keys spec.options doc idStr seen w = (.ok seen', w')) :
    w' = w.writtenAll (c.indexTable spec.name) (spec.buildOps env doc (utf8 idStr)) := by
  obtain ⟨admitted, hadmits, hrun⟩ := ofOutcome_bind_eq_ok.mp hrun
  have hcovers : spec.covers env doc = admitted := by rw [covers, hadmits]
  rw [buildOps, built, hcovers]
  cases admitted with
  | false =>
    cases hrun
    rfl
  | true =>
    change (if is2dsphereKeys spec.keys then _ else _ : RedbOp (List Bytes)) w = _ at hrun
    cases hkeys : is2dsphereKeys spec.keys with
    | true =>
      rw [hkeys, if_pos rfl] at hrun
      cases hkey : twodsphereIndexKey env doc spec.keys with
      | some key =>
        rw [hkey] at hrun
        cases hrun
        rfl
      | none =>
        rw [hkey] at hrun
        change (if spec.options.sparse then _ else _ : RedbOp (List Bytes)) w = _ at hrun
        split at hrun
        · cases hrun
          rfl
        · cases hrun
    | false =>
      rw [hkeys, if_neg Bool.false_ne_true] at hrun
      split at hrun
      · cases hrun
      · cases hrun
        rfl

lemma rebuildIndex_written
    (hrun : rebuildIndex env c spec.name spec.keys spec.options w = (.ok (), w')) :
    w' = w.writtenAll (c.indexTable spec.name)
      (spec.buildAllOps env (shown w.session c.tableName)) := by
  obtain ⟨seen, w₁, hloop, hdone⟩ := bind_eq_ok.mp hrun
  cases hdone
  refine forRows_ok (Q := fun _ w' => w' = _)
    (I := fun rows _ w' => w'.writtenAll (c.indexTable spec.name) (spec.buildAllOps env rows) =
      w.writtenAll (c.indexTable spec.name) (spec.buildAllOps env (shown w.session c.tableName)))
    (fun _ _ h => h) ?_ rfl hloop
  rintro cursor row rest seen w r w' hat hcursor - hinv hbody
  rw [rebuildBody, getValueRaw_of_at hat] at hbody
  replace hbody := (bind_of_ok (ofOutcome_apply w (.ok row.2))).symm.trans hbody
  obtain ⟨doc, hdoc, hbody⟩ := ofOutcome_bind_eq_ok.mp hbody
  obtain ⟨idStr, hid, hbody⟩ := ofOutcome_bind_eq_ok.mp hbody
  obtain ⟨seen', w₁, hrow, hend⟩ := bind_eq_ok.mp hbody
  cases hend
  have hread : env.fromReader row.2 = .ok doc := 
    Outcome.ofExcept_eq_ok.mp (Outcome.mapError_eq_ok.mp hdoc)
  refine ⟨hat, hcursor, ?_⟩
  change writtenAll _ _ _ = _
  rw [rebuildRow_written hrow, ← hinv, ← writtenAll_append, buildAllOps,
    buildAllOps, flatMap_cons, hread, ← idKey_of_extractIdString hid]

lemma IndexSpec.applyAll_buildAllOps (hkeys : is2dsphereKeys spec.keys = false) (t : Table) :
    Change.applyAll t (spec.buildAllOps env rows) = spec.uncollated.rebuilt env rows t := by
  induction rows generalizing t with
  | nil => rfl
  | cons row rows ih =>
    rw [buildAllOps, flatMap_cons, Change.applyAll_append, rebuilt, foldl_cons]
    refine (ih _).trans (congrArg (spec.uncollated.rebuilt env rows) ?_)
    cases env.fromReader row.2 with
    | error e => rfl
    | ok doc =>
      dsimp only [buildOps]
      rw [built, added, uncollated_covers, hkeys, IndexSpec.row, specIndexKey_of_collation rfl]
      split <;> rfl

def docsIn (env : Env) (rows : Rows) (key : Bytes) : Option Document :=
  (rows.find? fun row => row.1 = key).bind fun row => (env.fromReader row.2).toOption

lemma docsIn_eq_some {key : Bytes} (h : docsIn env rows key = some doc) :
    ∃ row ∈ rows, row.1 = key ∧ env.fromReader row.2 = .ok doc := by
  obtain ⟨row, hfind, hread⟩ := Option.bind_eq_some_iff.mp h
  refine ⟨row, mem_of_find?_eq_some hfind, by simpa using find?_some hfind, ?_⟩
  cases hdoc : env.fromReader row.2 <;> simp_all [Except.toOption]

lemma docsIn_rows (t : Table) : docsIn env t.rows = docAt env t := by
  funext key
  unfold docsIn docAt
  cases hget : t.get key with
  | none =>
    have hnone : t.rows.find? (fun row => row.1 = key) = none := by
      rw [find?_eq_none]
      intro row hrow
      have hget' := get_eq_some_iff.mpr hrow
      simp only [decide_eq_true_eq]
      rintro rfl
      rw [hget] at hget'
      cases hget'
    rw [hnone]
    rfl
  | some bytes =>
    have hmem := get_eq_some_iff.mp hget
    obtain ⟨row, hfind⟩ := Option.isSome_iff_exists.mp
      (find?_isSome.mpr ⟨(key, bytes), hmem, by simp⟩ :
        (t.rows.find? fun row => row.1 = key).isSome)
    have hkey : row.1 = key := by simpa using find?_some hfind
    have hrow := get_eq_some_iff.mpr (mem_of_find?_eq_some hfind)
    rw [hkey, hget] at hrow
    cases hrow
    rw [hfind]
    rfl

lemma docsIn_concat {row : Row}
    (hrow : ∀ r ∈ rows, r.1 ≠ row.1) (hdoc : env.fromReader row.2 = .ok doc) :
    docsIn env (rows ++ [row]) = update (docsIn env rows) row.1 (some doc) := by
  funext key
  rw [Function.update_apply, docsIn, find?_append]
  by_cases hkey : key = row.1
  · have hnone : rows.find? (fun r => r.1 = key) = none := by
      rw [find?_eq_none]
      intro r hr
      simpa [hkey] using hrow r hr
    rw [hnone, if_pos hkey]
    simp [hdoc, hkey, Except.toOption]
  · rw [if_neg hkey]
    simp [docsIn, Ne.symm hkey]

lemma derived_rebuilt {W : Bytes → Document → Prop} (hkeys : rows.Pairwise fun a b => a.1 ≠ b.1)
    (hrows : ∀ row ∈ rows, ∃ doc, env.fromReader row.2 = .ok doc ∧ row.1 = idKey env doc ∧
      W row.1 doc)
    (hapart : ∀ k d k' d', W k d → W k' d' → k ≠ k' → spec.row env d k ≠ spec.row env d' k') :
    Derived (spec.covers env) (spec.row env) (docsIn env rows)
      (spec.rebuilt env rows .empty).get := by
  induction rows using reverseRecOn with
  | nil => exact Derived.empty
  | append_singleton rows row ih =>
    obtain ⟨hkeys, -, hlast⟩ := pairwise_append.mp hkeys
    have hne : ∀ r ∈ rows, r.1 ≠ row.1 := fun r hr => hlast r hr row (mem_singleton_self row)
    obtain ⟨doc, hdoc, hkey, hW⟩ := hrows row (by simp)
    have hderived := ih hkeys fun r hr => hrows r (mem_append_left _ hr)
    rw [docsIn_concat hne hdoc, rebuilt, foldl_append, foldl_cons, foldl_nil, hdoc]
    dsimp only
    rw [← hkey]
    have hold : ∀ k d, docsIn env rows k = some d → W k d ∧ k ≠ row.1 := by
      intro k d hd
      obtain ⟨r, hr, rfl, hread⟩ := docsIn_eq_some hd
      obtain ⟨d', hread', -, hW'⟩ := hrows r (mem_append_left _ hr)
      rw [hread] at hread'
      cases hread'
      exact ⟨hW', hne r hr⟩
    refine DocWrite.derived_added hderived ?_ fun k d hd => ?_
    · by_contra hsome
      obtain ⟨d, hd⟩ := Option.ne_none_iff_exists'.mp hsome
      exact (hold _ d hd).2 rfl
    · exact hapart k d row.1 doc (hold k d hd).1 hW (hold k d hd).2

end

/-! ### Creating an index -/

structure Built (env : Env) (c : Handle) (spec : IndexSpec) (w w' : RedbWorld) : Prop where
  idle : w'.session.inTransaction = false
  cache : w'.indexCache = none
  data : w'.committed c.tableName = w.committed c.tableName
  metadata : ∃ bytes, env.specToVec spec = .ok bytes ∧ w'.committed c.metadataTable =
    (w.committed c.metadataTable).insert (utf8 spec.name) bytes
  others : ∀ name, name ≠ spec.name →
    w'.committed (c.indexTable name) = w.committed (c.indexTable name)
  rebuilt : is2dsphereKeys spec.keys = false →
    w'.committed (c.indexTable spec.name) = spec.uncollated.rebuilt env
      (w.committed c.tableName).rows (w.committed (c.indexTable spec.name))
  index_of_empty : (w.committed c.tableName).rows = [] →
    w'.committed (c.indexTable spec.name) = w.committed (c.indexTable spec.name)

section

variable {env : Env} {c : Handle} {spec : IndexSpec} {w w' t : RedbWorld}

lemma Handle.indexTable_injective (c : Handle) : Function.Injective c.indexTable :=
  fun _ _ h => c.ofIndex_indexTable.mp (.inl h.symm)

lemma Handle.indexTable_ne_metadataTable (c : Handle) (name : String) :
    c.indexTable name ≠ c.metadataTable := fun h =>
  c.not_ofIndex_metadataTable name (.inl h.symm)

lemma view_buffer_of_ne (hw : w.session.inTransaction = true) {name name' : String}
    (h : name' ≠ name) (op : PendingWrite) : (w.buffer name op).view name' = w.view name' := by
  rw [World.view, World.buffer, RedbSession.view_buffer _ _ _ hw, if_neg h]
  rfl

lemma registerIndex_built (hsep : c.Separate) {specBytes : Bytes}
    (hbytes : env.specToVec spec = .ok specBytes) {name : String}
    (hrun : registerIndex env c spec specBytes w.begin = (.ok name, t)) :
    Built env c spec w t.uncached.commit := by
  obtain ⟨⟨⟩, w₁, hput, hrun⟩ := bind_eq_ok.mp hrun
  rw [putRow_apply rfl] at hput
  cases hput
  set w₁ := w.begin.buffer c.metadataTable (.put (utf8 spec.name) specBytes) with hw₁
  obtain ⟨⟨⟩, w₂, hrebuild, hrun⟩ := bind_eq_ok.mp hrun
  obtain ⟨⟨⟩, w₃, hoplog, hrun⟩ := bind_eq_ok.mp hrun
  cases hrun
  -- the rebuild writes to the index table only, the last step to the oplog only
  have hindexing := ((admits_writing env c (· = c.indexTable spec.name)).moves
    (uses_rebuildIndex (W := (· = c.indexTable spec.name)) trivial rfl spec.keys spec.options) w₁).1
  have hlogging := ((admits_writing env c
    fun table => ∃ cfg ∈ c.oplog, table = cfg.oplogTable).moves (uses_appendOplogIfEnabled
      (fun cfg hcfg => ⟨cfg, hcfg, rfl⟩) "index_create" (.string spec.name)
      (env.specToDocument spec) false none) w₂).1
  rw [hrebuild] at hindexing
  rw [hoplog] at hlogging
  have htx₂ := writing_inTransaction hindexing rfl
  have htx : t.session.inTransaction = true := writing_inTransaction hlogging htx₂
  have hcommitted : t.uncached.commit.committed = t.view := committed_commit htx
  have hlogged : ∀ table, (∀ cfg ∈ c.oplog, cfg.oplogTable ≠ table) →
      t.view table = w₂.view table := fun table htable =>
    writing_view hlogging htx₂ fun ⟨cfg, hcfg, h⟩ => htable cfg hcfg h.symm
  have hindexed : ∀ table, table ≠ c.indexTable spec.name → w₂.view table = w₁.view table :=
    fun table htable => writing_view hindexing rfl htable
  have hshown : shown w₁.session c.tableName = (w.committed c.tableName).rows :=
    (shown_buffer_of_ne rfl hsep.data_metadata _).trans (shown_begin w c.tableName)
  have hold : w₁.view (c.indexTable spec.name) = w.committed (c.indexTable spec.name) := by
    rw [view_buffer_of_ne rfl (c.indexTable_ne_metadataTable spec.name), view_begin]
  have hindex := hlogged (c.indexTable spec.name)
    fun cfg hcfg h => hsep.oplog_index cfg hcfg spec.name (.inl h)
  refine ⟨rfl, rfl, ?_, ⟨specBytes, hbytes, ?_⟩, fun name hname => ?_, fun hkeys => ?_,
    fun hempty => ?_⟩
  · rw [hcommitted, hlogged _ hsep.oplog_data,
      hindexed _ fun h => hsep.data_index spec.name (.inl h),
      view_buffer_of_ne rfl hsep.data_metadata, view_begin]
  · rw [hcommitted, hlogged _ hsep.oplog_metadata,
      hindexed _ (c.indexTable_ne_metadataTable spec.name).symm, hw₁, view_buffer rfl, view_begin]
    rfl
  · rw [hcommitted, hlogged _ fun cfg hcfg h => hsep.oplog_index cfg hcfg name (.inl h),
      hindexed _ fun h => hname (c.indexTable_injective h),
      view_buffer_of_ne rfl (c.indexTable_ne_metadataTable name), view_begin]
  · rw [hcommitted, hindex, rebuildIndex_written hrebuild, view_writtenAll, hshown,
      applyAll_buildAllOps hkeys, hold]
  · rw [hcommitted, hindex, rebuildIndex_written hrebuild, hshown, hempty]
    exact hold

def World.withTable (w : RedbWorld) (name : String) : RedbWorld :=
  { w with session := (createTable name w.session).2 }

lemma committed_withTable (w : RedbWorld) (name : String) :
    (w.withTable name).committed = w.committed := by
  funext name'
  simp only [committed, withTable, createTable, modify_apply, table,
    transact, writeTable, Function.update_apply]
  split
  · next h => rw [h, Change.applyAll_nil, Option.getD_some]
  · rfl

lemma createMissingIndex_eq (env : Env) (c : Handle) (spec : IndexSpec) (w : RedbWorld) :
    createMissingIndex env c spec w = endBatch (buildIndex env c spec w.begin) := by
  change (attempt (buildIndex env c spec) >>= _) w.begin = _
  rcases h : buildIndex env c spec w.begin with ⟨a | e | _, t⟩
  · exact bind_of_ok (attempt_of_ok h)
  · exact bind_of_ok (attempt_of_error h)
  · exact bind_of_panic (by rw [attempt, h])

lemma Built.of_committed_eq {w₀ : RedbWorld} (h : Built env c spec w₀ w')
    (heq : w₀.committed = w.committed) : Built env c spec w w' where
  idle := h.idle
  cache := h.cache
  data := heq ▸ h.data
  metadata := heq ▸ h.metadata
  others := heq ▸ h.others
  rebuilt := heq ▸ h.rebuilt
  index_of_empty := heq ▸ h.index_of_empty

lemma createMissingIndex_cases (hsep : c.Separate) {r : Outcome CollectionError String}
    (hr : r ≠ .panic) (hrun : createMissingIndex env c spec w = (r, w')) :
    Rested env c w w' ∨ Built env c spec w w' := by
  -- creating the two tables commutes with beginning the transaction
  let w₀ := (w.withTable (c.indexTable spec.name)).withTable c.metadataTable
  have hw₀ : w₀.committed = w.committed := (committed_withTable _ _).trans (committed_withTable w _)
  rw [createMissingIndex_eq] at hrun
  cases hbytes : env.specToVec spec with
  | error e =>
    simp only [buildIndex, hbytes] at hrun
    cases hrun
    exact .inl ⟨rfl, nofun, hw₀⟩
  | ok specBytes =>
    simp only [buildIndex, hbytes] at hrun
    have hrun' : endBatch (registerIndex env c spec specBytes w₀.begin) = (r, w') := hrun
    have hwriting : (writing fun _ => True).rel w₀.begin
        (registerIndex env c spec specBytes w₀.begin).2 :=
      ((admits_writing env c fun _ => True).moves (uses_registerIndex trivial trivial trivial
        (fun _ _ => trivial) specBytes) w₀.begin).1
    rcases hend : registerIndex env c spec specBytes w₀.begin with ⟨name | e | _, t⟩ <;>
      rw [hend] at hrun' hwriting <;> cases hrun'
    · exact .inr ((registerIndex_built hsep hbytes hend).of_committed_eq hw₀)
    · refine .inl ⟨rfl, nofun, ?_⟩
      have hdb : t.session.db = w₀.begin.session.db := writing_db hwriting rfl
      rw [← hw₀]
      exact funext fun name => congrArg (table · name) hdb
    · exact absurd rfl hr

def newSpec (name : String) (keys : Document) (options : Option IndexOptions) : IndexSpec :=
  ⟨name, keys, { options.getD {} with name := none }⟩

/-- The arguments of `create_index` are accepted, and no index has the name yet. -/
def Registers (env : Env) (c : Handle) (w : RedbWorld) (keys : Document)
    (options : Option IndexOptions) (name : String) : Prop :=
  checkNewIndex env keys (options.getD {}) = .ok name ∧
    (w.committed c.metadataTable).get (utf8 name) = none

/-- `create_index` builds an index whose name is not yet listed, or nothing happens. -/
lemma createIndex_cases (hsep : c.Separate) (h : Settled env c w) {keys : Document}
    {options : Option IndexOptions} {r : Outcome CollectionError String} (hr : r ≠ .panic)
    (hrun : createIndex env c keys options w = (r, w')) :
    Rested env c w w' ∨ ∃ name, Registers env c w keys options name ∧
      Built env c (newSpec name keys options) w w' := by
  have hstay : Rested env c w w := ⟨h.idle, fun _ => .inl, rfl⟩
  cases hcheck : checkNewIndex env keys (options.getD {}) with
  | error e =>
    rw [createIndex, hcheck] at hrun
    cases hrun
    exact .inl hstay
  | panic =>
    rw [createIndex, hcheck] at hrun
    cases hrun
    exact absurd rfl hr
  | ok name =>
    let w₁ : RedbWorld := { w with indexCache := some (w.specs env c) }
    have hlisted : Rested env c w w₁ :=
      ⟨h.idle, fun specs hspecs => .inr (Option.some.inj hspecs).symm, rfl⟩
    have hexists : createUnlessExists env c (w.specs env c) (newSpec name keys options) w₁ =
        (r, w') := by
      rw [createIndex, hcheck] at hrun
      exact (bind_of_ok (listIndexes_of_listed h.listed)).symm.trans hrun
    cases hfind : (w.specs env c).find? fun s => s.name = name with
    | some found =>
      have hsame : (if found.keys.eq keys then pure name
          else fail (.indexAlreadyExists name)) w₁ = (r, w') := by
        rw [← hexists, createUnlessExists, newSpec, hfind]
      have hw' : w₁ = w' := by
        split at hsame
        · exact congrArg Prod.snd hsame
        · exact congrArg Prod.snd hsame
      exact .inl (hw' ▸ hlisted)
    | none =>
      have hname : name ∉ (w.specs env c).map IndexSpec.name := by
        intro hmem
        obtain ⟨spec, hspec, rfl⟩ := mem_map.mp hmem
        exact find?_eq_none.mp hfind spec hspec (by simp)
      have hget : (w.committed c.metadataTable).get (utf8 name) = none := by
        by_contra hsome
        exact hname (h.catalogued.mem_names.mpr hsome)
      have hcreate : createMissingIndex env c (newSpec name keys options) w₁ = (r, w') := by
        rw [← hexists, createUnlessExists, newSpec, hfind]
      rcases createMissingIndex_cases hsep hr hcreate with hrested | hbuilt
      · refine .inl ⟨hrested.idle, fun specs hspecs => ?_, hrested.committed⟩
        rcases hrested.cache specs hspecs with hcache | hcache
        · exact .inr (Option.some.inj hcache).symm
        · exact .inr hcache
      · exact .inr ⟨name, ⟨hcheck, hget⟩, hbuilt.of_committed_eq rfl⟩

lemma Built.settled (hcodec : env.Codec) (hw : Settled env c w)
    (h : Built env c spec w w') : Settled env c w' := by
  obtain ⟨bytes, hbytes, hmetadata⟩ := h.metadata
  refine ⟨h.idle, ?_, fun specs hspecs => ?_, fun name hget => ?_⟩
  · rw [hmetadata]
    exact hw.catalogued.insert (hcodec.spec hbytes)
  · rw [h.cache] at hspecs
    cases hspecs
  · rw [hmetadata, get_insert] at hget
    split at hget
    · cases hget
    · next hne =>
      rw [h.others name fun heq => hne (congrArg utf8 heq)]
      exact hw.unlisted name hget

lemma Built.mem_specs (hcodec : env.Codec) (hw : Settled env c w) (h : Built env c spec w w')
    {spec' : IndexSpec} (hmem : spec' ∈ w'.specs env c) :
    spec' = spec ∨ spec' ∈ w.specs env c ∧ spec'.name ≠ spec.name := by
  obtain ⟨bytes, hbytes, hmetadata⟩ := h.metadata
  rw [specs, hmetadata] at hmem
  exact hw.catalogued.mem_specsIn_insert (hcodec.spec hbytes) hmem

end

/-! ### Dropping an index -/

/-- The table of an index and its metadata row are gone. -/
structure Dropped (c : Handle) (name : String) (w w' : RedbWorld) : Prop where
  idle : w'.session.inTransaction = false
  cache : w'.indexCache = none
  data : w'.committed c.tableName = w.committed c.tableName
  metadata : w'.committed c.metadataTable = (w.committed c.metadataTable).erase (utf8 name)
  index : ∀ n, w'.committed (c.indexTable n) =
    if n = name then .empty else w.committed (c.indexTable n)

section

variable {env : Env} {c : Handle} {w w' : RedbWorld}

section

variable (hw : w.session.inTransaction = false) (name : String)
include hw name

lemma committed_doWrite (op : PendingWrite) :
    committed { w with session := (doWrite name op w.session).2 } =
      Function.update w.committed name (op.apply (w.committed name)) := by
  funext name'
  simp only [committed, doWrite, modify_apply, hw, Bool.false_eq_true, if_false,
    table, transact, writeTable, Function.update_apply]
  split
  · rfl
  · rfl

lemma doWrite_idle (op : PendingWrite) :
    (doWrite name op w.session).2.inTransaction = false := by
  simp [doWrite, hw]

lemma removeIfFound_of_idle (key : Bytes) :
    ∃ w₁, removeIfFound name key w = (.ok (), w₁) ∧ w₁.session.inTransaction = false ∧
      w₁.committed = update w.committed name ((w.committed name).erase key) := by
  rw [removeIfFound_written]
  cases hget : (w.committed name).get key with
  | none =>
    refine ⟨w, rfl, hw, ?_⟩
    rw [erase_of_get_eq_none hget, update_eq_self]
  | some value => exact ⟨_, rfl, doWrite_idle hw name _, committed_doWrite hw name _⟩

end

lemma appendOplog_snd (env : Env) (cfg : CollectionOplogSettings) (op : String) (docId : Bson)
    (payload : Option Document) (opts : AppendOplogOpts) (w : RedbWorld) :
    ∃ w₀ : RedbWorld, w₀.session = w.session ∧ w₀.indexCache = w.indexCache ∧
      ((appendOplog env cfg op docId payload opts w).2 = w₀ ∨
        ∃ change hub, (appendOplog env cfg op docId payload opts w).2 = { w₀ with
            session := (doWrite cfg.oplogTable change w₀.session).2
            hub := hub }) := by
  refine ⟨{ w with ticks := w.ticks + 1 }, rfl, rfl, ?_⟩
  rw [appendOplog_apply]
  cases env.toWriter (oplogEntryToDocument
      (newOplogEntry env cfg w.ticks op docId payload opts)) with
  | error e => exact .inl rfl
  | ok buf => exact .inr ⟨_, _, rfl⟩

lemma appendOplogIfEnabled_of_idle (hw : w.session.inTransaction = false) (op : String)
    (docId : Bson) (payload : Option Document) (internal : Bool)
    (changedFields : Option (List String)) {r : Outcome CollectionError Unit}
    (hrun : appendOplogIfEnabled env c op docId payload internal changedFields w = (r, w')) :
    w'.session.inTransaction = false ∧ w'.indexCache = w.indexCache ∧
      ∀ table, (∀ cfg ∈ c.oplog, cfg.oplogTable ≠ table) →
        w'.committed table = w.committed table := by
  unfold appendOplogIfEnabled at hrun
  split at hrun
  · cases hrun
    exact ⟨hw, rfl, fun _ _ => rfl⟩
  · cases hoplog : c.oplog with
    | none =>
      rw [hoplog] at hrun
      cases hrun
      exact ⟨hw, rfl, fun _ _ => rfl⟩
    | some cfg =>
      rw [hoplog] at hrun
      obtain ⟨w₀, hsession, hcache, hend⟩ :=
        appendOplog_snd env cfg op docId payload { changedFields := changedFields } w
      have hw₀ : w₀.session.inTransaction = false := hsession ▸ hw
      have hdb : w₀.committed = w.committed := by
        funext name
        rw [committed, hsession, committed]
      have hrun' : (appendOplog env cfg op docId payload { changedFields := changedFields } w).2 =
          w' := (snd_bind_pure _ fun _ => ()).symm.trans (congrArg Prod.snd hrun)
      rw [hrun'] at hend
      rcases hend with rfl | ⟨change, hub, rfl⟩
      · exact ⟨hw₀, hcache, fun _ _ => congrFun hdb _⟩
      · refine ⟨doWrite_idle hw₀ _ _, hcache, fun table htable => ?_⟩
        refine (congrFun (committed_doWrite hw₀ cfg.oplogTable change) table).trans ?_
        rw [update_of_ne (htable cfg rfl).symm, hdb]

variable {name : String}

lemma dropIndexNamed_dropped (hsep : c.Separate) (hw : w.session.inTransaction = false)
    {r : Outcome CollectionError Unit}
    (hrun : dropIndexNamed env c name w = (r, w')) : Dropped c name w w' := by
  let w₁ : RedbWorld := { w with session := { w.session with
    db := w.session.db.transact (Function.update w.session.db.tables (c.indexTable name) none) } }
  have hdrop : (onSession (StorageSession.onSibling
      (StorageSession.dropTable (c.indexTable name)))) w = (.ok (), w₁) := rfl
  have hw₁ : w₁.committed = Function.update w.committed (c.indexTable name) .empty := by
    funext table
    simp only [w₁, committed, Redb.table, Redb.transact, Function.update_apply]
    split
    · rfl
    · rfl
  obtain ⟨w₂, hremove, hidle₂, hw₂⟩ := removeIfFound_of_idle (w := w₁) hw c.metadataTable
    (utf8 name)
  have hcache : (invalidateIndexCache : RedbOp Unit) w₂ = (.ok (), w₂.uncached) := rfl
  rw [dropIndexNamed, bind_of_ok hdrop, bind_of_ok hremove, bind_of_ok hcache] at hrun
  obtain ⟨hidle, hnone, hsame⟩ := appendOplogIfEnabled_of_idle (w := w₂.uncached) hidle₂ _ _ _ _ _
    hrun
  have hcommitted : ∀ table, (∀ cfg ∈ c.oplog, cfg.oplogTable ≠ table) → w'.committed table =
      Function.update w₁.committed c.metadataTable
        ((w₁.committed c.metadataTable).erase (utf8 name)) table := fun table htable =>
    (hsame table htable).trans (congrFun hw₂ table)
  refine ⟨hidle, hnone, ?_, ?_, fun n => ?_⟩
  · rw [hcommitted _ hsep.oplog_data, Function.update_of_ne hsep.data_metadata, hw₁,
      Function.update_of_ne fun h => hsep.data_index name (.inl h)]
  · rw [hcommitted _ hsep.oplog_metadata, Function.update_self, hw₁,
      Function.update_of_ne (c.indexTable_ne_metadataTable name).symm]
  · rw [hcommitted _ fun cfg hcfg h => hsep.oplog_index cfg hcfg n (.inl h),
      Function.update_of_ne (c.indexTable_ne_metadataTable n), hw₁, Function.update_apply]
    by_cases hn : n = name
    · rw [if_pos hn, if_pos (congrArg c.indexTable hn)]
    · rw [if_neg hn, if_neg fun h => hn (c.indexTable_injective h)]

lemma Dropped.settled (hw : Settled env c w) (h : Dropped c name w w') : Settled env c w' := by
  refine ⟨h.idle, ?_, fun specs hspecs => ?_, fun n hget => ?_⟩
  · rw [h.metadata]
    exact hw.catalogued.erase _
  · rw [h.cache] at hspecs
    cases hspecs
  · rw [h.index]
    split
    · rfl
    · next hne =>
      rw [h.metadata, get_erase, if_neg fun heq => hne (utf8_injective heq)] at hget
      exact hw.unlisted n hget

lemma Dropped.mem_specs (hw : Settled env c w) (h : Dropped c name w w')
    {spec : IndexSpec} (hmem : spec ∈ w'.specs env c) :
    spec ∈ w.specs env c ∧ spec.name ≠ name := by
  rw [specs, h.metadata] at hmem
  exact hw.catalogued.mem_specsIn_erase hmem

def DropStep (env : Env) (c : Handle) (w w' : RedbWorld) : Prop :=
  Rested env c w w' ∨ ∃ name, Dropped c name w w'

lemma settled_of_dropSteps (h : Relation.ReflTransGen (DropStep env c) w w')
    (hw : Settled env c w) : Settled env c w' := by
  induction h with
  | refl => exact hw
  | tail _ hstep ih =>
    rcases hstep with hrested | ⟨name, hdropped⟩
    · exact hrested.settled ih
    · exact hdropped.settled ih

def dropping (env : Env) (c : Handle) : Frame RedbWorld where
  rel w w' := Settled env c w → Relation.ReflTransGen (DropStep env c) w w'
  refl _ _ := .refl
  trans h h' hw := (h hw).trans (h' (settled_of_dropSteps (h hw) hw))

lemma dropIndex_moves (hsep : c.Separate) (fuel : ℕ) (name : String) :
    Moves (dropping env c) (dropIndex env c fuel name) := by
  induction fuel generalizing name with
  | zero => exact .ofOutcome _
  | succ fuel ih =>
    unfold dropIndex
    split
    · refine Moves.bind (fun w => ⟨fun hw => .single (.inl ?_), fun _ _ => trivial⟩)
        fun specs _ => .forM specs fun spec _ => .ite (.pure trivial) (ih spec.name)
      rw [listIndexes_of_listed hw.listed]
      exact ⟨hw.idle, fun specs hspecs => .inr (Option.some.inj hspecs).symm, rfl⟩
    · exact fun w => ⟨fun hw => .single (.inr ⟨name, dropIndexNamed_dropped hsep hw.idle rfl⟩),
        fun _ _ => trivial⟩

end

inductive Call.Does (env : Env) (c : Handle) (w : RedbWorld) : Call → RedbWorld → Prop
  | rested {call : Call} {w' : RedbWorld} : Rested env c w w' → Does env c w call w'
  | wrote {st : Statement} {reply : Reply} {t : RedbWorld} :
      st.exec env c w.begin = (.ok reply, t) → Does env c w (.statement st) t.uncached.commit
  | built {keys : Document} {options : Option IndexOptions} {name : String}
      {w' : RedbWorld} : Registers env c w keys options name →
      Built env c (newSpec name keys options) w w' → Does env c w (.createIndex keys options) w'
  | dropped {name : String} {w' : RedbWorld} :
      Relation.ReflTransGen (DropStep env c) w w' → Does env c w (.dropIndex name) w'

section

variable {env : Env} {c : Handle} {w w' : RedbWorld} {call : Call}

lemma Call.does_step (hsep : c.Separate) (h : Settled env c w)
    (hreturns : (call.exec env c w).1 ≠ .panic) : call.Does env c w (call.step env c w) := by
  cases call with
  | statement st =>
    rcases hrun : st.exec env c w with ⟨reply | e | _, w'⟩
    · obtain ⟨t, hexec, rfl⟩ := exec_ok_of_idle h.idle hrun
      have hstep : (Call.statement st).step env c w = t.uncached.commit := congrArg Prod.snd hrun
      exact hstep ▸ .wrote hexec
    · have hstep : (Call.statement st).step env c w = w' := congrArg Prod.snd hrun
      exact hstep ▸ .rested (exec_error_of_idle h.idle hrun)
    · exact absurd (congrArg Prod.fst hrun) hreturns
  | createIndex keys options =>
    rcases hrun : Smongo.createIndex env c keys options w with ⟨r, w'⟩
    have hr : r ≠ .panic := by
      rintro rfl
      refine hreturns ?_
      rw [exec, bind_apply, hrun]
    have hstep : (Call.createIndex keys options).step env c w = w' := by
      rw [step, exec, bind_apply, hrun]
      cases r <;> rfl
    rw [hstep]
    rcases createIndex_cases hsep h hr hrun with hrested | ⟨name, hname, hbuilt⟩
    · exact .rested hrested
    · exact .built hname hbuilt
  | dropIndex name =>
    refine .dropped ?_
    have hmoves := ((dropIndex_moves hsep 2 name).bind fun _ _ =>
      (Moves.pure trivial : Moves (dropping env c) (pure Reply.dropIndex))) w
    exact hmoves.1 h

lemma Call.Does.settled (hcodec : env.Codec) (hsep : c.Separate) (hw : Settled env c w)
    (h : call.Does env c w w') : Settled env c w' := by
  cases h with
  | rested hrested => exact hrested.settled hw
  | wrote hexec => exact settled_of_exec_ok hsep hw hexec
  | built hname hbuilt => exact hbuilt.settled hcodec hw
  | dropped hsteps => exact settled_of_dropSteps hsteps hw

end

end Smongo
