import Smongo.Collection.Consistency

/-!
# Collections between calls

Between calls the metadata table lists each index, and the cache agrees with it.
-/

namespace Smongo

open Eff List OrderedTable RedbCursor RedbSession Bytes IndexSpec Statement

def Catalogued (env : Env) (t : Table) : Prop :=
  ∀ key bytes, t.get key = some bytes →
    ∃ spec, env.specFromSlice bytes = .ok spec ∧ key = utf8 spec.name

def specsOfRows (env : Env) (rows : Rows) : List IndexSpec :=
  rows.filterMap fun row => (env.specFromSlice row.2).toOption

def specsIn (env : Env) (t : Table) : List IndexSpec := specsOfRows env t.rows

section

variable {env : Env} {t : Table} {rows : Rows} {spec : IndexSpec}

lemma specsOfRows_cons {row : Row} (h : env.specFromSlice row.2 = .ok spec) :
    specsOfRows env (row :: rows) = spec :: specsOfRows env rows := by
  rw [specsOfRows, filterMap_cons, h]
  rfl

lemma foldlM_readSpec (hrows : ∀ row ∈ rows, ∃ spec, env.specFromSlice row.2 = .ok spec)
    (specs : List IndexSpec) :
    rows.foldlM (readSpec env) specs = .ok (specs ++ specsOfRows env rows) := by
  induction rows generalizing specs with
  | nil =>
    rw [specsOfRows, filterMap_nil, append_nil]
    rfl
  | cons row rows ih =>
    obtain ⟨spec, hspec⟩ := hrows row mem_cons_self
    have hread : readSpec env specs row = .ok (specs ++ [spec]) := by rw [readSpec, hspec]
    rw [foldlM_cons, hread, specsOfRows_cons hspec]
    refine (ih (fun r hr => hrows r (mem_cons_of_mem _ hr)) (specs ++ [spec])).trans ?_
    rw [append_assoc, singleton_append]

lemma names_specsOfRows (hrows : ∀ row ∈ rows, ∃ spec, env.specFromSlice row.2 = .ok spec ∧
      row.1 = utf8 spec.name) :
    (specsOfRows env rows).map (fun spec => utf8 spec.name) = rows.map Prod.fst := by
  induction rows with
  | nil => rfl
  | cons row rows ih =>
    obtain ⟨spec, hspec, hname⟩ := hrows row mem_cons_self
    rw [specsOfRows_cons hspec, map_cons, map_cons, ← hname,
      ih fun r hr => hrows r (mem_cons_of_mem _ hr)]

lemma mem_specsIn : spec ∈ specsIn env t ↔
    ∃ key bytes, t.get key = some bytes ∧ env.specFromSlice bytes = .ok spec := by
  rw [specsIn, specsOfRows, mem_filterMap]
  constructor
  · rintro ⟨⟨key, bytes⟩, hmem, hread⟩
    refine ⟨key, bytes, get_eq_some_iff.mpr hmem, ?_⟩
    cases hspec : env.specFromSlice bytes <;> simp_all [Except.toOption]
  · rintro ⟨key, bytes, hget, hspec⟩
    exact ⟨(key, bytes), get_eq_some_iff.mp hget, by simp [hspec, Except.toOption]⟩

namespace Catalogued

section

variable (h : Catalogued env t)
include h

lemma mem_rows {row : Row} (hrow : row ∈ t.rows) :
    ∃ spec, env.specFromSlice row.2 = .ok spec ∧ row.1 = utf8 spec.name :=
  h row.1 row.2 (get_eq_some_iff.mpr hrow)

lemma readSpecs_eq : readSpecs env t.rows = .ok (specsIn env t) :=
  foldlM_readSpec (fun _ hrow => (h.mem_rows hrow).imp fun _ => And.left) []

lemma nodup_names : ((specsIn env t).map name).Nodup := by
  have hnames := names_specsOfRows fun _ hrow => h.mem_rows hrow
  have hkeys : (t.rows.map Prod.fst).Nodup := pairwise_map.mpr (ne_of_sorted t.sorted)
  rw [← hnames] at hkeys
  refine List.Nodup.of_map utf8 ?_
  rwa [map_map]

lemma mem_names {name : String} :
    name ∈ (specsIn env t).map IndexSpec.name ↔ t.get (utf8 name) ≠ none := by
  rw [mem_map, Option.ne_none_iff_exists']
  constructor
  · rintro ⟨spec, hmem, rfl⟩
    obtain ⟨key, bytes, hget, hspec⟩ := mem_specsIn.mp hmem
    obtain ⟨spec', hspec', hkey⟩ := h key bytes hget
    rw [hspec] at hspec'
    cases hspec'
    exact ⟨bytes, hkey ▸ hget⟩
  · rintro ⟨bytes, hget⟩
    obtain ⟨spec, hspec, hkey⟩ := h _ bytes hget
    exact ⟨spec, mem_specsIn.mpr ⟨_, bytes, hget, hspec⟩, (utf8_injective hkey).symm⟩

lemma insert {bytes : Bytes} (hspec : env.specFromSlice bytes = .ok spec) :
    Catalogued env (t.insert (utf8 spec.name) bytes) := by
  intro key bytes' hget
  rw [get_insert] at hget
  split at hget
  · next hkey =>
    cases hget
    exact ⟨spec, hspec, hkey⟩
  · exact h key bytes' hget

lemma erase (key : Bytes) : Catalogued env (t.erase key) := by
  intro key' bytes hget
  rw [get_erase] at hget
  split at hget
  · cases hget
  · exact h key' bytes hget

lemma mem_specsIn_insert {bytes : Bytes} (hspec : env.specFromSlice bytes = .ok spec)
    {spec' : IndexSpec} (hmem : spec' ∈ specsIn env (t.insert (utf8 spec.name) bytes)) :
    spec' = spec ∨ spec' ∈ specsIn env t ∧ spec'.name ≠ spec.name := by
  obtain ⟨key, bytes', hget, hspec'⟩ := mem_specsIn.mp hmem
  rw [get_insert] at hget
  split at hget
  · cases hget
    rw [hspec] at hspec'
    cases hspec'
    exact .inl rfl
  · next hkey =>
    obtain ⟨spec'', hspec'', hkey'⟩ := h key bytes' hget
    rw [hspec'] at hspec''
    cases hspec''
    refine .inr ⟨mem_specsIn.mpr ⟨key, bytes', hget, hspec'⟩, fun hname => hkey ?_⟩
    rw [hkey', hname]

lemma mem_specsIn_erase {name : String} (hmem : spec ∈ specsIn env (t.erase (utf8 name))) :
    spec ∈ specsIn env t ∧ spec.name ≠ name := by
  obtain ⟨key, bytes, hget, hspec⟩ := mem_specsIn.mp hmem
  rw [get_erase] at hget
  split at hget
  · cases hget
  · next hkey =>
    obtain ⟨spec', hspec', hkey'⟩ := h key bytes hget
    rw [hspec] at hspec'
    cases hspec'
    refine ⟨mem_specsIn.mpr ⟨key, bytes, hget, hspec⟩, fun hname => hkey ?_⟩
    rw [hkey', hname]

end

end Catalogued

end

def World.specs (env : Env) (c : Handle) (w : RedbWorld) : List IndexSpec :=
  specsIn env (w.committed c.metadataTable)

structure Settled (env : Env) (c : Handle) (w : RedbWorld) : Prop where
  idle : w.session.inTransaction = false
  catalogued : Catalogued env (w.committed c.metadataTable)
  cache : ∀ specs, w.indexCache = some specs → specs = w.specs env c
  unlisted : ∀ name, (w.committed c.metadataTable).get (utf8 name) = none →
    w.committed (c.indexTable name) = .empty

section

variable {env : Env} {c : Handle} {w w' t : RedbWorld}

lemma view_of_idle (hw : w.session.inTransaction = false) : w.view = w.committed := by
  funext name
  rw [World.view, view, hw]
  rfl

lemma shown_begin (w : RedbWorld) (name : String) :
    shown w.begin.session name = (w.committed name).rows := by
  have hdb : w.begin.session.db.tables name = w.session.db.tables name := rfl
  have hview : w.begin.session.view name = w.committed name := rfl
  rw [shown, hdb, hview]
  unfold World.committed Redb.table
  cases w.session.db.tables name <;> rfl

lemma shown_of_idle (hw : w.session.inTransaction = false) (name : String) :
    shown w.session name = (w.committed name).rows := by
  have hview : w.session.view name = w.begin.session.view name := congrFun (view_of_idle hw) name
  rw [← shown_begin, shown, hview]
  rfl

lemma Settled.of_committed (hw : Settled env c w) (hidle : w'.session.inTransaction = false)
    (hcache : w'.indexCache = none) (hcommitted : w'.committed = w.committed) :
    Settled env c w' := by
  refine ⟨hidle, ?_, fun specs hspecs => ?_, ?_⟩
  · rw [hcommitted]
    exact hw.catalogued
  · rw [hcache] at hspecs
    cases hspecs
  · rw [hcommitted]
    exact hw.unlisted

section

variable (h : Settled env c w)
include h

lemma Settled.listed : listed env c w = .ok (w.specs env c) := by
  unfold Smongo.listed
  split
  · next specs hcache => rw [h.cache specs hcache]
  · rw [shown_of_idle h.idle, h.catalogued.readSpecs_eq, World.specs]

lemma Settled.listed_begin :
    Smongo.listed env c w.begin = .ok (w.specs env c) := by
  unfold Smongo.listed
  split
  · next specs hcache => rw [h.cache specs hcache]
  · rw [shown_begin, h.catalogued.readSpecs_eq, World.specs]

lemma Settled.nodup_names :
    ((w.specs env c).map name).Nodup := h.catalogued.nodup_names

lemma Settled.not_mem_names {name : String}
    (hget : (w.committed c.metadataTable).get (utf8 name) = none) :
    name ∉ (w.specs env c).map IndexSpec.name := fun hmem =>
  h.catalogued.mem_names.mp hmem hget

end

/-- No table changed; the index list may have been cached or dropped from the cache. -/
structure Rested (env : Env) (c : Handle) (w w' : RedbWorld) : Prop where
  idle : w'.session.inTransaction = false
  cache : ∀ specs, w'.indexCache = some specs → w.indexCache = some specs ∨ specs = w.specs env c
  committed : w'.committed = w.committed

lemma Rested.settled (h : Rested env c w w') (hw : Settled env c w) : Settled env c w' where
  idle := h.idle
  catalogued := h.committed.symm ▸ hw.catalogued
  cache specs hspecs := by
    rw [World.specs, h.committed]
    rcases h.cache specs hspecs with hcache | hspecs
    · exact hw.cache specs hcache
    · exact hspecs
  unlisted := h.committed.symm ▸ hw.unlisted

/-- What does not depend on whether a transaction is open. -/
def Detached {α : Type} (m : RedbOp α) : Prop := ∀ w, m w.begin = ((m w).1, (m w).2.begin)

lemma Detached.bind {α β : Type} {m : RedbOp α} {f : α → RedbOp β}
    (hm : Detached m) (hf : ∀ a, Detached (f a)) : Detached (m >>= f) := by
  intro w
  rw [bind_apply, bind_apply, hm w]
  rcases m w with ⟨a | e | _, w₁⟩
  · exact hf a w₁
  · rfl
  · rfl

lemma detached_prepareDocuments (documents : List Document) :
    Detached (prepareDocuments env c documents) := by
  induction documents with
  | nil => exact fun _ => rfl
  | cons doc rest ih =>
    refine Detached.bind ?_ fun r => Detached.bind ?_ fun _ => ih.bind fun _ _ => rfl
    · unfold ensureId
      split
      · exact fun _ => rfl
      · exact fun _ => rfl
    · unfold validateDoc
      split
      · exact fun _ => rfl
      · split
        · exact fun _ => rfl
        · exact fun _ => rfl

lemma Statement.detached_prepare (st : Statement) : Detached (st.prepare env c) := by
  cases st with
  | insertMany documents internal => exact (detached_prepareDocuments documents).bind fun _ _ => rfl
  | insertOne document internal | updateOne filter update options
  | updateMany filter update options | deleteOne filter internal | deleteMany filter internal =>
    exact fun _ => rfl

section

variable {st : Statement} (hw : w.session.inTransaction = false)
include hw

lemma exec_ok_of_idle {reply : Reply} (hrun : st.exec env c w = (.ok reply, w')) :
    ∃ t, st.exec env c w.begin = (.ok reply, t) ∧ w' = t.uncached.commit := by
  rw [exec_eq] at hrun ⊢
  obtain ⟨body, w₁, hprepare, hbatch⟩ := bind_eq_ok.mp hrun
  have hsession := (st.moves_prepare (admits_writing env c fun _ => True) (fun _ _ _ => trivial)
    trivial (fun _ _ => trivial) w).1.1
  rw [hprepare] at hsession
  have hbegin : st.prepare env c w.begin = (.ok body, w₁.begin) := by
    rw [st.detached_prepare, hprepare]
  rw [bind_of_ok hbegin, withBatchedWrite_of_inTransaction body rfl]
  rw [withBatchedWrite_of_not_inTransaction body (hsession ▸ hw)] at hbatch
  rcases hend : body w₁.begin with ⟨a | e | _, t⟩ <;> rw [hend] at hbatch <;> cases hbatch
  exact ⟨t, rfl, rfl⟩

lemma exec_error_of_idle {e : CollectionError} (hrun : st.exec env c w = (.error e, w')) :
    Rested env c w w' := by
  obtain ⟨⟨hsession, hcache⟩, hbody⟩ := st.moves_prepare (admits_writing env c fun _ => True)
    (fun _ _ _ => trivial) trivial (fun _ _ => trivial) w
  rw [exec_eq, bind_apply] at hrun
  rcases hprepare : st.prepare env c w with ⟨body | e' | _, w₁⟩ <;>
    rw [hprepare] at hsession hcache hbody hrun
  · have hbatch : withBatchedWrite body w₁ = (.error e, w') := hrun
    rw [withBatchedWrite_of_not_inTransaction body (hsession ▸ hw)] at hbatch
    have hwriting := (hbody body rfl w₁.begin).1
    rcases hend : body w₁.begin with ⟨a | e' | _, t⟩ <;> rw [hend] at hbatch hwriting <;>
      cases hbatch
    have hdb₁ : w₁.session.db = w.session.db := congrArg db hsession
    have hdb : t.session.db = w.session.db := (writing_db hwriting rfl).trans hdb₁
    exact ⟨rfl, nofun, funext fun name => congrArg (Redb.table · name) hdb⟩
  · cases hrun
    have hdb : w'.session.db = w.session.db := congrArg db hsession
    exact ⟨hsession ▸ hw, fun specs h => .inl (hcache ▸ h), funext fun name =>
      congrArg (Redb.table · name) hdb⟩
  · cases hrun

end

section

variable (hsep : c.Separate) (h : Settled env c w) {st : Statement} {reply : Reply}
  (hexec : st.exec env c w.begin = (.ok reply, t))
include hsep h hexec

lemma committed_of_exec_ok : t.uncached.commit.committed = t.view := by
  obtain ⟨xs, -, hwrote⟩ := exec_performs hsep h.nodup_names rfl h.listed_begin hexec
  exact committed_commit (w := t.uncached) hwrote.inTransaction

omit h in
lemma metadata_of_exec_ok : t.view c.metadataTable = w.committed c.metadataTable := by
  have hwriting := writing_statement env (P := fun table => table ≠ c.metadataTable)
    (fun name table htable heq => c.not_ofIndex_metadataTable name (heq ▸ htable))
    hsep.data_metadata hsep.oplog_metadata st w.begin
  rw [hexec] at hwriting
  exact writing_view hwriting rfl fun hne => hne rfl

lemma settled_of_exec_ok : Settled env c t.uncached.commit := by
  have hcommitted := committed_of_exec_ok hsep h hexec
  have hmetadata := metadata_of_exec_ok hsep hexec
  obtain ⟨xs, -, hwrote⟩ := exec_performs hsep h.nodup_names rfl h.listed_begin hexec
  refine ⟨rfl, ?_, nofun, fun name hname => ?_⟩
  · rw [hcommitted, hmetadata]
    exact h.catalogued
  · rw [hcommitted, hmetadata] at hname
    rw [hcommitted, hwrote.others (not_maintains_of_notMem (h.not_mem_names hname))]
    exact h.unlisted name hname

lemma specs_of_exec_ok : t.uncached.commit.specs env c = w.specs env c := by
  rw [World.specs, committed_of_exec_ok hsep h hexec, metadata_of_exec_ok hsep hexec, World.specs]

end

end

end Smongo
