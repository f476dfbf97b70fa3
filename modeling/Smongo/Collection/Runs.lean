import Smongo.Collection.Find
import Smongo.Collection.IndexCalls

/-!
# Runs of a collection

A run is a sequence of calls on one handle outside transactions, each returning a result or an
error.
-/

namespace Smongo

open Eff List OrderedTable Bytes Statement

/-- A collection as `Collection::new` makes it, when none of its tables has rows. -/
structure World.New (c : Handle) (w : RedbWorld) : Prop where
  idle : w.session.inTransaction = false
  cache : w.indexCache = none
  data : w.committed c.tableName = .empty
  metadata : w.committed c.metadataTable = .empty
  index : ∀ name, w.committed (c.indexTable name) = .empty

def Call.Returns (env : Env) (c : Handle) (w : RedbWorld) (call : Call) : Prop :=
  (call.exec env c w).1 ≠ .panic

instance {env : Env} {c : Handle} {w : RedbWorld} {call : Call} :
    Decidable (call.Returns env c w) := inferInstanceAs (Decidable (_ ≠ _))

lemma Sample.start_new : start.New handle where
  idle := rfl
  cache := rfl
  data := rfl
  metadata := rfl
  index name := by
    change (if handle.indexTable name = "t" then some .empty else none : Option Table).getD .empty =
      .empty
    split <;> rfl

section

variable {env : Env} {c : Handle} {w w' : RedbWorld} {call : Call}

lemma World.New.settled (h : w.New c) : Settled env c w where
  idle := h.idle
  catalogued key bytes hget := by
    rw [h.metadata] at hget
    cases hget
  cache specs hspecs := by
    rw [h.cache] at hspecs
    cases hspecs
  unlisted name _ := h.index name

lemma World.New.keyed (h : w.New c) : Keyed env (w.committed c.tableName) := by
  intro key bytes hget
  rw [h.data] at hget
  cases hget

lemma data_of_dropSteps (h : Relation.ReflTransGen (DropStep env c) w w') :
    w'.committed c.tableName = w.committed c.tableName := by
  induction h with
  | refl => rfl
  | tail _ hstep ih =>
    rcases hstep with hrested | ⟨name, hdropped⟩
    · rw [hrested.committed, ih]
    · rw [hdropped.data, ih]

def Call.SparesId : Call → Prop
  | statement st => st.SparesId
  | _ => True

def Call.KeepsIds (env : Env) (c : Handle) (w : RedbWorld) : Call → Prop
  | statement st => st.KeepsIds env c w.begin
  | _ => True

lemma Call.SparesId.keepsIds (h : call.SparesId) : call.KeepsIds env c w := by
  cases call with
  | statement st => exact keepsIds_of_sparesId h
  | createIndex keys options | dropIndex name => trivial

lemma Call.Does.keyed (hcodec : env.Codec) (hsep : c.Separate) (hw : Settled env c w)
    (hkeyed : Keyed env (w.committed c.tableName)) (hkeeps : call.KeepsIds env c w)
    (h : call.Does env c w w') : Keyed env (w'.committed c.tableName) := by
  cases h with
  | rested hrested => exact hrested.committed.symm ▸ hkeyed
  | wrote hexec =>
    rw [committed_of_exec_ok hsep hw hexec]
    exact exec_keyed hcodec hsep hw.nodup_names rfl hw.listed_begin hexec hkeyed hkeeps
  | built _ hbuilt => exact hbuilt.data.symm ▸ hkeyed
  | dropped hsteps => exact (data_of_dropSteps hsteps).symm ▸ hkeyed

lemma fetchDocByIdStr_of_docAt {idStr : String} {doc : Document}
    (h : docAt env (w.committed c.tableName) (utf8 idStr) = some doc) :
    fetchDocByIdStr env c idStr w = (.ok (some doc), w) := by
  obtain ⟨bytes, hget, hread⟩ := docAt_eq_some_iff.mp h
  let cursor : RedbCursor := { tableName := c.tableName, pendingKey := some (utf8 idStr) }
  have hsearch := RedbCursor.search_of_get_eq_some (c := cursor) rfl hget
  rw [fetchDocByIdStr, bind_of_ok (openTable_apply c.tableName w)]
  refine (bind_of_ok (move_search cursor w)).trans ?_
  rw [hsearch]
  change (ofOutcome (deserializeDocument env bytes) >>= fun doc => pure (some doc)) w = _
  rw [deserializeDocument, hread]
  rfl

/-- Each row has the id string of its document as key, and each document is fetched by its id. -/
def FetchedById (env : Env) (c : Handle) (w : RedbWorld) : Prop :=
  ∀ key bytes, (w.committed c.tableName).get key = some bytes →
    ∃ doc idStr, env.fromReader bytes = .ok doc ∧ extractIdString env doc = .ok idStr ∧
      key = utf8 idStr ∧ fetchDocByIdStr env c idStr w = (.ok (some doc), w)

/-- Row keys are ids after every run in which no update changes the id string of a document. -/
theorem row_keys_are_ids (hcodec : env.Codec) (hsep : c.Separate) {calls : List Call}
    (hnew : w.New c) (hrun : Along (Call.step env c)
      (fun w call => call.Returns env c w ∧ call.KeepsIds env c w) w calls) :
    FetchedById env c (calls.foldl (Call.step env c) w) := by
  intro key bytes hget
  set w' := calls.foldl (Call.step env c) w
  have hinv : Settled env c w' ∧ Keyed env (w'.committed c.tableName) := by
    refine hrun.invariant (I := fun w => Settled env c w ∧ Keyed env (w.committed c.tableName))
      ?_ ⟨hnew.settled, hnew.keyed⟩
    rintro w call ⟨hsettled, hkeyed⟩ ⟨hreturns, hkeeps⟩
    have hdoes := Call.does_step hsep hsettled hreturns
    exact ⟨hdoes.settled hcodec hsep hsettled, hdoes.keyed hcodec hsep hsettled hkeyed hkeeps⟩
  obtain ⟨doc, idStr, hread, hid, rfl⟩ := hinv.2 key bytes hget
  refine ⟨doc, idStr, hread, hid, rfl, fetchDocByIdStr_of_docAt ?_⟩
  exact docAt_eq_some_iff.mpr ⟨bytes, hget, hread⟩

end

section

open Sample

theorem row_keys_are_ids_update : let w := run [.statement (insert (.int32 1) (.string "x")),
      .statement (set (.int32 1) "a" (.string "y"))]
    docAt env (w.committed "t") (utf8 "1") = some (doc (.int32 1) (.string "y")) ∧
      FetchedById env handle w := by
  refine ⟨rfl, row_keys_are_ids codec separate start_new ?_⟩
  exact ⟨⟨by decide +kernel, keepsIds_of_sparesId trivial⟩,
    ⟨by decide +kernel, keepsIds_of_sparesId (untouched_set (by decide) _)⟩, trivial⟩

/-- An update that sets `_id` stores the document under its old id, and it is not found by the
new one. -/
theorem update_of_id_moves_no_row : let w := run [.statement (insert (.int32 1) (.string "x")),
      .statement (set (.int32 1) "_id" (.int32 2))]
    docAt env (w.committed "t") (utf8 "1") = some (doc (.int32 2) (.string "x")) ∧
      (fetchDocByIdStr env handle "2" w).1 = .ok none ∧ ¬ FetchedById env handle w := by
  refine ⟨rfl, rfl, fun h => ?_⟩
  have hkeyed : Keyed env ((run [.statement (insert (.int32 1) (.string "x")),
      .statement (set (.int32 1) "_id" (.int32 2))]).committed "t") := by
    intro key bytes hget
    obtain ⟨doc, idStr, hread, hid, hkey, -⟩ := h key bytes hget
    exact ⟨doc, idStr, hread, hid, hkey⟩
  exact absurd hkeyed (by decide +kernel)

end

/-! ### Index rows -/

section

variable {env : Env} {c : Handle} {w w' : RedbWorld} {call : Call}

def IndexSpec.Plain (spec : IndexSpec) : Prop :=
  spec.options.partialFilterExpression = none ∧ spec.options.collation = none ∧ spec.IsBTree

instance : DecidablePred IndexSpec.Plain := fun _ => inferInstanceAs (Decidable (_ ∧ _))

variable {spec : IndexSpec} {st : Statement}

lemma IndexSpec.Plain.covers (h : spec.Plain) (doc : Document) : spec.covers env doc = true := by
  rw [IndexSpec.covers, partialAdmits, h.1]

lemma IndexSpec.Plain.row (h : spec.Plain) (doc : Document) (key : Bytes) :
    spec.row env doc key = extractIndexKey doc spec.keys ++ key := by
  rw [IndexSpec.row, specIndexKey_of_collation h.2.1]

def World.plain (env : Env) (c : Handle) (w : RedbWorld) : List IndexSpec :=
  (w.specs env c).filter (·.Plain)

lemma mem_plain : spec ∈ w.plain env c ↔ spec ∈ w.specs env c ∧ spec.Plain := by
  rw [World.plain, mem_filter, decide_eq_true_iff]

/-- No update that keeps the key in an index takes the document into or out of its partial filter.
-/
def Statement.KeepsCovers (env : Env) (c : Handle) (specs : List IndexSpec)
    (w : RedbWorld) (st : Statement) : Prop :=
  ∀ t ∈ st.targets env c w, ∀ new, st.Touches env t (.replace t.1 t.2 new) → ∀ spec ∈ specs,
    spec.IsBTree → specIndexKey env t.2 spec = specIndexKey env new spec →
    spec.covers env t.2 = spec.covers env new

lemma clean_of_tidy {kept : List IndexSpec} (hs : Sound env c kept w.committed)
    (htidy : st.Tidy env c kept w.begin) (hcovers : st.KeepsCovers env c kept w.begin) :
    st.Clean env c kept w.begin := by
  refine ⟨htidy, fun t ht x hx spec hmem htree => ?_⟩
  have hrow : spec.covers env t.2 →
      ((w.committed (c.indexTable spec.name)).get (spec.row env t.2 t.1)).isSome := by
    intro hcovered
    have hget := (hs.derived spec hmem htree (spec.row env t.2 t.1) t.1).mpr
      ⟨t.2, docAt_of_mem_targets ht, hcovered, rfl⟩
    rw [hget]
    rfl
  rcases hx.cases with ⟨new, rfl⟩ | rfl
  · change (if specIndexKey env t.2 spec = specIndexKey env new spec then _ else _)
    split
    · next hkey => exact hcovers t ht new hx spec hmem htree hkey
    · exact hrow
  · exact hrow

lemma keepsCovers_plain {t : RedbWorld} : st.KeepsCovers env c (w.plain env c) t := by
  intro _ _ _ _ spec hmem _ _
  have hplain := (mem_plain.mp hmem).2
  rw [hplain.covers, hplain.covers]

/-- Calls that keep plain indexes derived. -/
def Call.Tidy (env : Env) (c : Handle) (w : RedbWorld) : Call → Prop
  | statement st => st.Tidy env c (w.plain env c) w.begin
  | createIndex keys options => ∀ name, Registers env c w keys options name →
      (newSpec name keys options).Plain → (w.committed c.tableName).rows = [] ∨
        is2dsphereKeys keys = false ∧ Apart env [newSpec name keys options] fun k d =>
          docAt env (w.committed c.tableName) k = some d
  | dropIndex _ => True

lemma sound_of_dropSteps (p : IndexSpec → Bool)
    (hsteps : Relation.ReflTransGen (DropStep env c) w w') (hw : Settled env c w)
    (hs : Sound env c ((w.specs env c).filter p) w.committed) :
    Sound env c ((w'.specs env c).filter p) w'.committed := by
  induction hsteps with
  | refl => exact hs
  | tail hsteps hstep ih =>
    rcases hstep with hrested | ⟨name, hdropped⟩
    · rw [World.specs, hrested.committed]
      exact ih
    · have hsettled := settled_of_dropSteps hsteps hw
      refine ⟨hdropped.data.symm ▸ ih.keyed, fun spec hmem htree => ?_⟩
      obtain ⟨hspec, hp⟩ := mem_filter.mp hmem
      obtain ⟨hspec, hname⟩ := hdropped.mem_specs hsettled hspec
      rw [hdropped.data, hdropped.index, if_neg hname]
      exact ih.derived spec (mem_filter.mpr ⟨hspec, hp⟩) htree

/-- Where `create_index` builds a B-tree index as later writes maintain it. -/
def Buildable (env : Env) (c : Handle) (w : RedbWorld) (spec : IndexSpec) : Prop :=
  (w.committed c.tableName).rows = [] ∨ is2dsphereKeys spec.keys = false ∧
    spec.options.collation = none ∧
    Apart env [spec] fun k d => docAt env (w.committed c.tableName) k = some d

lemma Built.derived (h : Built env c spec w w') (hkeyed : Keyed env (w.committed c.tableName))
    (hname : w.committed (c.indexTable spec.name) = .empty) (htree : spec.IsBTree)
    (hrows : Buildable env c w spec) :
    Derived (spec.covers env) (spec.row env) (docAt env (w'.committed c.tableName))
      (w'.committed (c.indexTable spec.name)).get := by
  rw [h.data]
  rcases hrows with hrows | ⟨hkeys, hcollation, hapart⟩
  · rw [h.index_of_empty hrows, hname, ← docsIn_rows, hrows]
    exact Derived.empty
  · rw [h.rebuilt hkeys, IndexSpec.uncollated_of_none hcollation, hname, ← docsIn_rows]
    refine derived_rebuilt (ne_of_sorted (sorted _)) (fun row hrow => ?_)
      (hapart spec (mem_singleton_self spec) htree)
    have hget := get_eq_some_iff.mpr hrow
    obtain ⟨doc, idStr, hread, hid, hkey⟩ := hkeyed row.1 row.2 hget
    exact ⟨doc, hread, hkey.trans (idKey_of_extractIdString hid).symm,
      docAt_eq_some_iff.mpr ⟨row.2, hget, hread⟩⟩

/-- The call keeps the listed indexes that satisfy `p` as they have to be. -/
def Call.Keeps (env : Env) (c : Handle) (p : IndexSpec → Bool) (w : RedbWorld) : Call → Prop
  | statement st => st.Clean env c ((w.specs env c).filter p) w.begin
  | createIndex keys options => ∀ name, Registers env c w keys options name →
      p (newSpec name keys options) → (newSpec name keys options).IsBTree →
        Buildable env c w (newSpec name keys options)
  | dropIndex _ => True

section

variable {p : IndexSpec → Bool} (hcodec : env.Codec) (hsep : c.Separate) (hw : Settled env c w)
  (hs : Sound env c ((w.specs env c).filter p) w.committed) (hkeeps : call.Keeps env c p w)
  (h : call.Does env c w w')
include hcodec hsep hw hs hkeeps h

lemma Call.Does.sound : Sound env c ((w'.specs env c).filter p) w'.committed := by
  cases h with
  | rested hrested =>
    rw [World.specs, hrested.committed]
    exact hs
  | wrote hexec =>
    rw [specs_of_exec_ok hsep hw hexec, committed_of_exec_ok hsep hw hexec]
    exact (exec_sound hcodec hsep hw.nodup_names rfl hw.listed_begin hexec
      (filter_subset_self _) hs hkeeps).1
  | built hname hbuilt =>
    refine ⟨hbuilt.data.symm ▸ hs.keyed, fun spec hmem htree => ?_⟩
    obtain ⟨hspec, hp⟩ := mem_filter.mp hmem
    rcases hbuilt.mem_specs hcodec hw hspec with rfl | ⟨hspec, hne⟩
    · exact hbuilt.derived hs.keyed (hw.unlisted _ hname.2) htree (hkeeps _ hname hp htree)
    · rw [hbuilt.data, hbuilt.others spec.name hne]
      exact hs.derived spec (mem_filter.mpr ⟨hspec, hp⟩) htree
  | dropped hsteps => exact sound_of_dropSteps p hsteps hw hs

lemma Call.Does.stored {k : Bytes} {d : Document}
    (hd : docAt env (w'.committed c.tableName) k = some d) :
    docAt env (w.committed c.tableName) k = some d ∨
      ∃ st, call = .statement st ∧ st.Pair env c w.begin k d := by
  cases h with
  | rested hrested => exact .inl (hrested.committed ▸ hd)
  | wrote hexec =>
    rw [committed_of_exec_ok hsep hw hexec] at hd
    exact .inr ⟨_, rfl, (exec_sound hcodec hsep hw.nodup_names rfl hw.listed_begin hexec
      (filter_subset_self _) hs hkeeps).2 k d hd⟩
  | built _ hbuilt => exact .inl (hbuilt.data ▸ hd)
  | dropped hsteps => exact .inl (data_of_dropSteps hsteps ▸ hd)

end

lemma Call.Tidy.keeps (hs : Sound env c (w.plain env c) w.committed) (h : call.Tidy env c w) :
    call.Keeps env c (·.Plain) w := by
  cases call with
  | statement st => exact clean_of_tidy hs h keepsCovers_plain
  | dropIndex name => trivial
  | createIndex keys options =>
    intro name hname hp _
    have hplain : (newSpec name keys options).Plain := by simpa using hp
    rcases h name hname hplain with hrows | ⟨hkeys, hapart⟩
    · exact .inl hrows
    · exact .inr ⟨hkeys, hplain.2.1, hapart⟩

lemma World.New.sound (h : w.New c) {p : IndexSpec → Bool} :
    Sound env c ((w.specs env c).filter p) w.committed := by
  refine ⟨h.keyed, fun spec hmem _ => ?_⟩
  have hspec := (mem_filter.mp hmem).1
  rw [World.specs, h.metadata] at hspec
  cases hspec

structure InStep (env : Env) (c : Handle) (w : RedbWorld) : Prop where
  settled : Settled env c w
  sound : Sound env c (w.plain env c) w.committed

lemma inStep_of_run (hcodec : env.Codec) (hsep : c.Separate) {calls : List Call}
    (hw : InStep env c w) (hrun : Along (Call.step env c)
      (fun w call => call.Returns env c w ∧ call.Tidy env c w) w calls) :
    InStep env c (calls.foldl (Call.step env c) w) := by
  refine hrun.invariant (fun w call h hguard => ?_) hw
  have hdoes := Call.does_step hsep h.settled hguard.1
  exact ⟨hdoes.settled hcodec hsep h.settled,
    hdoes.sound hcodec hsep h.settled h.sound (hguard.2.keeps h.sound)⟩

def OidPair (k : Bytes) (d : Document) : Prop :=
  ∃ oid, d.get "_id" = some (.objectId oid) ∧ k = utf8 oid.toHex

lemma OidPair.length {k : Bytes} {d : Document} (h : OidPair k d) : k.length = 24 := by
  obtain ⟨oid, -, rfl⟩ := h
  exact oid.length_utf8_toHex

lemma idKey_of_objectId {d : Document} {oid : ObjectId}
    (h : d.get "_id" = some (.objectId oid)) : idKey env d = utf8 oid.toHex := by
  rw [idKey, h]
  rfl

/-- A statement that inserts documents with new and different `ObjectId`s and updates no
`_id`. -/
structure Statement.DistinctIds (env : Env) (c : Handle) (w : RedbWorld)
    (st : Statement) : Prop where
  objectId : ∀ doc ∈ st.inserts env c w, ∃ oid, doc.get "_id" = some (.objectId oid)
  fresh : ∀ doc ∈ st.inserts env c w, ∀ k d, docAt env (w.view c.tableName) k = some d →
    d.get "_id" ≠ doc.get "_id"
  distinct : (st.inserts env c w).Pairwise fun d d' => d.get "_id" ≠ d'.get "_id"
  sameId : ∀ t ∈ st.targets env c w, ∀ k old new, st.Touches env t (.replace k old new) →
    new.get "_id" = old.get "_id"

lemma Statement.DistinctIds.of_sparesId (h : st.SparesId) (hinserts : st.inserts env c w = []) :
    st.DistinctIds env c w where
  objectId doc hdoc := by
    rw [hinserts] at hdoc
    cases hdoc
  fresh doc hdoc := by
    rw [hinserts] at hdoc
    cases hdoc
  distinct := by
    rw [hinserts]
    exact .nil
  sameId t ht k old new htouch := by
    cases st with
    | updateOne filter update options | updateMany filter update options =>
      obtain ⟨tick, new', hnew, hx⟩ := htouch
      cases hx
      exact applyUpdateImpl_get h hnew
    | insertOne document internal | insertMany documents internal => exact htouch.elim
    | deleteOne filter internal | deleteMany filter internal => cases htouch
namespace Statement.DistinctIds

variable {st : Statement} (h : st.DistinctIds env c w)
  (hstored : ∀ k d, docAt env (w.view c.tableName) k = some d → OidPair k d)
include h hstored

lemma oidPair {k : Bytes} {d : Document} (hpair : st.Pair env c w k d) : OidPair k d := by
  rcases hpair with hd | ⟨t, ht, old, htouch⟩ | ⟨hd, rfl⟩
  · exact hstored k d hd
  · have hid := h.sameId t ht k old d htouch
    rcases htouch.cases with ⟨new, hx⟩ | hx
    · cases hx
      obtain ⟨oid, hoid, hkey⟩ := hstored t.1 t.2 (docAt_of_mem_targets ht)
      exact ⟨oid, hid.trans hoid, hkey⟩
    · cases hx
  · obtain ⟨oid, hoid⟩ := h.objectId d hd
    exact ⟨oid, hoid, idKey_of_objectId hoid⟩

omit h hstored in
lemma get_eq_of_idKey_eq {d d' : Document} {oid : ObjectId}
    (hd : d.get "_id" = some (.objectId oid)) (hd' : OidPair (idKey env d) d') :
    d'.get "_id" = d.get "_id" := by
  obtain ⟨oid', hoid', hkey⟩ := hd'
  rw [idKey_of_objectId hd] at hkey
  rw [hoid', hd, ObjectId.toHex_injective (utf8_injective hkey)]

lemma tidy (hkeyed : Keyed env (w.view c.tableName)) (specs : List IndexSpec) :
    st.Tidy env c specs w where
  fresh doc hdoc := by
    obtain ⟨oid, hoid⟩ := h.objectId doc hdoc
    by_contra hsome
    obtain ⟨d, hd⟩ := Option.ne_none_iff_exists'.mp fun hnone =>
      hsome (hkeyed.docAt_eq_none_iff.mp hnone)
    exact h.fresh doc hdoc _ d hd (get_eq_of_idKey_eq hoid (hstored _ d hd))
  distinct := by
    refine pairwise_map.mpr (h.distinct.imp_of_mem fun {d d'} hd hd' hne hkey => hne ?_)
    obtain ⟨oid, hoid⟩ := h.objectId d hd
    obtain ⟨oid', hoid'⟩ := h.objectId d' hd'
    exact (get_eq_of_idKey_eq hoid ⟨oid', hoid', hkey.trans (idKey_of_objectId hoid')⟩).symm
  keepsIds t ht x hx := by
    rcases hx.cases with ⟨new, rfl⟩ | rfl
    · have hid := h.sameId t ht _ _ _ hx
      change idKey env new = idKey env t.2
      rw [idKey, hid, idKey]
    · trivial
  apart := apart_of_length (fun k d hd => (h.oidPair hstored hd).length) specs

end Statement.DistinctIds

/-- Calls of a collection whose ids are different `ObjectId`s. -/
def Call.Ordinary (env : Env) (c : Handle) (w : RedbWorld) : Call → Prop
  | statement st => st.DistinctIds env c w.begin
  | createIndex keys options => ∀ name, Registers env c w keys options name →
      is2dsphereKeys keys = true → (options.getD {}).indexType = some .bTree →
        (w.committed c.tableName).rows = []
  | dropIndex _ => True

lemma Call.Ordinary.buildable {keys : Document} {options : Option IndexOptions} {name : String}
    (h : (Call.createIndex keys options).Ordinary env c w)
    (hname : Registers env c w keys options name)
    (hcollation : (options.getD {}).collation ≠ none → (w.committed c.tableName).rows = [])
    (hstored : ∀ k d, docAt env (w.committed c.tableName) k = some d → OidPair k d)
    (htree : (newSpec name keys options).IsBTree) :
    Buildable env c w (newSpec name keys options) := by
  rw [Buildable, or_iff_not_imp_left]
  intro hrows
  refine ⟨?_, not_not.mp fun hne => hrows (hcollation hne),
    apart_of_length (fun k d hd => (hstored k d hd).length) _⟩
  cases hkeys : is2dsphereKeys keys with
  | false => exact hkeys
  | true =>
    -- with spherical keys only an explicit type makes a B-tree index
    refine absurd (h name hname hkeys ?_) hrows
    change resolveIndexType keys { options.getD {} with name := none } = .bTree at htree
    unfold resolveIndexType at htree
    split at htree
    · next explicit hexplicit =>
      rw [← htree]
      exact hexplicit
    · rw [if_pos hkeys] at htree
      cases htree

lemma Call.Ordinary.tidy (h : call.Ordinary env c w)
    (hkeyed : Keyed env (w.committed c.tableName))
    (hstored : ∀ k d, docAt env (w.committed c.tableName) k = some d → OidPair k d) :
    call.Tidy env c w := by
  cases call with
  | statement st => exact Statement.DistinctIds.tidy h hstored hkeyed _
  | dropIndex name => trivial
  | createIndex keys options =>
    intro name hname hplain
    have hbuildable : Buildable env c w (newSpec name keys options) :=
      h.buildable hname (fun hne => absurd hplain.2.1 hne) hstored hplain.2.2
    exact hbuildable.imp_right fun ⟨hkeys, _, hapart⟩ => ⟨hkeys, hapart⟩

/-- The indexes that `p` selects are derived from documents with `ObjectId`s. -/
structure OidSound (env : Env) (c : Handle) (p : IndexSpec → Bool) (w : RedbWorld) : Prop where
  settled : Settled env c w
  sound : Sound env c ((w.specs env c).filter p) w.committed
  stored : ∀ k d, docAt env (w.committed c.tableName) k = some d → OidPair k d

lemma oidSound_of_run (hcodec : env.Codec) (hsep : c.Separate) {p : IndexSpec → Bool}
    {guard : RedbWorld → Call → Prop} {calls : List Call} (hnew : w.New c)
    (hkeeps : ∀ w call, OidSound env c p w → guard w call →
      call.Ordinary env c w ∧ call.Keeps env c p w)
    (hrun : Along (Call.step env c) (fun w call => call.Returns env c w ∧ guard w call) w calls) :
    OidSound env c p (calls.foldl (Call.step env c) w) := by
  refine hrun.invariant (I := OidSound env c p) ?_ ?_
  · rintro w call hoids ⟨hreturns, hguard⟩
    obtain ⟨hordinary, hkept⟩ := hkeeps w call hoids hguard
    obtain ⟨hsettled, hsound, hstored⟩ := hoids
    have hdoes := Call.does_step hsep hsettled hreturns
    refine ⟨hdoes.settled hcodec hsep hsettled, hdoes.sound hcodec hsep hsettled hsound hkept,
      fun k d hd => ?_⟩
    rcases hdoes.stored hcodec hsep hsettled hsound hkept hd with hd | ⟨st, rfl, hpair⟩
    · exact hstored k d hd
    · exact Statement.DistinctIds.oidPair hordinary hstored hpair
  · refine ⟨hnew.settled, hnew.sound, fun k d hd => ?_⟩
    rw [hnew.data] at hd
    cases hd

/-- The table of each plain index that is listed has exactly the rows of the stored documents,
which have `ObjectId`s. -/
def RowsExact (env : Env) (c : Handle) (w : RedbWorld) : Prop :=
  ∃ specs, listed env c w = .ok specs ∧ ∀ spec ∈ specs, spec.Plain → ∀ r v,
    (w.committed (c.indexTable spec.name)).get r = some v ↔
      ∃ doc oid, docAt env (w.committed c.tableName) (utf8 oid.toHex) = some doc ∧
        doc.get "_id" = some (.objectId oid) ∧
        r = extractIndexKey doc spec.keys ++ utf8 oid.toHex ∧ v = utf8 oid.toHex

/-- Index rows are exact after every run whose documents have different `ObjectId`s. -/
theorem index_rows_exact (hcodec : env.Codec) (hsep : c.Separate) {calls : List Call}
    (hnew : w.New c) (hrun : Along (Call.step env c)
      (fun w call => call.Returns env c w ∧ call.Ordinary env c w) w calls) :
    RowsExact env c (calls.foldl (Call.step env c) w) := by
  obtain ⟨hsettled, hsound, hstored⟩ := oidSound_of_run (p := (·.Plain)) hcodec hsep hnew
    (fun w call h hordinary =>
      ⟨hordinary, (hordinary.tidy h.sound.keyed h.stored).keeps h.sound⟩) hrun
  refine ⟨_, hsettled.listed, fun spec hmem hplain r v => ?_⟩
  rw [hsound.derived spec (mem_plain.mpr ⟨hmem, hplain⟩) hplain.2.2 r v]
  constructor
  · rintro ⟨doc, hdoc, -, hrow⟩
    obtain ⟨oid, hoid, rfl⟩ := hstored v doc hdoc
    exact ⟨doc, oid, hdoc, hoid, by rw [← hrow, hplain.row], rfl⟩
  · rintro ⟨doc, oid, hdoc, -, hrow, rfl⟩
    exact ⟨doc, hdoc, hplain.covers doc, by rw [hplain.row, hrow]⟩

end

namespace Sample

section

variable {spec : IndexSpec} {id a : Bson} (hcreate : (create spec).Returns env handle start)
  (hinsert : (Call.statement (insert id a)).Returns env handle (run [create spec]))
  (hempty : (run [create spec]).committed "t" = .empty)
include hcreate hinsert hempty

lemma indexed_tidy :
    Along (Call.step env handle) (fun w call => call.Returns env handle w ∧ call.Tidy env handle w)
      start [create spec, .statement (insert id a)] := by
  refine ⟨⟨hcreate, fun _ _ _ => .inl rfl⟩, ⟨hinsert, ?_⟩, trivial⟩
  have hview : (run [create spec]).begin.view handle.tableName = .empty := hempty
  refine tidy_of_length (n := (idKey env (doc id a)).length) _ (fun r hr => ?_)
    (fun d hd => ?_) (nodup_singleton _) (keepsIds_of_sparesId trivial)
  · change r ∈ ((run [create spec]).begin.view handle.tableName).rows at hr
    rw [hview] at hr
    cases hr
  · rw [mem_singleton.mp hd]
    refine ⟨?_, rfl⟩
    change ((run [create spec]).begin.view handle.tableName).get _ = none
    rw [hview]
    rfl

lemma indexed_inStep : InStep env handle (indexed spec id a) :=
  inStep_of_run codec separate ⟨start_new.settled, start_new.sound⟩
    (indexed_tidy hcreate hinsert hempty)

end

end Sample

section

open Sample

lemma distinctIds_insert {e : Env} {w : RedbWorld} (hempty : w.view "t" = .empty) (a : Bson) :
    (insert (.objectId oid) a).DistinctIds e handle w := by
  refine ⟨fun doc hdoc => ?_, fun doc _ k d hd => ?_, pairwise_singleton _ _,
    nofun⟩
  · rw [mem_singleton.mp hdoc]
    exact ⟨oid, rfl⟩
  · change docAt e (w.view "t") k = some d at hd
    rw [hempty] at hd
    cases hd

theorem index_rows_exact_update :
    let w := run [create ascending, .statement (insert (.objectId oid) (.string "x")),
      .statement (set (.objectId oid) "a" (.string "y"))]
    w.specs env handle = [ascending] ∧ docAt env (w.committed "t") (utf8 oid.toHex) =
        some (doc (.objectId oid) (.string "y")) ∧ RowsExact env handle w := by
  refine ⟨rfl, rfl, index_rows_exact codec separate start_new
      ⟨⟨by decide +kernel, fun _ _ h => absurd h (by decide)⟩, ⟨by decide +kernel, ?_⟩,
        ⟨by decide +kernel, ?_⟩, trivial⟩⟩
  · exact distinctIds_insert (rfl) _
  · exact .of_sparesId (untouched_set (by decide) _) (rfl)

/-- `create_index` builds spherical keys whatever the index type; later writes treat the index as a
B-tree. -/
theorem spherical_keys_not_exact : ¬ RowsExact env handle
      (run [.statement (insert (.objectId oid) (.string "x")), create spherical]) := by
  rintro ⟨specs, hlisted, hrows⟩
  have hspecs : listed env handle
      (run [.statement (insert (.objectId oid) (.string "x")), create spherical]) =
        .ok [spherical] := by decide +kernel
  rw [hspecs] at hlisted
  cases hlisted
  have hrow := (hrows spherical (mem_singleton_self _) (by decide) _ _).mpr
    ⟨doc (.objectId oid) (.string "x"), oid, rfl, rfl, rfl, rfl⟩
  exact absurd hrow (by decide +kernel)

end

end Smongo
