import Smongo.Aggregation.Pipeline
import Smongo.Client.Transactions
import Smongo.Collection.Batches
import Smongo.Collection.Unmaintained
import Smongo.Collection.Validation

/-!
# Replacing a collection with the results of a pipeline

`$out` deletes all documents of its target and then inserts the results.
-/

namespace Smongo

open Eff List Statement

section

variable {env : Env} {c : Handle} {w w₁ w₂ : RedbWorld} {docs : List Document}

/-- What `$out` promises of the rows of its target. -/
structure AllOrNothing {ε : Type} (env : Env) (t t' : Table) (r : Outcome ε (List Document)) :
    Prop where
  kept : ∀ e, r = .error e → documentsIn env t' = documentsIn env t
  /-- Results without an `_id` are stored with a new one. -/
  replaced : ∀ results, r = .ok results →
    ∃ ticks, (documentsIn env t').Perm (identifyAll env ticks results).1

/-- The documents can be stored once the target is cleared, unless nothing is lost without them, and
if they can be, they have distinct ids. -/
def Replaceable (env : Env) (c : Handle) (specs : List IndexSpec) (tables : String → Table)
    (docs : List Document) : Prop :=
  let stored := documentsIn env (tables c.tableName)
  let cleared := fun spec : IndexSpec => spec.cleared env stored (tables (c.indexTable spec.name))
  (stored = [] ∨ Storable env specs cleared docs) ∧
    (Storable env specs cleared docs → (docs.map (idKey env)).Nodup)

section

variable {ε : Type} {t t' : Table}

lemma allOrNothing_error_iff {e : ε} : AllOrNothing env t t' (.error e) ↔
    documentsIn env t' = documentsIn env t :=
  ⟨fun h => h.kept e rfl, fun h => ⟨fun _ _ => h, nofun⟩⟩

lemma allOrNothing_ok_iff : AllOrNothing env t t' (.ok docs : Outcome ε (List Document)) ↔
    ∃ ticks, (documentsIn env t').Perm (identifyAll env ticks docs).1 := by
  refine ⟨fun h => h.replaced docs rfl, fun h => ⟨nofun, fun results hok => ?_⟩⟩
  cases hok
  exact h

lemma allOrNothing_mapError_iff {ε' : Type} (g : ε → ε') {r : Outcome ε (List Document)} :
    AllOrNothing env t t' (r.mapError g) ↔ AllOrNothing env t t' r := by
  cases r with
  | ok docs => exact allOrNothing_ok_iff.trans allOrNothing_ok_iff.symm
  | error e => exact allOrNothing_error_iff.trans allOrNothing_error_iff.symm
  | panic =>
    refine iff_of_true ⟨nofun, nofun⟩ ⟨nofun, nofun⟩

end

/-! ### Deleting everything -/

lemma Settled.legible (hw : Settled env c w) (hkeyed : Keyed env (w.committed c.tableName)) :
    Legible env c w := by
  have hview : w.view = w.committed := view_of_idle hw.idle
  refine ⟨?_, hkeyed, ?_⟩
  · rw [hview]
    exact hkeyed
  · rw [hview, shown_of_idle hw.idle]

lemma documentsIn_eq_nil_iff {t : Table} :
    documentsIn env t = [] ↔ ∀ key, docAt env t key = none := by
  rw [eq_nil_iff_forall_not_mem]
  simp only [mem_documentsIn, not_exists, Option.eq_none_iff_forall_ne_some]
  exact forall_comm

lemma length_identifyAll (env : Env) (ticks : ℕ) (docs : List Document) :
    (identifyAll env ticks docs).1.length = docs.length := by
  induction docs generalizing ticks with
  | nil => rfl
  | cons doc docs ih => exact congrArg (· + 1) (ih _)

section

variable (hcodec : env.Codec) (hsep : c.Separate) (hw : Settled env c w)
  (hkeyed : Keyed env (w.committed c.tableName))
include hcodec hsep hw hkeyed

lemma deleteMany_empties {n : DeleteResult} (hrun : deleteMany env c [] false w = (.ok n, w₁)) :
    Settled env c w₁ ∧ Keyed env (w₁.committed c.tableName) ∧ w₁.specs env c = w.specs env c ∧
      documentsIn env (w₁.committed c.tableName) = [] := by
  have hexec : (Statement.deleteMany [] false).exec env c w = (.ok (.delete n), w₁) :=
    bind_of_ok hrun
  obtain ⟨t, hbatch, rfl⟩ := exec_ok_of_idle hw.idle hexec
  have hdoes : (Call.statement (.deleteMany [] false)).Does env c w t.uncached.commit :=
    .wrote hbatch
  have hsettled := hdoes.settled hcodec hsep hw
  have hkeeps : (Call.statement (.deleteMany [] false)).KeepsIds env c w :=
    keepsIds_of_sparesId trivial
  refine ⟨hsettled, hdoes.keyed hcodec hsep hw hkeyed hkeeps, specs_of_exec_ok hsep hw hbatch, ?_⟩
  have hdeleted := deleteMany_deleted hcodec hsep hw.nodup_names hw.listed (hw.legible hkeyed) hrun
  rw [view_of_idle hw.idle, view_of_idle hsettled.idle] at hdeleted
  rw [documentsIn_eq_nil_iff]
  intro key
  cases hdoc : docAt env (t.uncached.commit.committed c.tableName) key with
  | none => rfl
  | some doc => exact absurd rfl ((hdeleted.stored key doc).mp hdoc).2

/-- The stored documents are the given ones exactly if these have distinct ids. -/
lemma insertMany_holds_iff (hempty : documentsIn env (w.committed c.tableName) = [])
    {r : InsertManyResult} (hrun : insertMany env c docs false w = (.ok r, w₂)) :
    (∃ ticks, (documentsIn env (w₂.committed c.tableName)).Perm (identifyAll env ticks docs).1) ↔
      ((identifyAll env w.ticks docs).1.map (idKey env)).Nodup := by
  have hexec : (Statement.insertMany docs false).exec env c w = (.ok (.insertMany r), w₂) :=
    bind_of_ok hrun
  obtain ⟨t, hbatch, rfl⟩ := exec_ok_of_idle hw.idle hexec
  have hkeyed₂ : Keyed env (t.view c.tableName) := exec_keyed hcodec hsep hw.nodup_names
    rfl hw.listed_begin hbatch hkeyed (keepsIds_of_sparesId trivial)
  obtain ⟨xs, ⟨ts, ys, hsub, hacts, rfl⟩, hwrote⟩ :=
    exec_performs hsep hw.nodup_names rfl hw.listed_begin hbatch
  obtain rfl := sublist_nil.mp hsub
  obtain rfl := forall₂_nil_left_iff.mp hacts
  rw [committed_of_exec_ok hsep hw hbatch]
  have hnone : ∀ key, docAt env (w.begin.view c.tableName) key = none :=
    documentsIn_eq_nil_iff.mp hempty
  have hinserts : (Statement.insertMany docs false).inserts env c w.begin =
      (identifyAll env w.ticks docs).1 := rfl
  rw [nil_append, hinserts] at hwrote
  generalize hnews : (identifyAll env w.ticks docs).1 = news at hwrote ⊢
  -- whatever is stored is one of the results, under its id
  have hstored : ∀ doc ∈ documentsIn env (t.view c.tableName), doc ∈ news := by
    intro doc hdoc
    obtain ⟨key, hkey⟩ := mem_documentsIn.mp hdoc
    refine hwrote.stored_within hcodec (W := fun _ doc => doc ∈ news) (fun x hx => ?_)
      ?_ key doc hkey
    · obtain ⟨doc, hmem, rfl⟩ := mem_map.mp hx
      exact hmem
    · intro key doc hdoc
      rw [hnone] at hdoc
      cases hdoc
  have hids : ((documentsIn env (t.view c.tableName)).map (idKey env)).Nodup := by
    refine hkeyed₂.nodup_documentsIn.map_on fun doc hdoc doc' hdoc' heq => ?_
    obtain ⟨key, hkey⟩ := mem_documentsIn.mp hdoc
    obtain ⟨key', hkey'⟩ := mem_documentsIn.mp hdoc'
    rw [← hkeyed₂.key_eq hkey, ← hkeyed₂.key_eq hkey'] at heq
    exact Option.some.inj (hkey.symm.trans (heq ▸ hkey'))
  constructor
  · rintro ⟨ticks, hperm⟩
    have hlength : news.length ≤ (documentsIn env (t.view c.tableName)).length := by
      rw [hperm.length_eq, length_identifyAll, ← hnews, length_identifyAll]
    have hall : (documentsIn env (t.view c.tableName)).Perm news :=
      (subperm_of_subset hkeyed₂.nodup_documentsIn hstored).perm_of_length_le hlength
    exact (hall.map (idKey env)).nodup_iff.mp hids
  · intro hnodup
    refine ⟨w.ticks, ?_⟩
    rw [hnews, perm_ext_iff_of_nodup hkeyed₂.nodup_documentsIn hnodup.of_map]
    refine fun doc => ⟨hstored doc, fun hdoc => ?_⟩
    have hpairs : ((news.map fun doc => (idKey env doc, doc)).map Prod.fst).Nodup := by
      rw [map_map]
      exact hnodup
    have hwrite : news.map DocWrite.insert =
        (news.map fun doc => (idKey env doc, doc)).map fun m => .insert m.2 := by
      rw [map_map]
      rfl
    rw [hwrite] at hwrote
    have hkey : ∀ m ∈ news.map fun doc => (idKey env doc, doc),
        (DocWrite.insert m.2).key env = m.1 := by
      intro m hm
      obtain ⟨doc, -, rfl⟩ := mem_map.mp hm
      rfl
    obtain ⟨hmem, -⟩ := hwrote.docAt_map hcodec hkey hpairs
    exact mem_documentsIn.mpr ⟨_, hmem _ (mem_map_of_mem hdoc)⟩

lemma replaceDocuments_iff (hoplog : c.oplog = none) (hvalidator : c.validator = none)
    (hexist : ∀ spec ∈ w.specs env c, (w.session.db.tables (c.indexTable spec.name)).isSome)
    (docs : List Document) {r : Outcome CollectionError (List Document)}
    (hrun : (replaceDocuments env c docs >>= fun _ => pure docs) w = (r, w₂))
    (hreturns : r ≠ .panic) :
    AllOrNothing env (w.committed c.tableName) (w₂.committed c.tableName) r ↔
      Replaceable env c (w.specs env c) w.committed (identifyAll env w.ticks docs).1 := by
  obtain ⟨n, w₁, hdelete, hticks, hkept, hindexes⟩ := deleteMany_returns hoplog hsep hw hkeyed
  obtain ⟨hsettled, hkeyed₁, hspecs, hempty⟩ := deleteMany_empties hcodec hsep hw hkeyed hdelete
  cases docs with
  | nil =>
    have hreplace : replaceDocuments env c [] w = (.ok (), w₁) := bind_of_ok hdelete
    cases hrun.symm.trans (bind_of_ok hreplace)
    rw [allOrNothing_ok_iff, hempty]
    exact iff_of_true ⟨0, .nil⟩ ⟨.inr trivial, fun _ => .nil⟩
  | cons doc docs =>
    have hstorable := insertMany_eq_ok_iff hoplog hsep hsettled.nodup_names hvalidator
      (doc :: docs) hsettled.idle hsettled.listed_begin
      (fun spec hspec => hkept _ (hexist spec (hspecs ▸ hspec)))
    rw [hspecs, hticks, storable_congr hindexes] at hstorable
    rw [Replaceable, ← hstorable]
    rcases hinsert : insertMany env c (doc :: docs) false w₁ with ⟨r' | e | _, w'⟩
    · have hreplace : replaceDocuments env c (doc :: docs) w = (.ok (), w') :=
        (bind_of_ok hdelete).trans (bind_of_ok hinsert)
      cases hrun.symm.trans (bind_of_ok hreplace)
      rw [allOrNothing_ok_iff, insertMany_holds_iff hcodec hsep hsettled hkeyed₁ hempty hinsert,
        hticks]
      exact ⟨fun h => ⟨.inr ⟨r', rfl⟩, fun _ => h⟩, fun h => h.2 ⟨r', rfl⟩⟩
    · have hreplace : replaceDocuments env c (doc :: docs) w = (.error e, w') :=
        (bind_of_ok hdelete).trans (bind_of_error hinsert)
      cases hrun.symm.trans (bind_of_error hreplace)
      have hexec : (Statement.insertMany (doc :: docs) false).exec env c w₁ = (.error e, w₂) :=
        bind_of_error hinsert
      have hrefused : ¬ ∃ result : InsertManyResult, (.error e : Outcome CollectionError _) =
          .ok result := fun ⟨_, h⟩ => by cases h
      rw [allOrNothing_error_iff, (exec_error_of_idle hsettled.idle hexec).committed, hempty]
      exact ⟨fun h => ⟨.inl h.symm, fun hok => absurd hok hrefused⟩,
        fun h => (h.1.resolve_right hrefused).symm⟩
    · have hreplace : replaceDocuments env c (doc :: docs) w = (.panic, w') :=
        (bind_of_ok hdelete).trans (bind_of_panic hinsert)
      cases hrun.symm.trans (bind_of_panic hreplace)
      exact absurd rfl hreturns

end

/-! ### Pipelines that end in `$out` -/

section

variable {geometry : Geometry} {d : Database} {stages : Stages} {options : PipelineOptions}
  {source : Option String}

lemma splitWriteStage_out (pipeline : List Document) (spec : Bson) (more : Document) :
    splitWriteStage (pipeline ++ [("$out", spec) :: more]) =
      (pipeline, some (("$out", spec) :: more)) := by
  rw [splitWriteStage, getLast?_concat, dropLast_concat]
  rfl

lemma aggregateFrom_out (initial : DocStream) (pipeline : List Document) (spec : Bson)
    (more : Document) :
    aggregateFrom env geometry d stages options source initial
        (pipeline ++ [("$out", spec) :: more]) =
      (do
        let results ← pipelineResults env geometry d stages options source initial pipeline
        executeOut env d spec results
        pure results) := by
  rw [aggregateFrom, splitWriteStage_out]
  rfl

lemma executeOut_of_target {spec : Bson} {target : String} (h : outTarget spec = .ok target)
    (results : List Document) (s : DatabaseContext) :
    (executeOut env d spec results >>= fun _ => pure results) s =
      let r := (replaceDocuments env (d.handle target) results >>= fun _ => pure results)
        (s.opened d target)
      (r.1.mapError .collection, ⟨r.2.session.db, r.2.ticks⟩) := by
  have hout : executeOut env d spec results =
      onCollection d target fun c => replaceDocuments env c results := by
    rw [executeOut, h]
    rfl
  rw [hout, bind_apply, onCollection_apply, bind_apply]
  rcases replaceDocuments env (d.handle target) results (s.opened d target)
    with ⟨⟨⟩ | e | _, w'⟩ <;> rfl

/-- `$out` is all or nothing iff what is stored in its target, if it has one, can be replaced with
the results. -/
theorem out_all_or_nothing_iff (hcodec : env.Codec) (s : DatabaseContext) (initial : DocStream)
    (pipeline : List Document) (spec : Bson) (more : Document) :
    let r := aggregateFrom env geometry d stages options source initial
      (pipeline ++ [("$out", spec) :: more]) s
    (∀ e, outTarget spec = .error e → (∀ results, r.1 ≠ .ok results) ∧
      ∀ name, r.2.db.table name = s.db.table name) ∧
    ∀ target, outTarget spec = .ok target → r.1 ≠ .panic →
      let c := d.handle target
      let specs := (s.db.world s.ticks).specs env c
      c.Separate → Settled env c (s.db.world s.ticks) → Keyed env (s.db.table c.tableName) →
      (∀ spec ∈ specs, (s.db.tables (c.indexTable spec.name)).isSome) →
      (AllOrNothing env (s.db.table c.tableName) (r.2.db.table c.tableName) r.1 ↔
        ∀ results s₁, pipelineResults env geometry d stages options source initial pipeline s =
          (.ok results, s₁) →
            Replaceable env c specs s.db.table (identifyAll env s.ticks results).1) := by
  intro r
  have hr : r = _ := congrFun (aggregateFrom_out initial pipeline spec more) s
  have hsame : sameTables.rel s
      (pipelineResults env geometry d stages options source initial pipeline s).2 :=
    (pipelineResults_moves initial pipeline s).1
  rcases hresults : pipelineResults env geometry d stages options source initial pipeline s
    with ⟨results | e | _, s₁⟩ <;> rw [hresults] at hsame
  · rw [bind_of_ok hresults] at hr
    constructor
    · intro e he
      have hout : executeOut env d spec results s₁ = (.error e, s₁) := by
        rw [executeOut, he]
        rfl
      rw [hr, bind_of_error hout]
      exact ⟨fun _ h => (by cases h), congrFun hsame.table⟩
    · intro target htarget hreturns c specs hsep hw hkeyed hexist
      rw [executeOut_of_target htarget] at hr
      have hcommitted : (s₁.opened d target).committed = (s.db.world s.ticks).committed :=
        (s₁.committed_opened target).trans hsame.table
      have hticks : (s₁.opened d target).ticks = s.ticks := hsame.ticks
      have hspecs : (s₁.opened d target).specs env c = specs := by
        rw [World.specs, hcommitted]
        rfl
      have hiff := replaceDocuments_iff hcodec hsep (hw.of_committed rfl rfl hcommitted)
        (by rw [hcommitted]; exact hkeyed) rfl rfl (fun spec hspec => ?_) results rfl ?_
      · rw [hspecs, hticks, hcommitted] at hiff
        rw [hr, allOrNothing_mapError_iff]
        refine hiff.trans ⟨fun h results' s₁' heq => ?_, fun h => h results s₁ rfl⟩
        cases heq
        exact h
      · rw [s₁.opened_tables, Function.update_apply]
        split
        · rfl
        · exact hsame.existing _ (hexist spec (hspecs ▸ hspec))
      · intro hpanic
        rw [hr] at hreturns
        exact hreturns (congrArg (Outcome.mapError AggregationError.collection) hpanic)
  · rw [bind_of_error hresults] at hr
    rw [hr]
    refine ⟨fun _ _ => ⟨fun _ h => (by cases h), congrFun hsame.table⟩, ?_⟩
    intro target _ _ c specs _ _ _ _
    rw [allOrNothing_error_iff]
    refine ⟨fun _ results' s₁' heq => (by cases heq), fun _ => ?_⟩
    exact congrArg (documentsIn env) (congrFun hsame.table _)
  · rw [bind_of_panic hresults] at hr
    rw [hr]
    exact ⟨fun _ _ => ⟨fun _ h => (by cases h), congrFun hsame.table⟩,
      fun target _ hreturns => absurd rfl hreturns⟩

/-- An aggregation that does not end in `$out` or `$merge` changes no row of any table, also if it
fails. -/
theorem aggregation_read_only {initial : DocStream} {pipeline : List Document}
    (h : (splitWriteStage pipeline).2 = none) (s : DatabaseContext) :
    s.Extends (aggregateFrom env geometry d stages options source initial pipeline s).2 := by
  unfold aggregateFrom
  rw [h]
  exact ((pipelineResults_moves initial _).map s).1

end

end

namespace Sample

def uniqueContext : DatabaseContext := ⟨(indexed unique (.int32 1) (.string "x")).session.db, 2⟩

def outOf (docs : List Document) : Outcome AggregationError (List Document) × DatabaseContext :=
  aggregateWithDbCollection env flat ⟨none⟩ passingStages (some "t") docs
    [[("$out", .string "t")]] uniqueContext

def differing : List Document := [doc (.int32 1) (.string "y"), doc (.int32 2) (.string "x")]

def agreeing : List Document := [doc (.int32 1) (.string "x"), doc (.int32 2) (.string "x")]

lemma uniqueContext_reached : Settled env handle (uniqueContext.db.world uniqueContext.ticks) ∧
      Keyed env (uniqueContext.db.table "t") := by
  have hrun : Along (Call.step env handle) (fun w call => call.Returns env handle w ∧ call.SparesId)
      start [create unique, .statement (insert (.int32 1) (.string "x"))] :=
    ⟨⟨by decide, trivial⟩, ⟨by decide, trivial⟩, trivial⟩
  have hreaches := reaches_of_run codec separate start_new hrun
  exact ⟨hreaches.settled.of_committed rfl rfl rfl, hreaches.keyed⟩

end Sample

section

open Sample

/-- Two documents with different values replace the one that was there. -/
theorem out_all_or_nothing_replaced :
    AllOrNothing env (uniqueContext.db.table "t") ((outOf differing).2.db.table "t")
      (outOf differing).1 := by
  have hiff := (@out_all_or_nothing_iff env flat ⟨none⟩ passingStages {} (some "t") codec
    uniqueContext (differing.map .ok) [] (.string "t") []).2 "t" rfl (by decide +kernel) separate
    uniqueContext_reached.1 uniqueContext_reached.2 (by decide +kernel)
  have hout : outOf differing = aggregateFrom env flat ⟨none⟩ passingStages {} (some "t")
      (differing.map .ok) ([] ++ [[("$out", .string "t")]]) uniqueContext := rfl
  have htable : (Database.handle ⟨none⟩ "t").tableName = "t" := rfl
  rw [hout]
  rw [htable] at hiff
  rw [hiff]
  intro results s₁ hresults
  obtain rfl : differing = results := Outcome.ok.inj (congrArg Prod.fst hresults)
  have hfits : Storable env [unique] (fun spec => spec.cleared env
      (documentsIn env (uniqueContext.db.table "t"))
      (uniqueContext.db.table (handle.indexTable spec.name))) differing :=
    ⟨by decide +kernel, ⟨_, rfl⟩, by decide +kernel, ⟨_, rfl⟩, trivial⟩
  exact ⟨.inr hfits, fun _ => by decide⟩

/-- Two documents with the same value violate the unique index, and the document that was there is
gone. -/
theorem out_leaves_target_empty :
    (outOf agreeing).1 = .error (.collection (duplicateKeyError unique)) ∧
      documentsIn env (uniqueContext.db.table "t") = [doc (.int32 1) (.string "x")] ∧
      documentsIn env ((outOf agreeing).2.db.table "t") = [] := by
  refine ⟨by decide +kernel, by decide +kernel, by decide +kernel⟩

theorem aggregation_read_only_union :
    let r := aggregateFrom env flat ⟨none⟩ passingStages {} (some "t")
      [.ok (doc (.int32 2) (.string "y"))]
      [[("$unionWith", .string "t")], [("$limit", .int32 2)]] uniqueContext
    r.1 = .ok [doc (.int32 2) (.string "y"), doc (.int32 1) (.string "x")] ∧
      uniqueContext.Extends r.2 :=
  ⟨by decide +kernel, aggregation_read_only rfl uniqueContext⟩

end

end Smongo
