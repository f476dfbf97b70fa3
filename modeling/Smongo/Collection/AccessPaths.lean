import Smongo.Collection.Loops

/-!
# Access paths

The lazy cursor of `find`, the collectors of `execute_plan` and the loops of `find_one` are
written separately.
-/

namespace Smongo

open Eff List RedbCursor

def FindStep.items : List FindStep → List (Outcome CollectionError Document)
  | [] => []
  | .finished :: _ => []
  | .skip :: steps => items steps
  | .item r :: steps => r :: items steps

lemma FindStep.collect_of_items {steps : List FindStep} {docs : List Document}
    (h : items steps = docs.map .ok) : collect steps = .ok docs := by
  induction steps generalizing docs with
  | nil =>
    rw [items, eq_comm, map_eq_nil_iff] at h
    rw [h]
    rfl
  | cons step steps ih =>
    cases step with
    | finished =>
      rw [items, eq_comm, map_eq_nil_iff] at h
      rw [h]
      rfl
    | skip => exact ih h
    | item r =>
      rw [items, eq_comm, map_eq_cons_iff] at h
      obtain ⟨doc, rest, rfl, rfl, hrest⟩ := h
      rw [collect, ih hrest.symm]
      rfl

section

variable {env : Env} {filter : Document} {s : RedbSession} {step : Row → FindStep}
  {V : FindCursorState RedbCursor → Rows → Prop} {fuel : ℕ}
  {state : FindCursorState RedbCursor} {rows : Rows}

/-- A cursor state that has `rows` left, in the sense of `V`, does `step` on each in turn. -/
structure Walks (env : Env) (filter : Document) (s : RedbSession) (step : Row → FindStep)
    (V : FindCursorState RedbCursor → Rows → Prop) : Prop where
  nil : ∀ state, V state [] → (findStep env filter s state).1 = .finished
  cons : ∀ state row rows, V state (row :: rows) →
    ∃ state', findStep env filter s state = (step row, state') ∧ V state' rows
  fuel : ∀ state rows, V state rows → rows.length < findFuel s state

section

variable (h : Walks env filter s step V) (hstate : V state rows)
include h hstate

lemma Walks.findCursorNext (hfuel : rows.length < fuel) :
    (FindStep.items (rows.map step) = [] ∧ (findCursorNext env filter s fuel state).1 = none) ∨
    ∃ r state' rows', findCursorNext env filter s fuel state = (some r, state') ∧ V state' rows' ∧
      rows'.length < rows.length ∧
      FindStep.items (rows.map step) = r :: FindStep.items (rows'.map step) := by
  induction rows generalizing fuel state with
  | nil =>
    obtain ⟨fuel, rfl⟩ : ∃ n, fuel = n + 1 := ⟨fuel - 1, by omega⟩
    have hstep := h.nil state hstate
    rw [Smongo.findCursorNext]
    rcases hfound : findStep env filter s state with ⟨step', state'⟩
    rw [hfound] at hstep
    cases hstep
    exact .inl ⟨rfl, rfl⟩
  | cons row rows ih =>
    obtain ⟨fuel, rfl⟩ : ∃ n, fuel = n + 1 := ⟨fuel - 1, by omega⟩
    obtain ⟨state', hstep, hrest⟩ := h.cons state row rows hstate
    rw [Smongo.findCursorNext, hstep, map_cons, length_cons]
    cases step row with
    | finished => exact .inl ⟨rfl, rfl⟩
    | item r => exact .inr ⟨r, state', rows, rfl, hrest, by omega, rfl⟩
    | skip =>
      rcases ih hrest (by simpa using hfuel) with hend | ⟨r, state'', rows', hnext, hV, hlt, hitems⟩
      · exact .inl hend
      · exact .inr ⟨r, state'', rows', hnext, hV, by omega, hitems⟩

lemma Walks.drain (hfuel : rows.length < fuel) :
    drain env filter s fuel state = FindStep.items (rows.map step) := by
  induction fuel generalizing state rows with
  | zero => omega
  | succ fuel ih =>
    rw [Smongo.drain]
    rcases h.findCursorNext hstate (h.fuel state rows hstate) with
      ⟨hitems, hnext⟩ | ⟨r, state', rows', hnext, hV, hlt, hitems⟩
    · rcases hfound : Smongo.findCursorNext env filter s (findFuel s state) state with ⟨r, state'⟩
      rw [hfound] at hnext
      cases hnext
      exact hitems.symm
    · rw [hnext, hitems, ← ih hV (by omega)]

lemma Walks.collectFound :
    collectFound env filter s (findFuel s state) state = FindStep.collect (rows.map step) :=
  collectFound_eq_collect h.nil h.cons (h.fuel state rows hstate) hstate

end

variable (env filter) in
def judgeRow (docOf : Row → Option Document) (row : Row) : FindStep :=
  match docOf row with
  | some doc => judge env filter doc
  | none => .skip

lemma items_judgeRow {docOf : Row → Option Document}
    (h : ∀ doc ∈ rows.filterMap docOf, ∃ b, evalQuery env doc filter = .ok b) :
    FindStep.items (rows.map (judgeRow env filter docOf)) =
      (selected env filter (rows.filterMap docOf)).map .ok := by
  induction rows with
  | nil => rfl
  | cons row rows ih =>
    rw [filterMap_cons] at h ⊢
    rw [map_cons, judgeRow]
    cases hdoc : docOf row with
    | none =>
      rw [hdoc] at h
      exact ih h
    | some doc =>
      rw [hdoc] at h
      obtain ⟨holds, heval⟩ := h doc mem_cons_self
      have hrest := ih fun d hd => h d (mem_cons_of_mem _ hd)
      cases holds with
      | true | false => simp [judge, FindStep.items, selected, heval, hrest]

def FindCursorState.Positioned : FindCursorState RedbCursor → Prop
  | .indexSeek _ _ _ positioned => positioned = true
  | _ => True

variable (env filter s) in
lemma findStep_positioned (state : FindCursorState RedbCursor) :
    (findStep env filter s state).2.Positioned := by
  cases state with
  | collectionScan cursor | indexScan indexCursor dataCursor =>
    rw [findStep]
    split <;> trivial
  | indexSeek indexCursor dataCursor seekKey positioned =>
    rw [findStep]
    split
    · rfl
    · split
      · rfl
      · split <;> rfl
  | materialized docs => cases docs <;> trivial

lemma Visits.lt_findFuel {name : String} (h : Visits s name rows state)
    (hstate : state.Positioned) : rows.length < findFuel s state := by
  cases state with
  | collectionScan cursor | materialized docs => exact h.elim
  | indexScan indexCursor dataCursor => exact Nat.lt_succ_of_le (rowsLeft_of_left h.2).ge
  | indexSeek indexCursor dataCursor seekKey positioned =>
    obtain rfl : positioned = true := hstate
    obtain ⟨-, left, hleft, rfl⟩ := h
    apply Nat.lt_succ_of_le
    refine le_trans ?_ (rowsLeft_of_left hleft).ge
    exact ( takeWhile_prefix _).length_le

lemma walks_index {name : String} (hkeyed : Keyed env (s.db.table name)) :
    Walks env filter s (judgeRow env filter fun r => docAt env (s.db.table name) r.2)
      fun state rows => Visits s name rows state ∧ (∀ r ∈ rows, ∃ idStr, r.2 = Bytes.utf8 idStr) ∧
        rows.length < findFuel s state where
  nil state h := h.1.findStep_nil
  cons := by
    rintro state row rows ⟨hvisits, hids, -⟩
    obtain ⟨idStr, hrow⟩ := hids row mem_cons_self
    have hnext : ∃ state', findStep env filter s state =
        (fetch env filter (s.db.table name) row, state') ∧ Visits s name rows state' :=
      hvisits.findStep_cons hkeyed hrow
    obtain ⟨state', hstep, hrest⟩ := hnext
    have hpos := findStep_positioned env filter s state
    rw [hstep] at hpos
    exact ⟨state', hstep, hrest, fun r hr => hids r (mem_cons_of_mem _ hr), hrest.lt_findFuel hpos⟩
  fuel state rows h := h.2.2

lemma walks_collection {t : Table} (hkeyed : Keyed env t) :
    Walks env filter s (judgeRow env filter fun r => docAt env t r.1) fun state rows =>
      ∃ cursor : RedbCursor, state = .collectionScan cursor ∧ cursor.Left s rows ∧
        rows ⊆ t.rows where
  nil := by
    rintro state ⟨cursor, rfl, hleft, -⟩
    exact findStep_collection_nil hleft
  cons := by
    rintro state row rows ⟨cursor, rfl, hleft, hsub⟩
    obtain ⟨cursor', hstep, hleft'⟩ := findStep_collection_cons hleft
    have hget := OrderedTable.get_eq_some_iff.mpr (hsub mem_cons_self)
    obtain ⟨doc, -, hread, -⟩ := hkeyed row.1 row.2 hget
    refine ⟨.collectionScan cursor', hstep.trans ?_, cursor', rfl, hleft',
      fun r hr => hsub (mem_cons_of_mem _ hr)⟩
    rw [offerDocument_of_read hread, judgeRow, docAt_eq_some_iff.mpr ⟨row.2, hget, hread⟩]
  fuel := by
    rintro state rows ⟨cursor, rfl, hleft, -⟩
    exact Nat.lt_succ_of_le (rowsLeft_of_left hleft).ge

end

section

variable {env : Env} {c : Handle} {w : RedbWorld} {filter : Document}
  {specs : List IndexSpec} {plan : ExecutionPlan}

def ExecutionPlan.IsLeaf : ExecutionPlan → Prop
  | collectionScan | indexScan .. | indexSeek .. => True
  | _ => False

instance : DecidablePred ExecutionPlan.IsLeaf := fun plan => by
  cases plan <;> first | exact .isTrue trivial | exact .isFalse id

variable (env c w) in
def visited : ExecutionPlan → List Document
  | .collectionScan => documentsIn env (w.view c.tableName)
  | .indexScan indexName _ => fetched env c w indexName []
  | .indexSeek indexName indexKeys seekValues =>
    fetched env c w indexName (buildSeekPrefix indexKeys seekValues)
  | _ => []

variable (c w) in
def ReadsIds (plan : ExecutionPlan) : Prop := ∀ read, plan.reads = some read → HoldsIds c w read.1

lemma executePlan_index (hkeyed : Keyed env (w.committed c.tableName)) {read : String × Document}
    (hread : plan.reads = some read) (hids : HoldsIds c w read.1) (geo : PlanRunner) :
    executePlan env c geo filter plan w = (keep env filter (visited env c w plan), w) := by
  cases plan with
  | indexScan indexName indexKeys =>
    cases hread
    exact collectIndexScan_apply hkeyed hids
  | indexSeek indexName indexKeys seekValues =>
    cases hread
    exact collectIndexSeek_apply hkeyed hids indexKeys seekValues
  | _ => cases hread

lemma executePlan_leaf (hleaf : plan.IsLeaf) (hlegible : Legible env c w)
    (hids : ReadsIds c w plan) (geo : PlanRunner) :
    executePlan env c geo filter plan w = (keep env filter (visited env c w plan), w) := by
  cases hread : plan.reads with
  | some read => exact executePlan_index hlegible.committed hread (hids _ hread) geo
  | none =>
    cases plan with
    | collectionScan => exact collectCollectionScan_apply hlegible
    | indexScan indexName indexKeys | indexSeek indexName indexKeys seekValues => cases hread
    | _ => exact hleaf.elim

section

variable (hlisted : listed env c w = .ok specs)
  (hplan : (planQuery env.evaluate2dspherePlan filter specs).executionPlan = plan)
  (hleaf : plan.IsLeaf) (hlegible : Legible env c w) (hids : ReadsIds c w plan)
include hlisted hplan hleaf hlegible hids

lemma findIter_leaf (exec : PlanRunner) :
    ∃ state w' docOf V rows, findIter env c exec filter w = (.ok state, w') ∧
      w'.session = w.session ∧ Walks env filter w.session (judgeRow env filter docOf) V ∧
      V state rows ∧ rows.filterMap docOf = visited env c w plan := by
  cases hread : plan.reads with
  | some read =>
    rw [← hplan] at hread
    obtain ⟨state, w', hstate, hsession, hfuel, hvisits⟩ := findIter_by_index exec hlisted hread
    rw [hplan] at hread hvisits
    refine ⟨state, w', _, _, _, hstate, hsession, walks_index hlegible.committed,
      ⟨hvisits, fun r hr => ?_, ?_⟩, ?_⟩
    · exact hids _ hread r (mem_rowsWith.mp hr).1
    · rw [hfuel]
      exact Nat.lt_succ_of_le (length_filter_le _ _)
    · cases plan <;> cases hread <;> rfl
  | none =>
    cases plan with
    | indexScan indexName indexKeys | indexSeek indexName indexKeys seekValues => cases hread
    | collectionScan =>
      have hleft := left_shown w.session c.tableName
      rw [hlegible.shown] at hleft
      refine ⟨.collectionScan _, { w with indexCache := some specs }, _, _, _, ?_, rfl,
        walks_collection hlegible.keyed, ⟨_, rfl, hleft, List.Subset.refl _⟩, rfl⟩
      rw [findIter, bind_of_ok (listIndexes_of_listed hlisted), hplan]
      rfl
    | _ => exact hleaf.elim

lemma findOne_leaf (heval : ∀ doc ∈ visited env c w plan, ∃ b, evalQuery env doc filter = .ok b)
    (geo : PlanRunner) :
    (findOne env c geo filter w).1 = .ok (selected env filter (visited env c w plan)).head? := by
  -- listing the indexes fills the cache and leaves the session alone
  let w' : RedbWorld := { w with indexCache := some specs }
  have hlegible' : Legible env c w' := ⟨hlegible.keyed, hlegible.committed, hlegible.shown⟩
  rw [findOne, bind_of_ok (listIndexes_of_listed hlisted), hplan]
  cases plan with
  | collectionScan => exact congrArg Prod.fst (findOneWithCollectionScan_apply hlegible' heval)
  | indexScan indexName indexKeys =>
    have hholds : HoldsIds c w' indexName := hids _ rfl
    exact congrArg Prod.fst (findOneWithIndexScan_apply hlegible'.committed hholds heval)
  | indexSeek indexName indexKeys seekValues =>
    have hholds : HoldsIds c w' indexName := hids _ rfl
    exact congrArg Prod.fst
      (findOneWithIndexSeek_apply hlegible'.committed hholds indexKeys seekValues heval)
  | _ => exact hleaf.elim

end

end

/-- Indexes that are planned as B-trees have the rows derived from the visible documents. -/
structure IndexesDerived (env : Env) (c : Handle) (specs : List IndexSpec) (w : RedbWorld) :
    Prop where
  derived : ∀ spec ∈ specs, spec.PlannedAsBTree → Derived (spec.covers env) (spec.row env)
    (docAt env (w.view c.tableName)) (w.view (c.indexTable spec.name)).get
  shown : ∀ spec ∈ specs, spec.PlannedAsBTree →
    shown w.session (c.indexTable spec.name) = (w.view (c.indexTable spec.name)).rows

section

variable {env : Env} {c : Handle} {w : RedbWorld} {filter : Document}
  {specs : List IndexSpec} {plan : ExecutionPlan}

section

variable (h : IndexesDerived env c specs w) (hkeyed : Keyed env (w.view c.tableName))
include h hkeyed

lemma IndexesDerived.holdsIds {spec : IndexSpec} (hmem : spec ∈ specs)
    (hspec : spec.PlannedAsBTree) :
    HoldsIds c w spec.name := by
  intro r hr
  rw [h.shown spec hmem hspec] at hr
  have hget := OrderedTable.get_eq_some_iff.mpr hr
  obtain ⟨doc, hdoc, -, -⟩ := (h.derived spec hmem hspec r.1 r.2).mp hget
  obtain ⟨bytes, hbytes, -⟩ := docAt_eq_some_iff.mp hdoc
  obtain ⟨-, idStr, -, -, hkey⟩ := hkeyed r.2 bytes hbytes
  exact ⟨idStr, hkey⟩

lemma IndexesDerived.readsIds (hgeo : GeoOnly env.evaluate2dspherePlan)
    (hplan : (planQuery env.evaluate2dspherePlan filter specs).executionPlan = plan) :
    ReadsIds c w plan := by
  intro read hread
  rw [← hplan] at hread
  obtain ⟨spec, hmem, hspec, rfl⟩ := planQuery_reads hgeo hread
  exact h.holdsIds hkeyed hmem hspec

end

lemma mem_visited {doc : Document} (hdoc : doc ∈ visited env c w plan) :
    ∃ key, docAt env (w.view c.tableName) key = some doc ∨
      docAt env (w.committed c.tableName) key = some doc := by
  cases plan with
  | collectionScan =>
    obtain ⟨key, hkey⟩ := mem_documentsIn.mp hdoc
    exact ⟨key, .inl hkey⟩
  | indexScan indexName indexKeys | indexSeek indexName indexKeys seekValues =>
    obtain ⟨r, -, hr⟩ := mem_filterMap.mp hdoc
    exact ⟨r.2, .inr hr⟩
  | _ => cases hdoc

variable (env filter) in
def iterated (start : RedbOp (FindCursorState RedbCursor)) :
    RedbOp (List (Outcome CollectionError Document)) := do
  let state ← start
  let s ← read World.session
  pure (drain env filter s (findFuel s state) state)

lemma collectFound_materialized (env : Env) (filter : Document) (s : RedbSession)
    (docs : List Document) :
    collectFound env filter s (docs.length + 1)
      (.materialized docs : FindCursorState RedbCursor) = .ok docs := by
  induction docs with
  | nil => rfl
  | cons doc docs ih =>
    rw [length_cons, collectFound, findStep]
    dsimp only
    rw [ih]
    rfl

lemma find_materialized {exec : PlanRunner} (hlisted : listed env c w = .ok specs)
    (h : ¬ (planQuery env.evaluate2dspherePlan filter specs).executionPlan.IsLeaf) :
    (find env c exec filter w).1 =
      (exec (planQuery env.evaluate2dspherePlan filter specs).executionPlan filter
        { w with indexCache := some specs }).1 := by
  let w₁ : RedbWorld := { w with indexCache := some specs }
  have hiter : findIter env c exec filter w =
      (exec (planQuery env.evaluate2dspherePlan filter specs).executionPlan filter >>=
        fun docs => pure (.materialized docs)) w₁ := by
    rw [findIter, bind_of_ok (listIndexes_of_listed hlisted)]
    generalize (planQuery env.evaluate2dspherePlan filter specs).executionPlan = plan at h
    cases plan <;> first | rfl | exact absurd trivial h
  rw [find]
  rcases hexec : exec (planQuery env.evaluate2dspherePlan filter specs).executionPlan filter w₁ with
    ⟨docs | e | _, w₂⟩
  · rw [bind_of_ok (hiter.trans (bind_of_ok hexec))]
    exact collectFound_materialized env filter w₂.session docs
  · rw [bind_of_error (hiter.trans (bind_of_error hexec))]
  · rw [bind_of_panic (hiter.trans (bind_of_panic hexec))]

/-- A scan of an index gives a permutation iff each selected document has a row and is committed as
seen. -/
theorem access_paths_agree (hgeo : GeoOnly env.evaluate2dspherePlan)
    (geo : ExecutionPlan → Document → Op RedbSession (List Document))
    (hlisted : listed env c w = .ok specs) (hlegible : Legible env c w)
    (hindexed : IndexesDerived env c specs w) (filter : Document)
    (heval : ∀ key doc, docAt env (w.view c.tableName) key = some doc ∨
      docAt env (w.committed c.tableName) key = some doc → ∃ b, evalQuery env doc filter = .ok b)
    (hleaf : (planQuery env.evaluate2dspherePlan filter specs).executionPlan.IsLeaf) :
    let plan := (planQuery env.evaluate2dspherePlan filter specs).executionPlan
    let exec := fun plan filter => executePlan env c geo filter plan
    ∃ found scan, (find env c exec filter w).1 = .ok found ∧
      (iterated env filter (findIter env c exec filter) w).1 = .ok (found.map .ok) ∧
      (iterated env filter (findIntoIter env c geo filter) w).1 = .ok (found.map .ok) ∧
      (executePlan env c geo filter plan w).1 = .ok found ∧
      (findOne env c geo filter w).1 = .ok found.head? ∧
      (collectCollectionScan env c filter w).1 = .ok scan ∧
      ∀ indexName indexKeys, plan = .indexScan indexName indexKeys →
        ∃ spec ∈ specs, spec.name = indexName ∧ spec.keys = indexKeys ∧
          (found.Perm scan ↔ ∀ key doc, docAt env (w.view c.tableName) key = some doc →
            (evalQuery env doc filter = .ok true →
              spec.covers env doc ∧ docAt env (w.committed c.tableName) key = some doc) ∧
            (spec.covers env doc → ∀ old, docAt env (w.committed c.tableName) key = some old →
              evalQuery env old filter = .ok true → old = doc)) := by
  intro plan exec
  have hplan : (planQuery env.evaluate2dspherePlan filter specs).executionPlan = plan := rfl
  have hids : ReadsIds c w plan := hindexed.readsIds hlegible.keyed hgeo hplan
  have hvisited : ∀ doc ∈ visited env c w plan, ∃ b, evalQuery env doc filter = .ok b := by
    intro doc hdoc
    obtain ⟨key, hkey⟩ := mem_visited hdoc
    exact heval key doc hkey
  have hscanned : ∀ doc ∈ documentsIn env (w.view c.tableName),
      ∃ b, evalQuery env doc filter = .ok b := by
    intro doc hdoc
    obtain ⟨key, hkey⟩ := mem_documentsIn.mp hdoc
    exact heval key doc (.inl hkey)
  obtain ⟨state, w', docOf, V, rows, hstate, hsession, hwalks, hV, hrows⟩ :=
    findIter_leaf hlisted hplan hleaf hlegible hids exec
  have hread : (read World.session : Op RedbSession _) w' = (.ok w.session, w') := by
    rw [← hsession]
    rfl
  have hitems : FindStep.items (rows.map (judgeRow env filter docOf)) =
      (selected env filter (visited env c w plan)).map .ok := by
    rw [items_judgeRow (hrows ▸ hvisited), hrows]
  have hiter : (iterated env filter (findIter env c exec filter) w).1 =
      .ok ((selected env filter (visited env c w plan)).map .ok) := by
    rw [iterated, bind_of_ok hstate, bind_of_ok hread,
      hwalks.drain hV (hwalks.fuel state rows hV), hitems]
    rfl
  refine ⟨selected env filter (visited env c w plan),
    selected env filter (documentsIn env (w.view c.tableName)), ?_, hiter, hiter, ?_,
    findOne_leaf hlisted hplan hleaf hlegible hids hvisited geo, ?_, ?_⟩
  · rw [find, bind_of_ok hstate, bind_of_ok hread, ofOutcome_apply, hwalks.collectFound hV]
    exact FindStep.collect_of_items hitems
  · rw [executePlan_leaf hleaf hlegible hids geo, keep_of_ok hvisited]
  · rw [collectCollectionScan_apply hlegible, keep_of_ok hscanned]
  · intro indexName indexKeys hscan
    obtain ⟨spec, hmem, hspec, hspecRead⟩ :=
      planQuery_reads hgeo (congrArg ExecutionPlan.reads hscan)
    cases hspecRead
    refine ⟨spec, hmem, rfl, rfl, ?_⟩
    have hperm := selected_fetched_perm_iff filter []
      (hindexed.derived spec hmem hspec) hlegible.keyed hlegible.committed
    simp only [ nil_prefix, true_and, true_imp_iff] at hperm
    rw [hscan, visited, fetched, hindexed.shown spec hmem hspec]
    exact hperm

end

namespace Sample

def range : Document := [("a", .document [("$gte", .string "x")])]

def noGeo : PlanRunner := fun _ _ => pure []

end Sample

section

open Sample

/-- A range query between calls. -/
theorem access_paths_agree_range :
    ∃ found scan, (find env handle (fun plan filter => executePlan env handle noGeo filter plan)
        range one).1 = .ok found ∧
      (collectCollectionScan env handle range one).1 = .ok scan ∧ found.Perm scan := by
  have hlisted : listed env handle one = .ok [ascending] := rfl
  have hlegible : Legible env handle one :=
    ⟨by decide, by decide, by decide⟩
  have hindexed : IndexesDerived env handle [ascending] one :=
    ⟨by decide, by decide⟩
  have heval : ∀ key doc, docAt env (one.view handle.tableName) key = some doc ∨
      docAt env (one.committed handle.tableName) key = some doc →
      ∃ b, evalQuery env doc range = .ok b := by
    have hview : one.view = one.committed := view_of_idle (rfl)
    have hall : ∀ key doc, docAt env (one.committed handle.tableName) key = some doc →
        ∃ b, evalQuery env doc range = .ok b := forall_docAt_iff.mp (by decide)
    intro key doc hdoc
    rw [hview, or_self] at hdoc
    exact hall key doc hdoc
  have hplan : (planQuery env.evaluate2dspherePlan range [ascending]).executionPlan =
      .indexScan "a_1" [("a", .int32 1)] := rfl
  obtain ⟨found, scan, hfind, -, -, -, -, hscan, hperm⟩ :=
    access_paths_agree geoOnly noGeo hlisted hlegible hindexed range heval (by rw [hplan]; trivial)
  obtain ⟨spec, hspec, -, -, hiff⟩ := hperm _ _ hplan
  refine ⟨found, scan, hfind, hscan, hiff.mpr ?_⟩
  rw [mem_singleton] at hspec
  subst hspec
  exact forall_docAt_iff.mp (by decide)

/-- The point lookups of an index scan do not find a document that the transaction inserted. -/
theorem index_scan_misses_inserted : let w := insertSecond.step env handle one.begin
    listed env handle w = .ok [ascending] ∧
      (planQuery env.evaluate2dspherePlan range [ascending]).executionPlan =
        .indexScan "a_1" [("a", .int32 1)] ∧
      Sound env handle [ascending] w.view ∧
      findIn range w = .ok [doc (.int32 1) (.string "x")] ∧
      (collectCollectionScan env handle range w).1 =
        .ok [doc (.int32 1) (.string "x"), doc (.int32 2) (.string "x")] := by
  refine ⟨by decide, rfl, by decide, by decide, by decide⟩

end

end Smongo
