import Smongo.Aggregation.SortKeys
import Smongo.Collection.Unions
import Smongo.Lib.Windows

/-!
# Queries with sort, skip and limit

What the plan returns is sorted and cut, or an index with the sort fields in front is walked.
-/

namespace Smongo

open Eff List Outcome

def skipped (skip : Option Int64) : ℕ := (skip.map fun n => n.toInt.toNat).getD 0

def slice (skip limit : Option Int64) (docs : List Document) : List Document :=
  let docs := docs.drop (skipped skip)
  match limit with
  | some n => if 0 < n.toInt then docs.take n.toInt.toNat else docs
  | none => docs

variable (sort : Option Document)

def Obtainable (skip limit : Option Int64) (docs found : List Document) : Prop :=
  ∃ order, order.Perm docs ∧
    (order.Pairwise fun a b => compareBySort (sort.getD []) a b ≠ .gt) ∧
    found = slice skip limit order

variable (docs : List Document)

def sorted : List Document :=
  match sort with
  | some sortDoc => stageSort docs sortDoc
  | none => docs

lemma sorted_perm : (sorted sort docs).Perm docs := by
  cases sort with
  | none => exact .refl _
  | some sortDoc => exact perm_insertionSort _ docs

lemma stageSkip_eq (n : Int64) :
    (if 0 < n.toInt then stageSkip docs n else docs) = docs.drop n.toInt.toNat := by
  split
  · rfl
  · next h => rw [Int.toNat_of_nonpos (by omega), drop_zero]

section

variable (env : Env) (sort : Option Document) (skip limit : Option Int64) (docs : List Document)

lemma applyOptions_unsorted :
    applyOptions env { sort := sort, skip := skip, limit := limit } false docs =
      .ok (slice skip limit (sorted sort docs)) := by
  cases sort <;> cases skip <;> cases limit <;>
    simp [applyOptions, slice, skipped, sorted, stageSkip_eq, stageLimit]

lemma applyOptions_sorted :
    applyOptions env { sort := sort, skip := skip, limit := limit } true docs =
      .ok (slice skip none docs) := by
  cases sort <;> cases skip <;> cases limit <;> simp [applyOptions, slice, skipped, stageSkip_eq]

end

/-- A limit that is not positive keeps everything. -/
lemma exists_slice_eq (skip limit : Option Int64) (n : ℕ) : ∃ m, ∀ docs : List Document,
    docs.length = n → slice skip limit docs = (docs.drop (skipped skip)).take m := by
  have hall : ∀ docs : List Document, docs.length = n →
      docs.drop (skipped skip) = (docs.drop (skipped skip)).take n := fun docs hlength =>
    (take_of_length_le (by rw [length_drop]; omega)).symm
  cases limit with
  | none => exact ⟨n, hall⟩
  | some limit =>
    by_cases hlimit : 0 < limit.toInt
    · exact ⟨limit.toInt.toNat, fun docs _ => if_pos hlimit⟩
    · exact ⟨n, fun docs hlength => (if_neg hlimit).trans (hall docs hlength)⟩

lemma slice_sublist (skip limit : Option Int64) : (slice skip limit docs).Sublist docs := by
  obtain ⟨m, hm⟩ := exists_slice_eq skip limit docs.length
  rw [hm docs rfl]
  exact (take_sublist _ _).trans (drop_sublist _ _)

lemma stageSort_nil : stageSort docs [] = docs := by
  refine List.Pairwise.insertionSort_eq (pairwise_iff_forall_sublist.mpr fun _ => ?_)
  nofun

lemma sorted_eq : sorted sort docs = stageSort docs (sort.getD []) := by
  cases sort with
  | none => exact (stageSort_nil docs).symm
  | some sortDoc => rfl

/-- Documents among the selected ones can be obtained iff, place by place, they sort like those of
one sorted arrangement. -/
lemma obtainable_iff {skip limit : Option Int64} {stored found : List Document}
    (htotal : TotalOn {doc | doc ∈ stored} (compareBySort (sort.getD [])))
    (hsub : found.Subperm stored) : Obtainable sort skip limit stored found ↔
      List.Forall₂ (fun a b => compareBySort (sort.getD []) a b = .eq) found
        (slice skip limit (sorted sort stored)) := by
  obtain ⟨m, hm⟩ := exists_slice_eq skip limit stored.length
  rw [hm _ (sorted_perm sort stored).length_eq, sorted_eq, stageSort,
    ← exists_sorted_window_iff htotal hsub]
  refine exists_congr fun order => and_congr_right fun hperm => and_congr_right fun _ => ?_
  rw [hm order hperm.length_eq]

/-! ### Walks of an index up to a limit -/

section

variable {env : Env} {c : Handle} {w : RedbWorld} {filter : Document} {limit : ℕ}

variable (env filter limit) in
def keepUpTo : List Document → List Document → Outcome CollectionError (List Document)
  | [], out => .ok out
  | doc :: docs, out => do
    if ← (evalQuery env doc filter).mapError .queryError then
      if (out ++ [doc]).length < limit then keepUpTo docs (out ++ [doc]) else .ok (out ++ [doc])
    else keepUpTo docs out

variable (env filter) in
/-- The filter does not fail before `n` documents are selected. -/
def EvaluatesUpTo (n : ℕ) (docs : List Document) : Prop :=
  ∀ seen doc rest, docs = seen ++ doc :: rest → (selected env filter seen).length < n →
    ∃ b, evalQuery env doc filter = .ok b

lemma evaluatesUpTo_cons {n : ℕ} {doc : Document} {docs : List Document} {b : Bool}
    (heval : evalQuery env doc filter = .ok b) :
    EvaluatesUpTo env filter n (doc :: docs) ↔
      EvaluatesUpTo env filter (if b then n - 1 else n) docs := by
  have hselected : ∀ seen, (selected env filter (doc :: seen)).length < n ↔
      (selected env filter seen).length < if b then n - 1 else n := by
    intro seen
    cases b with
    | false => simp [selected, heval]
    | true =>
      simp only [selected, heval, decide_true, filter_cons_of_pos, length_cons, if_true]
      omega
  constructor
  · rintro h seen d rest rfl hseen
    exact h (doc :: seen) d rest rfl ((hselected seen).mpr hseen)
  · intro h seen d rest hdocs hseen
    cases seen with
    | nil =>
      obtain rfl : doc = d := (cons.inj hdocs).1
      exact ⟨b, heval⟩
    | cons d' seen =>
      obtain ⟨rfl, hrest⟩ := cons.inj hdocs
      exact h seen d rest hrest ((hselected seen).mp hseen)

lemma keepUpTo_eq_ok {docs out found : List Document} (hout : out.length < limit) :
    keepUpTo env filter limit docs out = .ok found ↔
      EvaluatesUpTo env filter (limit - out.length) docs ∧
        found = out ++ (selected env filter docs).take (limit - out.length) := by
  induction docs generalizing out with
  | nil => simp [keepUpTo, selected, EvaluatesUpTo, eq_comm]
  | cons doc docs ih =>
    rw [keepUpTo]
    cases heval : evalQuery env doc filter with
    | error e | panic =>
      refine iff_of_false nofun fun h => ?_
      obtain ⟨b, hb⟩ := h.1 [] doc docs rfl (Nat.sub_pos_of_lt hout)
      cases heval.symm.trans hb
    | ok holds =>
      rw [evaluatesUpTo_cons heval]
      cases holds with
      | false =>
        have hsel : selected env filter (doc :: docs) = selected env filter docs := by
          simp [selected, heval]
        rw [hsel]
        exact ih hout
      | true =>
        have hsel : selected env filter (doc :: docs) = doc :: selected env filter docs := by
          simp [selected, heval]
        obtain ⟨k, hk⟩ : ∃ k, limit - out.length = k + 1 := ⟨limit - out.length - 1, by omega⟩
        have hk' : limit - (out ++ [doc]).length = k := by
          rw [length_append, length_singleton]
          omega
        rw [hsel, hk, take_succ_cons]
        simp only [mapError_ok, ok_bind, if_true, Nat.add_sub_cancel]
        split
        · next hlt => rw [ih hlt, hk', append_assoc, singleton_append]
        · next hge =>
          rw [length_append, length_singleton] at hge
          obtain rfl : k = 0 := by omega
          rw [take_zero, ok.injEq, eq_comm]
          exact (and_iff_right fun _ _ _ _ h => (Nat.not_lt_zero _ h).elim).symm

lemma keepUpTo_nil {docs : List Document} {n : ℕ} (hn : 0 < n)
    (h : ∀ doc ∈ docs, ∃ b, evalQuery env doc filter = .ok b) :
    keepUpTo env filter n docs [] = .ok ((selected env filter docs).take n) := by
  refine (keepUpTo_eq_ok hn).mpr ⟨?_, rfl⟩
  rintro seen doc rest rfl -
  exact h doc (mem_append_right _ mem_cons_self)

variable (env filter limit) in
def keepUpToRow (docOf : Row → Option Document) (out : List Document)
    (row : Row) : Outcome CollectionError (Bool × List Document) :=
  match docOf row with
  | some doc => do
    let holds ← (evalQuery env doc filter).mapError .queryError
    .ok (if holds then ((out ++ [doc]).length < limit, out ++ [doc]) else (true, out))
  | none => .ok (true, out)

lemma foldRows_keepUpToRow {docOf : Row → Option Document} (rows : Rows) (out : List Document) :
    foldRows (keepUpToRow env filter limit docOf) rows out =
      keepUpTo env filter limit (rows.filterMap docOf) out := by
  induction rows generalizing out with
  | nil => rfl
  | cons row rows ih =>
    rw [foldRows, filterMap_cons, keepUpToRow]
    cases docOf row with
    | none => exact ih out
    | some doc =>
      simp only [keepUpTo]
      cases evalQuery env doc filter with
      | error e | panic => rfl
      | ok holds =>
        cases holds with
        | false => exact ih out
        | true => simp only [mapError_ok, ok_bind, if_true, decide_eq_true_iff, ih]

lemma collectSortedIndexScan_apply (hkeyed : Keyed env (w.committed c.tableName))
    {indexName : String} (hids : HoldsIds c w indexName) :
    collectSortedIndexScan env c filter indexName limit w =
      (keepUpTo env filter limit (fetched env c w indexName []) [], w) := by
  rw [collectSortedIndexScan, bind_of_ok (openTable_apply _ w), fetched, rowsWith_nil,
    ← foldRows_keepUpToRow]
  refine scanRows_eq (fun row hrow cursor rest out hat => ?_) []
  refine (bind_of_ok (documentOfRow_apply hkeyed hat (hids row hrow))).trans ?_
  rw [keepUpToRow]
  cases docAt env (w.committed c.tableName) row.2 with
  | none => rfl
  | some doc =>
    -- an empty filter is not evaluated
    cases filter with
    | nil => rfl
    | cons f filter =>
      have hpasses : (passes env (f :: filter) doc) w =
          ((evalQuery env doc (f :: filter)).mapError .queryError, w) := rfl
      refine (bind_apply w _ _).trans ?_
      rw [hpasses]
      dsimp only
      cases evalQuery env doc (f :: filter) with
      | error e | panic => rfl
      | ok holds => cases holds <;> rfl

end

def IndexSpec.Whole (spec : IndexSpec) : Prop :=
  is2dsphereKeys spec.keys = false ∧ spec.IsBTree ∧ spec.options.partialFilterExpression = none

instance : DecidablePred IndexSpec.Whole := fun _ => inferInstanceAs (Decidable (_ ∧ _ ∧ _))

lemma IndexSpec.Whole.planned {spec : IndexSpec} (h : spec.Whole) : spec.PlannedAsBTree :=
  ⟨h.1, .inl h.2.1⟩

variable (geoPlan : Document → IndexSpec → Option QueryPlan) (filter : Document)
  (specs : List IndexSpec) in
lemma planQueryFull_cases (sort : Option Document) (limit : Option Int64) :
    planQueryFull geoPlan filter specs none sort limit = planQuery geoPlan filter specs ∨
      ∃ n spec reverse, limit = some n ∧ 0 < n.toInt ∧ spec ∈ specs ∧
        (planQueryFull geoPlan filter specs none sort limit).executionPlan =
          .sortedIndexScan spec.name spec.keys n.toInt.toNat reverse := by
  unfold planQueryFull
  rw [planQueryWithProjection_none]
  cases sort with
  | none => exact .inl rfl
  | some sortDoc =>
    cases limit with
    | none => exact .inl rfl
    | some n =>
      dsimp only
      split
      · next hn =>
        split
        · next plan hplan =>
          split
          · obtain ⟨spec, hmem, hspec⟩ := exists_of_findSome?_eq_some hplan
            split at hspec
            · cases hspec
            · split at hspec
              · cases hspec
              · obtain ⟨reverse, -, rfl⟩ := Option.map_eq_some_iff.mp hspec
                exact .inr ⟨n, spec, reverse, rfl, hn, hmem, rfl⟩
          · exact .inl rfl
        · exact .inl rfl
      · exact .inl rfl

section

variable {env : Env} {c : Handle} {w : RedbWorld} {filter : Document}
  {specs : List IndexSpec} {plan : ExecutionPlan}

def PlanOver (specs : List IndexSpec) (plan : ExecutionPlan) : Prop :=
  plan = .collectionScan ∨ ∀ leaf ∈ plan.leaves, ReadsListed specs leaf

lemma IndexesDerived.indexLeaf (h : IndexesDerived env c specs w)
    (hkeyed : Keyed env (w.view c.tableName)) {leaf : ExecutionPlan}
    (hleaf : ReadsListed specs leaf) : IndexLeaf c w leaf := by
  obtain ⟨spec, hmem, hspec, hread⟩ := hleaf
  exact ⟨_, hread, h.holdsIds hkeyed hmem hspec⟩

section

variable (hlegible : Legible env c w) (hindexed : IndexesDerived env c specs w)
include hlegible hindexed

lemma nodup_visited
    (hplan : plan = .collectionScan ∨ ReadsListed specs plan) : (visited env c w plan).Nodup := by
  rcases hplan with rfl | ⟨spec, hmem, hspec, hread⟩
  · exact hlegible.keyed.nodup_documentsIn
  · have hfetched : ∀ pre, (fetched env c w spec.name pre).Nodup := by
      intro pre
      rw [fetched, hindexed.shown spec hmem hspec]
      exact nodup_fetched (hindexed.derived spec hmem hspec) hlegible.committed
    cases plan with
    | indexScan indexName indexKeys | indexSeek indexName indexKeys seekValues =>
      cases hread
      exact hfetched _
    | _ => cases hread

lemma nodup_gathered
    (hplan : PlanOver specs plan) : (gathered env filter (visited env c w) plan).Nodup := by
  cases plan with
  | orUnionPlans subplans =>
    have hleaves := hplan.resolve_left (by simp)
    exact nodup_gathered_union hlegible.committed fun leaf hleaf =>
      hindexed.indexLeaf hlegible.keyed (hleaves leaf hleaf)
  | _ =>
    refine (nodup_visited hlegible hindexed ?_).filter _
    exact hplan.imp_right fun h => h _ (mem_singleton_self _)

lemma mem_gathered_iff (hplan : PlanOver specs plan) {doc : Document} :
    doc ∈ gathered env filter (visited env c w) plan ↔ Reached env c w filter plan.leaves doc := by
  rcases hplan with rfl | hleaves
  · exact mem_gathered_leaf
  · exact mem_gathered hlegible.committed plan
      (fun leaf hleaf => hindexed.indexLeaf hlegible.keyed (hleaves leaf hleaf)) doc

/-- The walk finds every selected document, in the order of the rows. -/
lemma selected_walk_perm (hidle : w.session.inTransaction = false) {spec : IndexSpec}
    (hmem : spec ∈ specs) (hspec : spec.Whole) (filter : Document) :
    (selected env filter (visited env c w (.indexScan spec.name spec.keys))).Perm
      (selected env filter (documentsIn env (w.view c.tableName))) := by
  rw [visited, fetched, hindexed.shown spec hmem hspec.planned]
  refine (selected_fetched_perm_iff filter [] (hindexed.derived spec hmem hspec.planned)
    hlegible.keyed hlegible.committed).mpr fun key doc hdoc => ?_
  rw [view_of_idle hidle] at hdoc
  refine ⟨fun _ => ⟨?_, nil_prefix, hdoc⟩, fun _ _ old hold _ => ?_⟩
  · rw [IndexSpec.covers, partialAdmits, hspec.2.2]
  · exact Option.some.inj (hold.symm.trans hdoc)

lemma gathered_subperm (hidle : w.session.inTransaction = false)
    (hplan : PlanOver specs plan) : (gathered env filter (visited env c w) plan).Subperm
      (selected env filter (documentsIn env (w.view c.tableName))) := by
  refine subperm_of_subset (nodup_gathered hlegible hindexed hplan) fun doc hdoc => ?_
  obtain ⟨leaf, -, hvisited, heval⟩ := (mem_gathered_iff hlegible hindexed hplan).mp hdoc
  obtain ⟨key, hkey⟩ := mem_visited hvisited
  rw [view_of_idle hidle, or_self] at hkey
  rw [view_of_idle hidle, mem_selected, mem_documentsIn]
  exact ⟨⟨key, hkey⟩, heval⟩

end

variable (geo : PlanRunner)

lemma executePlan_eq_ok (hlegible : Legible env c w) (hindexed : IndexesDerived env c specs w)
    (hplan : PlanOver specs plan) {found : List Document} :
    (executePlan env c geo filter plan w).1 = .ok found ↔
      Evaluates env c w filter plan.leaves ∧
        found = gathered env filter (visited env c w) plan := by
  rcases hplan with rfl | hleaves
  · have hleaf : ExecutionPlan.collectionScan.IsLeaf := trivial
    rw [executePlan_leaf hleaf hlegible nofun, keep_eq_ok]
    refine and_congr_left fun _ => ?_
    simp [Evaluates, ExecutionPlan.leaves]
  · have hindex : ∀ leaf ∈ plan.leaves, IndexLeaf c w leaf := fun leaf hleaf =>
      hindexed.indexLeaf hlegible.keyed (hleaves leaf hleaf)
    constructor
    · intro h
      obtain ⟨heval, hfound, -⟩ :=
        (executePlan_tree geo hlegible.committed plan hindex).mp (Prod.ext h rfl)
      exact ⟨heval, hfound⟩
    · rintro ⟨heval, rfl⟩
      rw [(executePlan_tree geo hlegible.committed plan hindex).mpr ⟨heval, rfl, rfl⟩]

end

section

variable {env : Env} {c : Handle} {w : RedbWorld} {filter : Document}
  {specs : List IndexSpec} {sort : Option Document} {skip limit : Option Int64}
  {found : List Document}
  (geo : PlanRunner)

lemma PlanOver.isSorted {plan : ExecutionPlan} (h : PlanOver specs plan) :
    plan.isSorted = false := by
  cases plan with
  | sortedIndexScan indexName indexKeys limit reverse =>
    obtain ⟨spec, -, -, hread⟩ := h.resolve_left (by simp) _ (mem_singleton_self _)
    cases hread
  | _ => rfl

lemma findWithOptions_eq_ok (hlisted : listed env c w = .ok specs) :
    (findWithOptions env c geo filter { sort := sort, skip := skip, limit := limit } w).1 =
        .ok found ↔
      ∃ docs, (executePlan env c geo filter
          (planQueryFull env.evaluate2dspherePlan filter specs none sort limit).executionPlan
          { w with indexCache := some specs }).1 = .ok docs ∧
        applyOptions env { sort := sort, skip := skip, limit := limit }
          (planQueryFull env.evaluate2dspherePlan filter specs none
            sort limit).executionPlan.isSorted docs = .ok found := by
  rw [findWithOptions, bind_of_ok (listIndexes_of_listed hlisted)]
  refine Eq.congr_left (fst_bind_ofOutcome _ _ _) |>.trans ?_
  exact bind_eq_ok

section

variable (hlisted : listed env c w = .ok specs) (hlegible : Legible env c w)
  (hindexed : IndexesDerived env c specs w)
include hlisted hlegible hindexed

lemma findWithOptions_base (hspecs : ∀ spec ∈ specs, spec.Whole)
    (hplan : planQueryFull env.evaluate2dspherePlan filter specs none sort limit =
      planQuery env.evaluate2dspherePlan filter specs) :
    let plan := (planQuery env.evaluate2dspherePlan filter specs).executionPlan
    (findWithOptions env c geo filter { sort := sort, skip := skip, limit := limit } w).1 =
        .ok found ↔
      Evaluates env c w filter plan.leaves ∧
        found = slice skip limit (sorted sort (gathered env filter (visited env c w) plan)) := by
  intro plan
  have hover : PlanOver specs plan :=
    planQuery_leaves _ (fun spec hmem => (hspecs spec hmem).planned) filter
  have hlegible' : Legible env c { w with indexCache := some specs } :=
    ⟨hlegible.keyed, hlegible.committed, hlegible.shown⟩
  have hindexed' : IndexesDerived env c specs { w with indexCache := some specs } :=
    ⟨hindexed.derived, hindexed.shown⟩
  rw [findWithOptions_eq_ok geo hlisted, hplan, hover.isSorted]
  constructor
  · rintro ⟨docs, hdocs, hfound⟩
    obtain ⟨heval, rfl⟩ := (executePlan_eq_ok geo hlegible' hindexed' hover).mp hdocs
    rw [applyOptions_unsorted] at hfound
    exact ⟨heval, (ok.inj hfound).symm⟩
  · rintro ⟨heval, rfl⟩
    exact ⟨_, (executePlan_eq_ok geo hlegible' hindexed' hover).mpr ⟨heval, rfl⟩,
      applyOptions_unsorted env sort skip limit _⟩

lemma findWithOptions_walk {spec : IndexSpec} (hmem : spec ∈ specs) (hspec : spec.Whole) {n : ℕ}
    {reverse : Bool}
    (hplan : (planQueryFull env.evaluate2dspherePlan filter specs none sort limit).executionPlan =
      .sortedIndexScan spec.name spec.keys n reverse) :
    (findWithOptions env c geo filter { sort := sort, skip := skip, limit := limit } w).1 =
        .ok found ↔
      ∃ docs, keepUpTo env filter n (visited env c w (.indexScan spec.name spec.keys)) [] =
        .ok docs ∧ found = slice skip none docs := by
  let w' : RedbWorld := { w with indexCache := some specs }
  have hkeyed : Keyed env (w'.committed c.tableName) := hlegible.committed
  have hids : HoldsIds c w' spec.name := hindexed.holdsIds hlegible.keyed hmem hspec.planned
  have hwalk : (collectSortedIndexScan env c filter spec.name n w').1 =
      keepUpTo env filter n (visited env c w (.indexScan spec.name spec.keys)) [] :=
    congrArg Prod.fst (collectSortedIndexScan_apply hkeyed hids)
  rw [findWithOptions_eq_ok geo hlisted, hplan, executePlan, hwalk]
  refine exists_congr fun docs => and_congr_right fun _ => ?_
  rw [ExecutionPlan.isSorted, applyOptions_sorted, ok.injEq, eq_comm]

variable (env c w filter sort skip limit) in
/-- A walk of an index takes the rows in their order, whatever the direction of the sort, and stops
before documents are skipped. Other plans are sorted and cut afterwards. -/
def Serves (stored : List Document) : ExecutionPlan → Prop
  | .sortedIndexScan indexName indexKeys n _ =>
    let walk := visited env c w (.indexScan indexName indexKeys)
    EvaluatesUpTo env filter n walk ∧ (stored.length ≤ skipped skip ∨
      (skipped skip = 0 ∨ stored.length ≤ n) ∧
        Leads (fun a b => compareBySort (sort.getD []) a b ≠ .gt) (skipped skip) n
          (selected env filter walk))
  | plan => Evaluates env c w filter plan.leaves ∧
    List.Forall₂ (fun a b => compareBySort (sort.getD []) a b = .eq)
      (slice skip limit (sorted sort (gathered env filter (visited env c w) plan)))
      (slice skip limit (sorted sort stored))

omit hlisted hlegible hindexed in
lemma serves_unsorted {stored : List Document} {plan : ExecutionPlan}
    (hplan : plan.isSorted = false) : Serves env c w filter sort skip limit stored plan ↔
      Evaluates env c w filter plan.leaves ∧
        List.Forall₂ (fun a b => compareBySort (sort.getD []) a b = .eq)
          (slice skip limit (sorted sort (gathered env filter (visited env c w) plan)))
          (slice skip limit (sorted sort stored)) := by
  cases plan with
  | sortedIndexScan indexName indexKeys n reverse => cases hplan
  | _ => rfl

end

end

section

open Sample

end

end Smongo
