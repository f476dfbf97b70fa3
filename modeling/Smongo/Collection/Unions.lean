import Smongo.Collection.AccessPaths
import Smongo.Lib.FirstOfKey
import Smongo.Planner.OrPlans

/-!
# Unions of plans

The executor runs the subplans of a union in turn, all with the whole filter, and keeps
the first document of each id.
-/

namespace Smongo

open Eff List

section

variable {env : Env} {c : Handle} {w : RedbWorld} {filter : Document}

variable (env) in
def idStringOf (doc : Document) : String :=
  match doc.get "_id" with
  | some id => idString env id
  | none => ""

variable {doc : Document}

lemma idStringOf_eq {idStr : String}
    (h : extractIdString env doc = .ok idStr) : idStringOf env doc = idStr := by
  unfold extractIdString at h
  unfold idStringOf
  cases hid : doc.get "_id" with
  | none => simp [hid] at h
  | some id =>
    rw [hid] at h
    cases h
    rfl

section

variable {t : Table} (h : Keyed env t) {key : Bytes} (hdoc : docAt env t key = some doc)
include h hdoc

lemma Keyed.extractIdString :
    extractIdString env doc = .ok (idStringOf env doc) ∧ key = Bytes.utf8 (idStringOf env doc) := by
  obtain ⟨bytes, hget, hread⟩ := docAt_eq_some_iff.mp hdoc
  obtain ⟨doc', idStr, hread', hid, hkey⟩ := h key bytes hget
  rw [hread] at hread'
  cases hread'
  rw [idStringOf_eq hid]
  exact ⟨hid, hkey⟩

lemma Keyed.eq_of_idStringOf {key' : Bytes} {doc' : Document}
    (hdoc' : docAt env t key' = some doc') (hid : idStringOf env doc = idStringOf env doc') :
    doc = doc' := by
  have hkey : key = key' := by rw [(h.extractIdString hdoc).2, (h.extractIdString hdoc').2, hid]
  rw [hkey, hdoc'] at hdoc
  exact (Option.some.inj hdoc).symm

end

lemma pushUnseen_apply (h : extractIdString env doc = .ok (idStringOf env doc))
    (acc : List String × List Document) :
    (pushUnseen env acc doc) w = (.ok (pushNew (idStringOf env) acc doc), w) := by
  rw [pushUnseen, h, pushNew]
  refine (bind_of_ok (ofOutcome_apply w _)).trans ?_
  by_cases hseen : idStringOf env doc ∈ acc.1
  · rw [if_pos hseen, if_pos (contains_iff_mem.mpr hseen)]
    rfl
  · rw [if_neg hseen, if_neg (mt contains_iff_mem.mp hseen)]
    rfl

lemma foldlM_pushUnseen {docs : List Document}
    (h : ∀ doc ∈ docs, extractIdString env doc = .ok (idStringOf env doc))
    (acc : List String × List Document) :
    (docs.foldlM (pushUnseen env) acc) w =
      (.ok (docs.foldl (pushNew (idStringOf env)) acc), w) := by
  induction docs generalizing acc with
  | nil => rfl
  | cons doc docs ih =>
    rw [foldlM_cons, bind_of_ok (pushUnseen_apply (h doc mem_cons_self) acc),
      ih fun d hd => h d (mem_cons_of_mem _ hd)]
    rfl

/-! ### Executing trees of unions -/

variable (c w) in
def IndexLeaf (leaf : ExecutionPlan) : Prop := ∃ read, leaf.reads = some read ∧ HoldsIds c w read.1

lemma IndexLeaf.mem_visited {leaf : ExecutionPlan} (h : IndexLeaf c w leaf)
    (hdoc : doc ∈ visited env c w leaf) :
    ∃ key, docAt env (w.committed c.tableName) key = some doc := by
  obtain ⟨read, hread, -⟩ := h
  cases leaf with
  | indexScan indexName indexKeys | indexSeek indexName indexKeys seekValues =>
    obtain ⟨r, -, hr⟩ := mem_filterMap.mp hdoc
    exact ⟨r.2, hr⟩
  | _ => cases hread

variable (env c w filter) in
def Reached (leaves : List ExecutionPlan) (doc : Document) : Prop :=
  ∃ leaf ∈ leaves, doc ∈ visited env c w leaf ∧ evalQuery env doc filter = .ok true

variable (env c w filter) in
def Evaluates (leaves : List ExecutionPlan) : Prop :=
  ∀ leaf ∈ leaves, ∀ doc ∈ visited env c w leaf, ∃ b, evalQuery env doc filter = .ok b

lemma reached_append {as bs : List ExecutionPlan} : Reached env c w filter (as ++ bs) doc ↔
      Reached env c w filter as doc ∨ Reached env c w filter bs doc := by
  simp only [Reached, mem_append, or_and_right, exists_or]

lemma Reached.stored {leaves : List ExecutionPlan} (h : ∀ leaf ∈ leaves, IndexLeaf c w leaf)
    (hdoc : Reached env c w filter leaves doc) :
    ∃ key, docAt env (w.committed c.tableName) key = some doc := by
  obtain ⟨leaf, hleaf, hvisited, -⟩ := hdoc
  exact (h leaf hleaf).mem_visited hvisited

variable (env filter) in
mutual

/-- The first document of each id that the leaves of a tree of unions visit and the filter selects.
-/
def gathered (visit : ExecutionPlan → List Document) : ExecutionPlan → List Document
  | .orUnionPlans subplans => (gatheredAll visit subplans ([], [])).2
  | leaf => selected env filter (visit leaf)
termination_by structural plan => plan

def gatheredAll (visit : ExecutionPlan → List Document) :
    List ExecutionPlan → List String × List Document → List String × List Document
  | [], acc => acc
  | sub :: rest, acc =>
    gatheredAll visit rest ((gathered visit sub).foldl (pushNew (idStringOf env)) acc)
termination_by structural plans => plans

end

lemma mem_gathered_leaf {leaf : ExecutionPlan} :
    doc ∈ selected env filter (visited env c w leaf) ↔ Reached env c w filter [leaf] doc := by
  rw [mem_selected, Reached]
  simp only [mem_singleton, exists_eq_left]

mutual

theorem mem_gathered (hkeyed : Keyed env (w.committed c.tableName)) (plan : ExecutionPlan)
    (hleaves : ∀ leaf ∈ plan.leaves, IndexLeaf c w leaf) (doc : Document) :
    doc ∈ gathered env filter (visited env c w) plan ↔ Reached env c w filter plan.leaves doc := by
  cases plan with
  | orUnionPlans subplans =>
    obtain ⟨-, hmem⟩ := gatheredAll_first hkeyed subplans hleaves ([], []) .empty
      nofun
    rw [gathered, hmem, ExecutionPlan.leaves]
    simp
  | _ => exact mem_gathered_leaf
termination_by structural plan

theorem gatheredAll_first (hkeyed : Keyed env (w.committed c.tableName))
    (subplans : List ExecutionPlan) (hleaves : ∀ leaf ∈ leavesOfAll subplans, IndexLeaf c w leaf)
    (acc : List String × List Document) (hacc : FirstOfKey (idStringOf env) acc)
    (hstored : ∀ doc ∈ acc.2, ∃ key, docAt env (w.committed c.tableName) key = some doc) :
    FirstOfKey (idStringOf env) (gatheredAll env filter (visited env c w) subplans acc) ∧
      ∀ doc, doc ∈ (gatheredAll env filter (visited env c w) subplans acc).2 ↔
        doc ∈ acc.2 ∨ Reached env c w filter (leavesOfAll subplans) doc := by
  cases subplans with
  | nil =>
    refine ⟨hacc, fun doc => ?_⟩
    simp [Reached, leavesOfAll, gatheredAll]
  | cons sub rest =>
    have hsubLeaves : ∀ leaf ∈ sub.leaves, IndexLeaf c w leaf :=
      fun leaf hleaf => hleaves leaf (mem_append_left _ hleaf)
    have hmem := mem_gathered hkeyed sub hsubLeaves
    have hfoundStored : ∀ doc ∈ gathered env filter (visited env c w) sub,
        ∃ key, docAt env (w.committed c.tableName) key = some doc :=
      fun doc hdoc => ((hmem doc).mp hdoc).stored hsubLeaves
    obtain ⟨hfirst, hpushed⟩ := hacc.foldl_pushNew _ fun x hx z hz hid => by
      obtain ⟨key, hkey⟩ := hfoundStored x hx
      obtain ⟨key', hkey'⟩ := hz.elim (hstored z) (hfoundStored z)
      exact hkeyed.eq_of_idStringOf hkey' hkey hid
    obtain ⟨hfirst', hmem'⟩ := gatheredAll_first hkeyed rest
      (fun leaf hleaf => hleaves leaf (mem_append_right _ hleaf)) _ hfirst
      (fun doc hdoc => ((hpushed doc).mp hdoc).elim (hstored doc) (hfoundStored doc))
    rw [gatheredAll]
    refine ⟨hfirst', fun doc => ?_⟩
    rw [hmem', hpushed, hmem, leavesOfAll, reached_append, or_assoc]
termination_by structural subplans

end

lemma nodup_gathered_union (hkeyed : Keyed env (w.committed c.tableName))
    {subplans : List ExecutionPlan} (hleaves : ∀ leaf ∈ leavesOfAll subplans, IndexLeaf c w leaf) :
    (gathered env filter (visited env c w) (.orUnionPlans subplans)).Nodup := by
  have hfirst : FirstOfKey (idStringOf env)
      (gatheredAll env filter (visited env c w) subplans ([], [])) :=
    (gatheredAll_first hkeyed subplans hleaves ([], []) .empty (fun doc hdoc => by cases hdoc)).1
  exact hfirst.nodup.of_map

lemma extractIdString_of_gathered (hkeyed : Keyed env (w.committed c.tableName))
    {plan : ExecutionPlan} (h : ∀ leaf ∈ plan.leaves, IndexLeaf c w leaf) :
    ∀ doc ∈ gathered env filter (visited env c w) plan,
      extractIdString env doc = .ok (idStringOf env doc) := by
  intro doc hdoc
  obtain ⟨key, hkey⟩ := ((mem_gathered hkeyed plan h doc).mp hdoc).stored h
  exact (hkeyed.extractIdString hkey).1

variable (geo : PlanRunner)

mutual

/-- A plan returns what its leaves gather, if the filter evaluates on all that they visit. -/
theorem executePlan_tree (hkeyed : Keyed env (w.committed c.tableName)) (plan : ExecutionPlan)
    (hleaves : ∀ leaf ∈ plan.leaves, IndexLeaf c w leaf) {found : List Document} {w' : RedbWorld} :
    executePlan env c geo filter plan w = (.ok found, w') ↔ Evaluates env c w filter plan.leaves ∧
      found = gathered env filter (visited env c w) plan ∧ w = w' := by
  cases plan with
  | orUnionPlans subplans =>
    rw [executePlan, bind_eq_ok]
    constructor
    · rintro ⟨acc, w₁, hunion, hdone⟩
      obtain ⟨heval, rfl, rfl⟩ := (executeUnion_tree hkeyed subplans hleaves).mp hunion
      cases hdone
      exact ⟨heval, rfl, rfl⟩
    · rintro ⟨heval, rfl, rfl⟩
      exact ⟨_, w, (executeUnion_tree hkeyed subplans hleaves).mpr ⟨heval, rfl, rfl⟩, rfl⟩
  | _ =>
    obtain ⟨read, hread, hids⟩ := hleaves _ (mem_singleton_self _)
    rw [executePlan_index hkeyed hread hids, Prod.mk.injEq, keep_eq_ok, and_assoc]
    simp only [Evaluates, ExecutionPlan.leaves, gathered, mem_singleton, forall_eq]
termination_by structural plan

theorem executeUnion_tree (hkeyed : Keyed env (w.committed c.tableName))
    (subplans : List ExecutionPlan) (hleaves : ∀ leaf ∈ leavesOfAll subplans, IndexLeaf c w leaf)
    {acc acc' : List String × List Document} {w' : RedbWorld} :
    executeUnion env c geo filter subplans acc w = (.ok acc', w') ↔
      Evaluates env c w filter (leavesOfAll subplans) ∧
        acc' = gatheredAll env filter (visited env c w) subplans acc ∧ w = w' := by
  cases subplans with
  | nil =>
    constructor
    · rintro ⟨⟩
      exact ⟨nofun, rfl, rfl⟩
    · rintro ⟨-, rfl, rfl⟩
      rfl
  | cons sub rest =>
    have hsub : ∀ leaf ∈ sub.leaves, IndexLeaf c w leaf :=
      fun leaf hleaf => hleaves leaf (mem_append_left _ hleaf)
    have hrest : ∀ leaf ∈ leavesOfAll rest, IndexLeaf c w leaf :=
      fun leaf hleaf => hleaves leaf (mem_append_right _ hleaf)
    rw [executeUnion, bind_eq_ok]
    constructor
    · rintro ⟨docs, w₁, hfound, hmore⟩
      obtain ⟨heval, rfl, rfl⟩ := (executePlan_tree hkeyed sub hsub).mp hfound
      rw [bind_of_ok (foldlM_pushUnseen (extractIdString_of_gathered hkeyed hsub) acc)] at hmore
      obtain ⟨hevalRest, rfl, rfl⟩ := (executeUnion_tree hkeyed rest hrest).mp hmore
      exact ⟨fun leaf hleaf => (mem_append.mp hleaf).elim (heval leaf) (hevalRest leaf), rfl, rfl⟩
    · rintro ⟨heval, rfl, rfl⟩
      refine ⟨_, w, (executePlan_tree hkeyed sub hsub).mpr
        ⟨fun leaf hleaf => heval leaf (mem_append_left _ hleaf), rfl, rfl⟩, ?_⟩
      rw [bind_of_ok (foldlM_pushUnseen (extractIdString_of_gathered hkeyed hsub) acc)]
      exact (executeUnion_tree hkeyed rest hrest).mpr
        ⟨fun leaf hleaf => heval leaf (mem_append_right _ hleaf), rfl, rfl⟩
termination_by structural subplans

end

/-- A union of seeks and scans that each serve their own query returns the documents of the whole
filter, each once. -/
theorem or_union_exact (hkeyed : Keyed env (w.committed c.tableName)) {specs : List IndexSpec}
    {subplans : List ExecutionPlan}
    (hplan : (planQuery env.evaluate2dspherePlan filter specs).executionPlan =
      .orUnionPlans subplans)
    (hleaves : ∀ leaf ∈ plannedLeaves env.evaluate2dspherePlan specs filter filter,
      IndexLeaf c w leaf.2)
    (hcomplete : ∀ leaf ∈ plannedLeaves env.evaluate2dspherePlan specs filter filter,
      ∀ key doc, docAt env (w.committed c.tableName) key = some doc →
        evalQuery env doc leaf.1 = .ok true → doc ∈ visited env c w leaf.2)
    (heval : ∀ key doc, docAt env (w.committed c.tableName) key = some doc →
      ∃ b, evalQuery env doc filter = .ok b) :
    ∃ found, executePlan env c geo filter (.orUnionPlans subplans) w = (.ok found, w) ∧
      found.Nodup ∧ ∀ doc, doc ∈ found ↔
        (∃ key, docAt env (w.committed c.tableName) key = some doc) ∧
          evalQuery env doc filter = .ok true := by
  have hfields : (planFields env.evaluate2dspherePlan specs filter filter).executionPlan =
      .orUnionPlans subplans := by
    unfold planQuery at hplan
    split at hplan
    · cases hplan
    · exact hplan
  have htree : leavesOfAll subplans =
      (plannedLeaves env.evaluate2dspherePlan specs filter filter).map Prod.snd := by
    have h := leaves_planFields env.evaluate2dspherePlan specs filter filter
    rw [hfields] at h
    refine (h.resolve_left (by simp)).1.trans ?_
    rw [map_eq_flatMap]
    refine flatMap_congr fun leaf hleaf => leaves_of_reads ?_
    obtain ⟨read, hread, -⟩ := hleaves leaf hleaf
    rw [hread]
    rfl
  have hindex : ∀ leaf ∈ leavesOfAll subplans, IndexLeaf c w leaf := by
    rw [htree]
    simpa using fun plan query hleaf => hleaves (query, plan) hleaf
  have hevaluates : Evaluates env c w filter (leavesOfAll subplans) := by
    intro leaf hleaf doc hdoc
    obtain ⟨key, hkey⟩ := (hindex leaf hleaf).mem_visited hdoc
    exact heval key doc hkey
  refine ⟨_, (executePlan_tree geo hkeyed (.orUnionPlans subplans) hindex).mpr
    ⟨hevaluates, rfl, rfl⟩, nodup_gathered_union hkeyed hindex, fun doc => ?_⟩
  rw [mem_gathered hkeyed (.orUnionPlans subplans) hindex, ExecutionPlan.leaves]
  constructor
  · intro hreached
    exact ⟨hreached.stored hindex, hreached.choose_spec.2.2⟩
  · rintro ⟨⟨key, hdoc⟩, hselected⟩
    obtain ⟨leaf, hleaf, hquery⟩ := exists_plannedLeaf env.evaluate2dspherePlan specs filter filter
      hselected (evalQuery_eq_true_iff.mp hselected)
    refine ⟨leaf.2, ?_, hcomplete leaf hleaf key doc hdoc hquery, hselected⟩
    rw [htree]
    exact mem_map_of_mem hleaf

end

namespace Sample

def pair : RedbWorld :=
  run [create ascending, .statement (insert (.int32 1) (.string "y")),
    .statement (insert (.int32 2) (.string "x"))]

def nestedOr : Document :=
  [("$or", .array [.document [("a", .string "x")], .document [("$or", .array
      [.document [("a", .string "y")], .document [("a", .document [("$gt", .string "x")])]])]]),
    ("a", .document [("$gte", .string "x")])]

lemma pair_indexes : IndexesDerived env handle [ascending] pair :=
  ⟨by decide +kernel, by decide +kernel⟩

end Sample

section

open Sample

theorem or_union_exact_nested : ∃ found w, executePlan env handle noGeo nestedOr
      (planQuery env.evaluate2dspherePlan nestedOr [ascending]).executionPlan pair =
        (.ok found, w) ∧
      found.Nodup ∧ ∀ doc, doc ∈ found ↔
        (∃ key, docAt env (pair.committed handle.tableName) key = some doc) ∧
          evalQuery env doc nestedOr = .ok true := by
  have hkeyed : Keyed env (pair.committed handle.tableName) := by decide +kernel
  have hids : HoldsIds handle pair "a_1" :=
    pair_indexes.holdsIds (by decide +kernel) mem_cons_self (by decide)
  have hread : ∀ leaf ∈ plannedLeaves env.evaluate2dspherePlan [ascending] nestedOr nestedOr,
      leaf.2.reads = some ("a_1", [("a", .int32 1)]) := by decide +kernel
  have hcomplete : ∀ leaf ∈ plannedLeaves env.evaluate2dspherePlan [ascending] nestedOr nestedOr,
      ∀ r ∈ (pair.committed handle.tableName).rows,
        ∀ doc ∈ docAt env (pair.committed handle.tableName) r.1,
          evalQuery env doc leaf.1 = .ok true → doc ∈ visited env handle pair leaf.2 := by
    decide +kernel
  have hplan : (planQuery env.evaluate2dspherePlan nestedOr [ascending]).executionPlan =
      .orUnionPlans [.indexSeek "a_1" [("a", .int32 1)] [("a", .string "x")],
        .orUnionPlans [.indexSeek "a_1" [("a", .int32 1)] [("a", .string "y")],
          .indexScan "a_1" [("a", .int32 1)]]] := rfl
  have heval : ∀ key doc, docAt env (pair.committed handle.tableName) key = some doc →
      ∃ b, evalQuery env doc nestedOr = .ok b := forall_docAt_iff.mp (by decide +kernel)
  obtain ⟨found, hfound⟩ := or_union_exact noGeo hkeyed hplan
    (fun leaf hleaf => ⟨_, hread leaf hleaf, hids⟩)
    (fun leaf hleaf => forall_docAt_iff.mp (hcomplete leaf hleaf)) heval
  exact ⟨found, pair, hfound⟩

end

end Smongo
