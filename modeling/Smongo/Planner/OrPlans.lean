import Smongo.Planner.Full
import Smongo.Query.Conditions

/-!
# Plans for `$or`

Each branch is planned as a query of its own, merged with the other conditions, and may be an
`$or` in turn.
-/

namespace Smongo

open List

mutual

def ExecutionPlan.leaves : ExecutionPlan → List ExecutionPlan
  | .orUnionPlans subplans => leavesOfAll subplans
  | plan => [plan]
termination_by structural plan => plan

def leavesOfAll : List ExecutionPlan → List ExecutionPlan
  | [] => []
  | sub :: rest => sub.leaves ++ leavesOfAll rest
termination_by structural plans => plans

end

lemma leavesOfAll_append (as bs : List ExecutionPlan) :
    leavesOfAll (as ++ bs) = leavesOfAll as ++ leavesOfAll bs := by
  induction as with
  | nil => rfl
  | cons a as ih => rw [cons_append, leavesOfAll, leavesOfAll, ih, append_assoc]

lemma leaves_of_reads {plan : ExecutionPlan} (h : plan.reads.isSome) : plan.leaves = [plan] := by
  cases plan with
  | orUnionPlans subplans => cases h
  | _ => rfl

/-! ### Merged queries -/

def mergedQuery (base branch : Document) : Document :=
  branch.foldl (fun d f => d.insert f.1 f.2) base

lemma Document.mem_insert {d : Document} {k : String} {v : Bson} {f : String × Bson}
    (h : f ∈ d.insert k v) : f = (k, v) ∨ f ∈ d := by
  induction d with
  | nil => exact .inl (mem_singleton.mp h)
  | cons g d ih =>
    rw [Document.insert] at h
    split at h
    · rcases mem_cons.mp h with rfl | h
      · exact .inl rfl
      · exact .inr (mem_cons_of_mem _ h)
    · rcases mem_cons.mp h with rfl | h
      · exact .inr mem_cons_self
      · rcases ih h with rfl | h
        · exact .inl rfl
        · exact .inr (mem_cons_of_mem _ h)

lemma mem_mergedQuery {base branch : Document} {f : String × Bson}
    (h : f ∈ mergedQuery base branch) : f ∈ base ∨ f ∈ branch := by
  induction branch generalizing base with
  | nil => exact .inl h
  | cons g branch ih =>
    have hinserted : f ∈ mergedQuery (base.insert g.1 g.2) branch := h
    rcases ih hinserted with h | h
    · rcases Document.mem_insert h with rfl | h
      · exact .inr mem_cons_self
      · exact .inl h
    · exact .inr (mem_cons_of_mem _ h)

section

variable (geoPlan : Document → IndexSpec → Option QueryPlan) (indexes : List IndexSpec)

mutual

/-- The queries that are planned for `query`, with the plan for each. -/
def plannedLeaves (query : Document) : Document → List (Document × ExecutionPlan)
  | [] => [(query, (planSimpleQuery geoPlan query indexes).executionPlan)]
  | (k, v) :: rest => if k = "$or" then plannedOrValue query v else plannedLeaves query rest
termination_by structural fields => fields

def plannedOrValue (query : Document) : Bson → List (Document × ExecutionPlan)
  | .array branches => plannedBranches (query.filter fun f => f.1 ≠ "$or") branches
  | _ => [(query, (planSimpleQuery geoPlan query indexes).executionPlan)]
termination_by structural value => value

def plannedBranches (base : Document) : List Bson → List (Document × ExecutionPlan)
  | [] => []
  | .document branch :: rest =>
    plannedLeaves (mergedQuery base branch) branch ++ plannedBranches base rest
  | _ :: rest => plannedBranches base rest
termination_by structural branches => branches

end

variable {env : Env} {doc : Document}

lemma evalQuery_or (value : Bson) :
    evalQuery env doc [("$or", value)] = evalOr env doc value := by
  exact Outcome.bind_self _

mutual

theorem exists_plannedLeaf (query fields : Document) (hquery : evalQuery env doc query = .ok true)
    (hfields : ∀ f ∈ fields, evalQuery env doc [f] = .ok true) :
    ∃ leaf ∈ plannedLeaves geoPlan indexes query fields, evalQuery env doc leaf.1 = .ok true := by
  cases fields with
  | nil => exact ⟨_, mem_singleton_self _, hquery⟩
  | cons f fields =>
    obtain ⟨k, v⟩ := f
    obtain ⟨hf, hrest⟩ := forall_mem_cons.mp hfields
    rw [plannedLeaves]
    split
    · next hk =>
      subst hk
      rw [evalQuery_or] at hf
      exact exists_plannedOrValue query v hquery hf
    · exact exists_plannedLeaf query fields hquery hrest
termination_by structural fields

theorem exists_plannedOrValue (query : Document) (value : Bson)
    (hquery : evalQuery env doc query = .ok true) (hvalue : evalOr env doc value = .ok true) :
    ∃ leaf ∈ plannedOrValue geoPlan indexes query value, evalQuery env doc leaf.1 = .ok true := by
  cases value with
  | array branches =>
    refine exists_plannedBranch (query.filter fun f => f.1 ≠ "$or") branches ?_ hvalue
    intro f hf
    exact evalQuery_eq_true_iff.mp hquery f (mem_filter.mp hf).1
  | _ => exact ⟨_, mem_singleton_self _, hquery⟩
termination_by structural value

theorem exists_plannedBranch (base : Document) (branches : List Bson)
    (hbase : ∀ f ∈ base, evalQuery env doc [f] = .ok true)
    (hbranches : evalOrItems env doc branches = .ok true) :
    ∃ leaf ∈ plannedBranches geoPlan indexes base branches,
      evalQuery env doc leaf.1 = .ok true := by
  cases branches with
  | nil => simp [evalOrItems] at hbranches
  | cons value rest =>
    cases value with
    | document branch =>
      rw [evalOrItems, Outcome.bind_eq_ok] at hbranches
      obtain ⟨holds, hbranch, hrest⟩ := hbranches
      cases holds with
      | true =>
        have hfields := evalQuery_eq_true_iff.mp hbranch
        have hmerged : evalQuery env doc (mergedQuery base branch) = .ok true := by
          rw [evalQuery_eq_true_iff]
          intro f hf
          rcases mem_mergedQuery hf with hf | hf
          · exact hbase f hf
          · exact hfields f hf
        obtain ⟨leaf, hleaf, heval⟩ :=
          exists_plannedLeaf (mergedQuery base branch) branch hmerged hfields
        exact ⟨leaf, mem_append_left _ hleaf, heval⟩
      | false =>
        obtain ⟨leaf, hleaf, heval⟩ := exists_plannedBranch base rest hbase hrest
        exact ⟨leaf, mem_append_right _ hleaf, heval⟩
    | _ => simp [evalOrItems] at hbranches
termination_by structural branches

end

def branchPlan (base branch : Document) : QueryPlan :=
  if (mergedQuery base branch).isEmpty then .scan "Empty query requires full collection scan"
  else planFields geoPlan indexes (mergedQuery base branch) branch

lemma planOrBranches_document (base branch : Document) (rest : List Bson)
    (subplans : List ExecutionPlan) :
    planOrBranches geoPlan indexes base (.document branch :: rest) subplans =
        .scan "$or branch falls back to collection scan" ∨
      (branchPlan geoPlan indexes base branch).executionPlan ≠ .collectionScan ∧
        planOrBranches geoPlan indexes base (.document branch :: rest) subplans =
          planOrBranches geoPlan indexes base rest
            (subplans ++ [(branchPlan geoPlan indexes base branch).executionPlan]) := by
  generalize hplan : planOrBranches geoPlan indexes base (.document branch :: rest) subplans = plan
  unfold planOrBranches at hplan
  dsimp only at hplan
  split at hplan
  · exact .inl hplan.symm
  · next hne => exact .inr ⟨hne, hplan.symm⟩

/-- Planned by itself, and not as a scan of the collection. -/
def ServedAlone (leaf : Document × ExecutionPlan) : Prop :=
  leaf.2 = (planSimpleQuery geoPlan leaf.1 indexes).executionPlan ∧ leaf.2 ≠ .collectionScan

lemma leaves_planSimpleQuery (query : Document) :
    (planSimpleQuery geoPlan query indexes).executionPlan = .collectionScan ∨
      (planSimpleQuery geoPlan query indexes).executionPlan.leaves =
        [(query, (planSimpleQuery geoPlan query indexes).executionPlan)].flatMap (·.2.leaves) ∧
      ∀ leaf ∈ [(query, (planSimpleQuery geoPlan query indexes).executionPlan)],
        ServedAlone geoPlan indexes leaf := by
  by_cases hscan : (planSimpleQuery geoPlan query indexes).executionPlan = .collectionScan
  · exact .inl hscan
  · refine .inr ⟨(flatMap_singleton _ _).symm, fun leaf hleaf => ?_⟩
    rw [mem_singleton.mp hleaf]
    exact ⟨rfl, hscan⟩

mutual

/-- A plan that is no collection scan has the leaves of what is planned, none of them such a scan.
-/
theorem leaves_planFields (query fields : Document) :
    (planFields geoPlan indexes query fields).executionPlan = .collectionScan ∨
      (planFields geoPlan indexes query fields).executionPlan.leaves =
        (plannedLeaves geoPlan indexes query fields).flatMap (·.2.leaves) ∧
      ∀ leaf ∈ plannedLeaves geoPlan indexes query fields, ServedAlone geoPlan indexes leaf := by
  cases fields with
  | nil => exact leaves_planSimpleQuery geoPlan indexes query
  | cons f fields =>
    obtain ⟨k, v⟩ := f
    rw [plannedLeaves, planFields]
    split
    · exact leaves_planOrValue query v
    · exact leaves_planFields query fields
termination_by structural fields

theorem leaves_planOrValue (query : Document) (value : Bson) :
    (planOrValue geoPlan indexes query value).executionPlan = .collectionScan ∨
      (planOrValue geoPlan indexes query value).executionPlan.leaves =
        (plannedOrValue geoPlan indexes query value).flatMap (·.2.leaves) ∧
      ∀ leaf ∈ plannedOrValue geoPlan indexes query value, ServedAlone geoPlan indexes leaf := by
  cases value with
  | array branches => exact leaves_planOrBranches (query.filter fun f => f.1 ≠ "$or") branches []
  | _ => exact leaves_planSimpleQuery geoPlan indexes query
termination_by structural value

theorem leaves_planOrBranches (base : Document) (branches : List Bson)
    (subplans : List ExecutionPlan) :
    (planOrBranches geoPlan indexes base branches subplans).executionPlan = .collectionScan ∨
      (planOrBranches geoPlan indexes base branches subplans).executionPlan.leaves =
        leavesOfAll subplans ++
          (plannedBranches geoPlan indexes base branches).flatMap (·.2.leaves) ∧
      ∀ leaf ∈ plannedBranches geoPlan indexes base branches, ServedAlone geoPlan indexes leaf := by
  cases branches with
  | nil =>
    unfold planOrBranches
    split
    · exact .inl rfl
    · exact .inr ⟨(append_nil _).symm, nofun⟩
  | cons value rest =>
    cases value with
    | document branch =>
      have hsub := leaves_planFields (mergedQuery base branch) branch
      have hrest := leaves_planOrBranches base rest
        (subplans ++ [(branchPlan geoPlan indexes base branch).executionPlan])
      rcases planOrBranches_document geoPlan indexes base branch rest subplans with
        hscan | ⟨hne, heq⟩
      · rw [hscan]
        exact .inl rfl
      · rw [heq, plannedBranches]
        refine hrest.imp_right fun ⟨hrest, hserved⟩ => ?_
        rw [hrest, leavesOfAll_append, leavesOfAll, leavesOfAll, append_nil, flatMap_append,
          append_assoc]
        rw [branchPlan] at hne ⊢
        split at hne
        · exact absurd rfl hne
        · next hmerged =>
          obtain ⟨hleaves, hall⟩ := hsub.resolve_left hne
          rw [if_neg hmerged, hleaves]
          exact ⟨rfl, fun leaf hleaf => (mem_append.mp hleaf).elim (hall leaf) (hserved leaf)⟩
    | _ => exact .inl rfl
termination_by structural branches

end

/-! ### Plans over B-trees -/

def ReadsListed (leaf : ExecutionPlan) : Prop :=
  ∃ spec ∈ indexes, spec.PlannedAsBTree ∧ leaf.reads = some (spec.name, spec.keys)

variable {indexes}

lemma Offered.of_bTree {spec : IndexSpec} (hspec : spec.PlannedAsBTree) {query : Document}
    {plan : QueryPlan} (h : Offered geoPlan query spec plan) :
    plan.executionPlan.reads = some (spec.name, spec.keys) := by
  cases h with
  | geo hkeys hplan =>
    rw [hspec.1] at hkeys
    cases hkeys
  | seek _ hplan | scan _ hplan =>
    rw [hplan]
    rfl
  | bitmap hkeys htype hplan | prefixed hkeys htype hplan | text htype hplan | vector htype hplan =>
    rcases hspec.2 with h | h
    all_goals
      rw [h] at htype
      cases htype

variable (hindexes : ∀ spec ∈ indexes, spec.PlannedAsBTree)
include hindexes

/-- Over B-trees a plan is a scan of the collection, or all its leaves go through indexes. -/
lemma planQuery_leaves (query : Document) :
    (planQuery geoPlan query indexes).executionPlan = .collectionScan ∨
      ∀ leaf ∈ (planQuery geoPlan query indexes).executionPlan.leaves,
        ReadsListed indexes leaf := by
  unfold planQuery
  split
  · exact .inl rfl
  · refine (leaves_planFields geoPlan indexes query query).imp_right ?_
    rintro ⟨hleaves, hserved⟩ leaf hleaf
    rw [hleaves] at hleaf
    obtain ⟨planned, hplanned, hleaf⟩ := mem_flatMap.mp hleaf
    obtain ⟨hplan, hne⟩ := hserved planned hplanned
    rw [hplan] at hne hleaf
    rcases planSimpleQuery_mem geoPlan planned.1 indexes with hscan | ⟨spec, hmem, hplan⟩
    · rw [hscan] at hne
      exact absurd rfl hne
    · have hread := (evaluateSpec_offered hplan).of_bTree geoPlan (hindexes spec hmem)
      rw [leaves_of_reads (by rw [hread]; rfl), mem_singleton] at hleaf
      exact ⟨spec, hmem, hindexes spec hmem, hleaf ▸ hread⟩

end

end Smongo
