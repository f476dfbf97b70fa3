import Smongo.Collection.Runs

/-!
# Indexes that writes leave alone

Building an index writes rows whatever its type is; later writes maintain two types only.
-/

namespace Smongo

open List OrderedTable

section

variable {env : Env} {spec : IndexSpec} {t : Table} {rows : Rows} {r key : Bytes}

lemma IndexSpec.get_rebuilt (h : (spec.rebuilt env rows t).get r = some key) :
    t.get r = some key ∨ ∃ row ∈ rows, ∃ doc, env.fromReader row.2 = .ok doc ∧
      idKey env doc = key ∧ spec.row env doc key = r := by
  induction rows generalizing t with
  | nil => exact .inl h
  | cons row rows ih =>
    rw [rebuilt, foldl_cons] at h
    rcases ih h with hget | ⟨row', hmem, hrow'⟩
    · cases hdoc : env.fromReader row.2 with
      | error e =>
        rw [hdoc] at hget
        exact .inl hget
      | ok doc =>
        rw [hdoc] at hget
        dsimp only at hget
        rw [added] at hget
        split at hget
        · rw [get_insert] at hget
          split at hget
          · next hr =>
            cases hget
            exact .inr ⟨row, mem_cons_self, doc, hdoc, rfl, hr.symm⟩
          · exact .inl hget
        · exact .inl hget
    · exact .inr ⟨row', mem_cons_of_mem _ hmem, hrow'⟩

variable (hkeyed : Keyed env t)
include hkeyed

lemma IndexSpec.get_rebuilt_keyed (h : (spec.rebuilt env t.rows .empty).get r = some key) :
    ∃ doc, docAt env t key = some doc ∧ spec.row env doc key = r := by
  rcases get_rebuilt h with hempty | ⟨row, hmem, doc, hread, hkey, hrow⟩
  · cases hempty
  · have hget := get_eq_some_iff.mpr hmem
    have hdoc : docAt env t row.1 = some doc := docAt_eq_some_iff.mpr ⟨row.2, hget, hread⟩
    refine ⟨doc, ?_, hrow⟩
    rwa [← hkey, ← hkeyed.key_eq hdoc]

lemma IndexSpec.nodup_rebuilt : ((spec.rebuilt env t.rows .empty).rows.map Prod.snd).Nodup := by
  refine pairwise_map.mpr ((nodup_rows _).imp_of_mem ?_)
  intro row row' hmem hmem' hne hkey
  obtain ⟨doc, hdoc, hrow⟩ := get_rebuilt_keyed hkeyed (get_eq_some_iff.mpr hmem)
  obtain ⟨doc', hdoc', hrow'⟩ := get_rebuilt_keyed hkeyed (get_eq_some_iff.mpr hmem')
  rw [hkey, hdoc'] at hdoc
  cases hdoc
  rw [hkey, hrow'] at hrow
  exact hne (Prod.ext hrow.symm hkey)

lemma IndexSpec.holdsIds_rebuilt :
    ∀ row ∈ (spec.rebuilt env t.rows .empty).rows, ∃ idStr, row.2 = Bytes.utf8 idStr := by
  intro row hmem
  obtain ⟨doc, hdoc, -⟩ := get_rebuilt_keyed hkeyed (get_eq_some_iff.mpr hmem)
  obtain ⟨bytes, hget, -⟩ := docAt_eq_some_iff.mp hdoc
  obtain ⟨-, idStr, -, -, hkey⟩ := hkeyed row.2 bytes hget
  exact ⟨idStr, hkey⟩

end

section

variable {env : Env} {c : Handle} {w w' : RedbWorld} {call : Call} {spec : IndexSpec}

def IndexSpec.Unmaintained (c : Handle) (spec : IndexSpec) : Prop :=
  ¬ c.Maintains spec (c.indexTable spec.name)

lemma Settled.not_maintains (hw : Settled env c w) (hmem : spec ∈ w.specs env c)
    (hspec : spec.Unmaintained c) :
    ∀ spec' ∈ w.specs env c, ¬ c.Maintains spec' (c.indexTable spec.name) := by
  intro spec' hmem' hmaintains
  have hname := c.ofIndex_indexTable.mp hmaintains.ofIndex
  have hsame : spec' = spec := inj_on_of_nodup_map hw.nodup_names hmem' hmem hname
  exact hspec (hsame ▸ hmaintains)

lemma index_of_dropSteps (hsteps : Relation.ReflTransGen (DropStep env c) w w')
    (hw : Settled env c w) (hmem : spec ∈ w'.specs env c) :
    spec ∈ w.specs env c ∧
      w'.committed (c.indexTable spec.name) = w.committed (c.indexTable spec.name) := by
  induction hsteps with
  | refl => exact ⟨hmem, rfl⟩
  | tail hsteps hstep ih =>
    rcases hstep with hrested | ⟨name, hdropped⟩
    · rw [World.specs, hrested.committed] at hmem
      rw [hrested.committed]
      exact ih hmem
    · obtain ⟨hmem, hname⟩ := hdropped.mem_specs (settled_of_dropSteps hsteps hw) hmem
      rw [hdropped.index, if_neg hname]
      exact ih hmem

lemma Call.Does.unmaintained (hcodec : env.Codec) (hsep : c.Separate) (hw : Settled env c w)
    (h : call.Does env c w w') (hmem : spec ∈ w'.specs env c) (hspec : spec.Unmaintained c)
    (hkeys : is2dsphereKeys spec.keys = false) :
    (spec ∈ w.specs env c ∧
      w'.committed (c.indexTable spec.name) = w.committed (c.indexTable spec.name)) ∨
    ∃ keys options, call = .createIndex keys options ∧ spec = newSpec spec.name keys options ∧
      w'.committed (c.indexTable spec.name) =
        spec.uncollated.rebuilt env (w.committed c.tableName).rows .empty := by
  cases h with
  | rested hrested =>
    rw [World.specs, hrested.committed] at hmem
    rw [hrested.committed]
    exact .inl ⟨hmem, rfl⟩
  | wrote hexec =>
    rw [specs_of_exec_ok hsep hw hexec] at hmem
    obtain ⟨xs, -, hwrote⟩ := Statement.exec_performs hsep hw.nodup_names rfl hw.listed_begin hexec
    refine .inl ⟨hmem, ?_⟩
    rw [committed_of_exec_ok hsep hw hexec, hwrote.others (hw.not_maintains hmem hspec), view_begin]
  | built hname hbuilt =>
    rcases hbuilt.mem_specs hcodec hw hmem with rfl | ⟨hmem, hne⟩
    · refine .inr ⟨_, _, rfl, rfl, ?_⟩
      rw [hbuilt.rebuilt hkeys]
      exact congrArg _ (hw.unlisted _ hname.2)
    · exact .inl ⟨hmem, hbuilt.others spec.name hne⟩
  | dropped hsteps => exact .inl (index_of_dropSteps hsteps hw hmem)

end

section

variable {env : Env} {c : Handle} {w : RedbWorld} {calls : List Call}

/-- In the run, a call built the index, and its table holds the rows of the documents that were
stored before that call. -/
def BuiltIn (env : Env) (c : Handle) (w : RedbWorld) (calls : List Call) (spec : IndexSpec)
    (idx : Table) : Prop :=
  ∃ before keys options after, calls = before ++ .createIndex keys options :: after ∧
    spec = newSpec spec.name keys options ∧
    idx = spec.uncollated.rebuilt env
      ((before.foldl (Call.step env c) w).committed c.tableName).rows .empty

lemma BuiltIn.concat {spec : IndexSpec} {idx : Table} (h : BuiltIn env c w calls spec idx)
    (call : Call) : BuiltIn env c w (calls ++ [call]) spec idx := by
  obtain ⟨before, keys, options, after, rfl, hspec, hidx⟩ := h
  exact ⟨before, keys, options, after ++ [call], by simp, hspec, hidx⟩

structure HoldsBuilt (env : Env) (c : Handle) (w : RedbWorld) (calls : List Call)
    (spec : IndexSpec) (idx : Table) : Prop where
  built : BuiltIn env c w calls spec idx
  nodup : (idx.rows.map Prod.snd).Nodup
  ids : ∀ row ∈ idx.rows, ∃ idStr, row.2 = Bytes.utf8 idStr

/-- The run reaches a state between calls in which each unmaintained index holds what it was built
with. -/
structure Reaches (env : Env) (c : Handle) (w : RedbWorld) (calls : List Call)
    (w' : RedbWorld) : Prop where
  eq : w' = calls.foldl (Call.step env c) w
  settled : Settled env c w'
  keyed : Keyed env (w'.committed c.tableName)
  holds : ∀ spec ∈ w'.specs env c, spec.Unmaintained c → is2dsphereKeys spec.keys = false →
    HoldsBuilt env c w calls spec (w'.committed (c.indexTable spec.name))

lemma World.New.reaches (h : w.New c) : Reaches env c w [] w where
  eq := rfl
  settled := h.settled
  keyed := h.keyed
  holds spec hmem := by
    rw [World.specs, h.metadata] at hmem
    cases hmem

lemma Reaches.step (hcodec : env.Codec) (hsep : c.Separate) {w' : RedbWorld} {call : Call}
    (h : Reaches env c w calls w') (hreturns : call.Returns env c w') (hspares : call.SparesId) :
    Reaches env c w (calls ++ [call]) (call.step env c w') := by
  have hdoes := Call.does_step hsep h.settled hreturns
  refine ⟨?_, hdoes.settled hcodec hsep h.settled,
    hdoes.keyed hcodec hsep h.settled h.keyed hspares.keepsIds, fun spec hmem hspec hkeys => ?_⟩
  · rw [h.eq, foldl_append, foldl_cons, foldl_nil]
  · rcases hdoes.unmaintained hcodec hsep h.settled hmem hspec hkeys with
      ⟨hmem', hsame⟩ | ⟨keys, options, rfl, hnew, hbuilt⟩
    · obtain ⟨hin, hnodup, hids⟩ := h.holds spec hmem' hspec hkeys
      rw [hsame]
      exact ⟨hin.concat call, hnodup, hids⟩
    · rw [hbuilt]
      refine ⟨⟨calls, keys, options, [], rfl, hnew, ?_⟩, IndexSpec.nodup_rebuilt h.keyed,
        IndexSpec.holdsIds_rebuilt h.keyed⟩
      rw [← h.eq]

lemma reaches_of_run (hcodec : env.Codec) (hsep : c.Separate) (hnew : w.New c)
    (hrun : Along (Call.step env c) (fun w call => call.Returns env c w ∧ call.SparesId) w calls) :
    Reaches env c w calls (calls.foldl (Call.step env c) w) :=
  Along.history (I := Reaches env c w)
    (fun _ _ _ hdone hguard => hdone.step hcodec hsep hguard.1 hguard.2) [] hnew.reaches hrun

end

end Smongo
