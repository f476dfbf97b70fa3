import Smongo.Collection.Runs

/-!
# Validators

A handle with a validator checks what it inserts or upserts, but not what an update makes of a
stored document.
-/

namespace Smongo

open List

def AllValid (env : Env) (schema : Document) (t : Table) : Prop :=
  ∀ k d, docAt env t k = some d → env.validateDocument d schema = .ok ()

instance (env : Env) (schema : Document) (t : Table) : Decidable (AllValid env schema t) :=
  decidable_of_iff (∀ r ∈ t.rows, ∀ d ∈ docAt env t r.1, env.validateDocument d schema = .ok ())
    (forall_docAt_iff (P := fun _ d => env.validateDocument d schema = .ok ()))

def Statement.KeepsValid (env : Env) (c : Handle) (schema : Document) (w : RedbWorld)
    (st : Statement) : Prop :=
  ∀ t ∈ st.targets env c w, ∀ new, st.Touches env t (.replace t.1 t.2 new) →
    env.validateDocument new schema = .ok ()

def Call.KeepsValid (env : Env) (c : Handle) (schema : Document) (w : RedbWorld) : Call → Prop
  | statement st => st.KeepsValid env c schema w.begin
  | _ => True

section

variable {env : Env} {c : Handle} {specs : List IndexSpec} {schema : Document}
  {w w' : RedbWorld} {call : Call}

lemma WroteAll.stored_within (hcodec : env.Codec) {xs : List DocWrite}
    (h : WroteAll env c specs xs w w') {W : Bytes → Document → Prop}
    (hxs : ∀ x ∈ xs, x.Within env W)
    (hstored : ∀ k d, docAt env (w.view c.tableName) k = some d → W k d) :
    ∀ k d, docAt env (w'.view c.tableName) k = some d → W k d := by
  induction xs generalizing w with
  | nil =>
    have hstill : Still env c specs w w' := h
    rw [hstill.data]
    exact hstored
  | cons x xs ih =>
    obtain ⟨w₁, hx, hrest⟩ := h
    apply ih hrest fun y hy => hxs y (mem_cons_of_mem x hy)
    exact hx.data.stored_within hcodec (hxs x mem_cons_self) hstored

lemma Statement.exec_valid (hcodec : env.Codec) (hsep : c.Separate)
    (hnames : (specs.map IndexSpec.name).Nodup) (hw : w.session.inTransaction = true)
    (hlisted : listed env c w = .ok specs) (hvalidator : c.validator = some schema)
    {st : Statement} {reply : Reply} (hrun : st.exec env c w = (.ok reply, w'))
    (hvalid : AllValid env schema (w.view c.tableName)) (hkeeps : st.KeepsValid env c schema w) :
    AllValid env schema (w'.view c.tableName) := by
  obtain ⟨haccepts, xs, ⟨ts, ys, hsub, hacts, rfl⟩, hwrote⟩ :=
    exec_performs_accepts hsep hnames hw hlisted hrun
  apply hwrote.stored_within hcodec
    (W := fun _ d => env.validateDocument d schema = .ok ()) _ hvalid
  intro x hx
  rcases mem_append.mp hx with hx | hx
  · obtain ⟨t, ht, htouch⟩ := touched_mem hacts hx
    rcases htouch.cases with ⟨new, rfl⟩ | rfl
    · exact hkeeps t (hsub.subset ht) new htouch
    · trivial
  · obtain ⟨doc, hdoc, rfl⟩ := mem_map.mp hx
    exact haccepts doc hdoc schema hvalidator

lemma Call.Does.valid (hcodec : env.Codec) (hsep : c.Separate) (hw : Settled env c w)
    (hvalidator : c.validator = some schema)
    (hvalid : AllValid env schema (w.committed c.tableName))
    (hkeeps : call.KeepsValid env c schema w) (h : call.Does env c w w') :
    AllValid env schema (w'.committed c.tableName) := by
  cases h with
  | rested hrested =>
    rw [hrested.committed]
    exact hvalid
  | wrote hexec =>
    rw [committed_of_exec_ok hsep hw hexec]
    exact Statement.exec_valid hcodec hsep hw.nodup_names rfl hw.listed_begin hvalidator hexec
      hvalid hkeeps
  | built _ hbuilt =>
    rw [hbuilt.data]
    exact hvalid
  | dropped hsteps =>
    rw [data_of_dropSteps hsteps]
    exact hvalid

/-- Stored documents stay valid in every run whose updates make valid documents of those that they
select. -/
theorem validator_invariant (hcodec : env.Codec) (hsep : c.Separate)
    (hvalidator : c.validator = some schema) (hw : Settled env c w)
    (hvalid : AllValid env schema (w.committed c.tableName)) {calls : List Call}
    (hrun : Along (Call.step env c)
      (fun w call => call.Returns env c w ∧ call.KeepsValid env c schema w) w calls) :
    AllValid env schema ((calls.foldl (Call.step env c) w).committed c.tableName) := by
  have hinv := hrun.invariant
    (I := fun w => Settled env c w ∧ AllValid env schema (w.committed c.tableName)) ?_ ⟨hw, hvalid⟩
  · exact hinv.2
  · rintro w call ⟨hsettled, hvalid⟩ ⟨hreturns, hkeeps⟩
    have hdoes := Call.does_step hsep hsettled hreturns
    exact ⟨hdoes.settled hcodec hsep hsettled,
      hdoes.valid hcodec hsep hsettled hvalidator hvalid hkeeps⟩

end

namespace Sample

def strictEnv : Env :=
  { env with
    validateDocument := fun d _ =>
      match d.get "a" with
      | some (.string _) => .ok ()
      | _ => .error "a: expected string" }

def stringSchema : Document :=
  [("properties", .document [("a", .document [("bsonType", .string "string")])])]

def strictHandle : Handle := { handle with validator := some stringSchema }

lemma strictEnv_codec : strictEnv.Codec := ⟨codec.document, codec.spec⟩

lemma strictHandle_separate : strictHandle.Separate :=
  ⟨separate.data_index, separate.data_metadata, separate.oplog_data, separate.oplog_metadata,
    separate.oplog_index⟩

lemma start_settled : Settled strictEnv strictHandle start :=
  World.New.settled ⟨start_new.idle, start_new.cache, start_new.data, start_new.metadata,
    start_new.index⟩

def insertThenSet (a : Bson) : List Call :=
  [.statement (insert (.int32 1) (.string "x")), .statement (set (.int32 1) "a" a)]

end Sample

section

open Sample

theorem validator_invariant_set :
    let w := (insertThenSet (.string "y")).foldl (Call.step strictEnv strictHandle) start
    docAt strictEnv (w.committed "t") (Bytes.utf8 "1") = some (doc (.int32 1) (.string "y")) ∧
      AllValid strictEnv stringSchema (w.committed "t") := by
  refine ⟨rfl, validator_invariant strictEnv_codec strictHandle_separate rfl
    start_settled (by decide +kernel) ?_⟩
  refine ⟨⟨by decide +kernel, nofun⟩, ⟨by decide +kernel, ?_⟩, trivial⟩
  have htargets : (set (.int32 1) "a" (.string "y")).targets strictEnv strictHandle
      (Call.step strictEnv strictHandle start
        (.statement (insert (.int32 1) (.string "x")))).begin =
      [(Bytes.utf8 "1", doc (.int32 1) (.string "x"))] := rfl
  intro t ht new htouch
  rw [htargets, mem_singleton] at ht
  subst ht
  obtain ⟨tick, new', hnew, hx⟩ := htouch
  cases hx
  cases hnew
  rfl

/-- An update stores a number in the field that must be a string. -/
theorem update_stores_invalid :
    let w := (insertThenSet (.int32 5)).foldl (Call.step strictEnv strictHandle) start
    AllValid strictEnv stringSchema (start.committed "t") ∧
      ¬AllValid strictEnv stringSchema (w.committed "t") := by
  decide +kernel

end

end Smongo
