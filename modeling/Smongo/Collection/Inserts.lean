import Smongo.Collection.Runs

/-!
# Identity and uniqueness of inserted documents

`insert_one` writes under the string of the id, whether or not the row exists.
-/

namespace Smongo

open Eff List OrderedTable Bytes Outcome

/-- The first that is not `Ok`, if there is one. -/
def Outcome.inTurn {ε : Type} : List (Outcome ε Unit) → Outcome ε Unit
  | [] => .ok ()
  | v :: vs => do
    v
    inTurn vs

lemma Outcome.inTurn_eq_ok {ε : Type} {vs : List (Outcome ε Unit)} :
    inTurn vs = .ok () ↔ ∀ v ∈ vs, v = .ok () := by
  induction vs with
  | nil => simp [inTurn]
  | cons v vs ih =>
    rw [inTurn, bind_eq_ok, forall_mem_cons, ← ih]
    exact ⟨fun ⟨⟨⟩, hv, hvs⟩ => ⟨hv, hvs⟩, fun h => ⟨(), h.1, h.2⟩⟩

section

variable {env : Env} {c : Handle} {w w' : RedbWorld} {document : Document} {internal : Bool}

def World.inserted (env : Env) (w : RedbWorld) (document : Document) : Document :=
  (identify env w.ticks document).1

/-! ### What refuses a document -/

/-- What writing a document into an index returns, by the rows that the index has. -/
def indexVerdict (env : Env) (doc : Document) (rows : Rows) (spec : IndexSpec) :
    Outcome CollectionError Unit := do
  if ← partialAdmits env doc spec.options then
    match resolveIndexType spec.keys spec.options with
    | .twoDSphere =>
      if (twodsphereIndexKey env doc spec.keys).isSome || spec.options.sparse then .ok ()
      else .error (twodsphereError spec.keys)
    | .bTree =>
      if spec.options.unique && hasPrefix rows (specIndexKey env doc spec) then
        .error (duplicateKeyError spec)
      else .ok ()
    | _ => .ok ()
  else .ok ()

lemma ignoreError_putRow (hw : w.session.inTransaction = true) (name : String) (key value : Bytes) :
    ignoreError (putRow name key value) w = (.ok (), w.buffer name (.put key value)) :=
  bind_of_ok (attempt_of_ok (putRow_apply hw name key value))

lemma forM_ignoreError_putRow {α : Type} (hw : w.session.inTransaction = true) (name : String)
    (key : α → Bytes) (value : Bytes) (xs : List α) :
    ∃ w', xs.forM (fun x => ignoreError (putRow name (key x) value)) w = (.ok (), w') ∧
      w'.ticks = w.ticks := by
  induction xs generalizing w with
  | nil => exact ⟨w, rfl, rfl⟩
  | cons x xs ih =>
    obtain ⟨w', hrun, hticks⟩ := @ih (w.buffer name (.put (key x) value)) hw
    exact ⟨w', (bind_of_ok (ignoreError_putRow hw _ _ _)).trans hrun, hticks⟩

lemma insertIntoIndexesSingle_apply (hw : w.session.inTransaction = true) (doc : Document)
    (idStr : String) (spec : IndexSpec) :
    ∃ w', insertIntoIndexesSingle env c doc idStr spec w =
        (indexVerdict env doc (RedbCursor.shown w.session (c.indexTable spec.name)) spec, w') ∧
      w'.ticks = w.ticks := by
  unfold insertIntoIndexesSingle indexVerdict
  cases partialAdmits env doc spec.options with
  | error e | panic => exact ⟨w, rfl, rfl⟩
  | ok admitted =>
    cases admitted with
    | false => exact ⟨w, rfl, rfl⟩
    | true =>
      have hread : (ofOutcome (.ok true) : RedbOp Bool) w = (.ok true, w) := rfl
      rw [bind_of_ok hread, ok_bind, if_pos rfl, if_pos rfl]
      cases resolveIndexType spec.keys spec.options with
      | vectorSearch | bitmap => exact ⟨w, rfl, rfl⟩
      | prefixed => exact ⟨_, ignoreError_putRow hw _ _ _, rfl⟩
      | text => exact forM_ignoreError_putRow hw _ _ _ _
      | bTree =>
        dsimp only
        rw [insertIntoBTree_apply hw]
        split
        · exact ⟨w, rfl, rfl⟩
        · exact ⟨_, rfl, rfl⟩
      | twoDSphere =>
        dsimp only
        unfold insertIntoTwoDSphere
        cases twodsphereIndexKey env doc spec.keys with
        | some key => exact ⟨_, putRow_apply hw _ _ _, rfl⟩
        | none => cases spec.options.sparse <;> exact ⟨w, rfl, rfl⟩

lemma shown_of_writing {P : String → Prop} (h : (writing P).rel w w')
    (hw : w.session.inTransaction = true) {name : String} (hname : ¬ P name) :
    RedbCursor.shown w'.session name = RedbCursor.shown w.session name := by
  have hview : w'.session.view name = w.session.view name := writing_view h hw hname
  rw [RedbCursor.shown, RedbCursor.shown, writing_db h hw, hview]

/-- The verdicts of the indexes on a document that is written to them. -/
def verdicts (env : Env) (c : Handle) (w : RedbWorld) (specs : List IndexSpec) (doc : Document) :
    List (Outcome CollectionError Unit) :=
  specs.map fun spec =>
    indexVerdict env doc (RedbCursor.shown w.session (c.indexTable spec.name)) spec

lemma forM_insertIntoIndexesSingle {specs : List IndexSpec}
    (hnames : (specs.map IndexSpec.name).Nodup) (hw : w.session.inTransaction = true)
    (doc : Document) (idStr : String) :
    ∃ w', specs.forM (insertIntoIndexesSingle env c doc idStr) w =
        (inTurn (verdicts env c w specs doc), w') ∧ w'.ticks = w.ticks := by
  induction specs generalizing w with
  | nil => exact ⟨w, rfl, rfl⟩
  | cons spec specs ih =>
    obtain ⟨hspec, hrest⟩ := nodup_cons.mp hnames
    obtain ⟨w₁, hsingle, hticks⟩ := @insertIntoIndexesSingle_apply env c w hw doc idStr spec
    have hrel := ((admits_writing env c (c.Maintains spec)).moves
      (uses_insertIntoIndexesSingle c.reads_all (fun _ ht => ht) doc idStr) w).1
    rw [hsingle] at hrel
    -- the rows of the other indexes stay as they are
    have hothers : verdicts env c w₁ specs doc = verdicts env c w specs doc :=
      map_congr_left fun s hs => by
        rw [shown_of_writing hrel hw fun h =>
          hspec ((c.ofIndex_indexTable.mp h.ofIndex) ▸ mem_map_of_mem hs)]
    rw [verdicts, map_cons, inTurn]
    cases hv : indexVerdict env doc (RedbCursor.shown w.session (c.indexTable spec.name)) spec with
    | error e => exact ⟨w₁, bind_of_error (hv ▸ hsingle), hticks⟩
    | panic => exact ⟨w₁, bind_of_panic (hv ▸ hsingle), hticks⟩
    | ok u =>
      obtain ⟨w', hrun, hticks'⟩ := ih hrest (writing_inTransaction hrel hw)
      rw [hothers] at hrun
      exact ⟨w', (bind_of_ok (hv ▸ hsingle)).trans hrun, hticks'.trans hticks⟩

/-- What appending the oplog entry of an inserted document returns. -/
def oplogVerdict (env : Env) (c : Handle) (tick : ℕ) (doc : Document) (internal : Bool) :
    Outcome CollectionError Unit :=
  match c.oplog with
  | none => .ok ()
  | some cfg =>
    if internal then .ok ()
    else
      match env.toWriter (oplogEntryToDocument
        (newOplogEntry env cfg tick "insert" ((doc.get "_id").getD .null) (some doc) {})) with
      | .error e => .error (.other ("Oplog serialization error: " ++ e))
      | .ok _ => .ok ()

lemma appendOplogIfEnabled_fst (w : RedbWorld) {tick : ℕ} (hticks : w.ticks = tick)
    (doc : Document) (internal : Bool) :
    (appendOplogIfEnabled env c "insert" ((doc.get "_id").getD .null) (some doc) internal none
      w).1 = oplogVerdict env c tick doc internal := by
  subst hticks
  unfold appendOplogIfEnabled oplogVerdict
  cases c.oplog with
  | none => cases internal <;> rfl
  | some cfg =>
    cases internal with
    | true => rfl
    | false =>
      have happend :=
        appendOplog_apply env cfg "insert" ((doc.get "_id").getD .null) (some doc) {} w
      rw [if_neg Bool.false_ne_true]
      dsimp only
      rw [if_neg Bool.false_ne_true]
      cases hentry : env.toWriter (oplogEntryToDocument (newOplogEntry env cfg w.ticks "insert"
          ((doc.get "_id").getD .null) (some doc) {})) with
      | error e =>
        rw [hentry] at happend
        rw [bind_of_error happend]
      | ok buf =>
        rw [hentry] at happend
        rw [bind_of_ok happend]
        rfl

lemma storeNew_fst {specs : List IndexSpec}
    (hnames : (specs.map IndexSpec.name).Nodup) (hw : w.session.inTransaction = true)
    (hlisted : listed env c w = .ok specs) {doc : Document}
    {idStr : String} (hid : extractIdString env doc = .ok idStr) (internal : Bool) :
    (storeNew env c doc ((doc.get "_id").getD .null) internal w).1 = (do
      inTurn (verdicts env c w specs doc)
      let _ ← serializeDocument env doc
      oplogVerdict env c w.ticks doc internal) := by
  let w₁ : RedbWorld := { w with indexCache := some specs }
  obtain ⟨w₂, hloop, hticks⟩ := @forM_insertIntoIndexesSingle env c w₁ specs hnames hw doc idStr
  have hindexes : insertIntoIndexes env c doc w = (inTurn (verdicts env c w specs doc), w₂) := by
    rw [insertIntoIndexes, bind_of_ok (listIndexes_of_listed hlisted), hid]
    exact hloop
  rw [storeNew]
  cases hv : inTurn (verdicts env c w specs doc) with
  | error e =>
    rw [bind_of_error (hv ▸ hindexes)]
    rfl
  | panic =>
    rw [bind_of_panic (hv ▸ hindexes)]
    rfl
  | ok u =>
    rw [bind_of_ok (hv ▸ hindexes), ok_bind]
    cases serializeDocument env doc with
    | error e | panic => rfl
    | ok bytes =>
      rw [hid]
      exact appendOplogIfEnabled_fst (w₂.written c.tableName (.put (utf8 idStr) bytes)) hticks
        doc internal


lemma ensureId_eq (env : Env) (doc : Document) (w : RedbWorld) : ensureId env doc w =
    (.ok (((identify env w.ticks doc).1.get "_id").getD .null, (identify env w.ticks doc).1),
      { w with ticks := (identify env w.ticks doc).2 }) := by
  unfold ensureId identify
  cases hid : doc.get "_id" with
  | some id =>
    simp only [hid]
    rfl
  | none =>
    simp only [Document.get_insert]
    rfl

lemma extractIdString_identify (env : Env) (ticks : ℕ) (doc : Document) :
    ∃ idStr, extractIdString env (identify env ticks doc).1 = .ok idStr := by
  unfold identify extractIdString
  cases hid : doc.get "_id" with
  | some id =>
    rw [hid]
    exact ⟨_, rfl⟩
  | none =>
    rw [Document.get_insert, if_pos rfl]
    exact ⟨_, rfl⟩

variable (env c) in
lemma validateDoc_cases (doc : Document) (w : RedbWorld) :
    (c.Accepts env doc ∧ validateDoc env c doc w = (.ok (), w)) ∨
      ¬ c.Accepts env doc ∧ ∃ msg, validateDoc env c doc w = (.error (.other msg), w) := by
  unfold validateDoc Handle.Accepts
  cases c.validator with
  | none => exact .inl ⟨nofun, rfl⟩
  | some schema =>
    cases hvalid : env.validateDocument doc schema with
    | ok _ =>
      refine .inl ⟨by simpa using hvalid, ?_⟩
      simp only [hvalid]
      rfl
    | error e =>
      refine .inr ⟨by simp [hvalid], "Validation failed: " ++ e, ?_⟩
      simp only [hvalid]
      rfl

/-- Nothing refuses the document: neither the validator nor an index nor the encoder, also of the
oplog entry. -/
structure Insertable (env : Env) (c : Handle) (w : RedbWorld) (document : Document)
    (internal : Bool) : Prop where
  accepted : c.Accepts env (w.inserted env document)
  indexed : ∀ spec ∈ w.specs env c, indexVerdict env (w.inserted env document)
    (w.committed (c.indexTable spec.name)).rows spec = .ok ()
  encoded : ∃ bytes, env.toWriter (w.inserted env document) = .ok bytes
  logged : oplogVerdict env c (identify env w.ticks document).2 (w.inserted env document)
    internal = .ok ()

def committedVerdicts (env : Env) (c : Handle) (w : RedbWorld) (doc : Document) :
    List (Outcome CollectionError Unit) :=
  (w.specs env c).map fun spec =>
    indexVerdict env doc (w.committed (c.indexTable spec.name)).rows spec

lemma insertOne_cases (hw : Settled env c w) (document : Document) (internal : Bool) :
    let doc := w.inserted env document
    (¬ c.Accepts env doc ∧ ∃ msg, (insertOne env c document internal w).1 = .error (.other msg)) ∨
    (c.Accepts env doc ∧ (insertOne env c document internal w).1 = (do
      inTurn (committedVerdicts env c w doc)
      let _ ← serializeDocument env doc
      oplogVerdict env c (identify env w.ticks document).2 doc internal
      .ok ⟨(doc.get "_id").getD .null⟩)) := by
  intro doc
  obtain ⟨idStr, hidStr⟩ : ∃ idStr, extractIdString env doc = .ok idStr :=
    extractIdString_identify env w.ticks document
  let w₁ : RedbWorld := { w.begin with ticks := (identify env w.ticks document).2 }
  have hinner : insertOneInner env c document internal w.begin =
      (validateDoc env c doc >>= fun _ => storeNew env c doc ((doc.get "_id").getD .null) internal
        >>= fun _ => pure ⟨(doc.get "_id").getD .null⟩ : RedbOp InsertOneResult) w₁ :=
    bind_of_ok (ensureId_eq env document w.begin)
  have hfst : (insertOne env c document internal w).1 =
      (insertOneInner env c document internal w.begin).1 := by
    rw [insertOne, withBatchedWrite_of_not_inTransaction _ hw.idle]
    rcases insertOneInner env c document internal w.begin with ⟨_ | _ | _, _⟩ <;> rfl
  rw [hfst, hinner]
  rcases validateDoc_cases env c doc w₁ with ⟨haccepts, hvalid⟩ | ⟨hrefuses, msg, hvalid⟩
  · refine .inr ⟨haccepts, ?_⟩
    have hverdicts : verdicts env c w₁ (w.specs env c) doc = committedVerdicts env c w doc :=
      map_congr_left fun spec _ => congrArg (indexVerdict env doc · spec) (shown_begin ..)
    have hstore := storeNew_fst (w := w₁) hw.nodup_names rfl hw.listed_begin hidStr internal
    rw [hverdicts] at hstore
    have hreturn : ((storeNew env c doc ((doc.get "_id").getD .null) internal >>= fun _ =>
        pure ⟨(doc.get "_id").getD .null⟩ : RedbOp InsertOneResult) w₁).1 =
        ((storeNew env c doc ((doc.get "_id").getD .null) internal w₁).1 >>= fun _ =>
          .ok ⟨(doc.get "_id").getD .null⟩) := fst_bind_ofOutcome _ _ _
    rw [bind_of_ok hvalid, hreturn, hstore]
    simp only [bind_assoc]
    rfl
  · rw [bind_of_error hvalid]
    exact .inl ⟨hrefuses, msg, rfl⟩


lemma insertOne_eq_ok_iff (hw : Settled env c w) :
    (∃ result, (insertOne env c document internal w).1 = .ok result) ↔
      Insertable env c w document internal := by
  rcases insertOne_cases hw document internal with ⟨hrefuses, msg, hrun⟩ | ⟨haccepts, hrun⟩ <;>
    rw [hrun]
  · exact iff_of_false (fun ⟨_, h⟩ => by cases h) fun h => hrefuses h.accepted
  · simp only [Outcome.bind_eq_ok]
    constructor
    · rintro ⟨_, ⟨⟩, hindexes, bytes, hbytes, ⟨⟩, hlog, -⟩
      rw [inTurn_eq_ok, committedVerdicts, forall_mem_map] at hindexes
      exact ⟨haccepts, hindexes, ⟨bytes, serializeDocument_eq_ok hbytes⟩, hlog⟩
    · rintro ⟨-, hindexes, ⟨bytes, hbytes⟩, hlog⟩
      refine ⟨_, (), ?_, bytes, by rw [serializeDocument, hbytes]; rfl, (), hlog, rfl⟩
      rwa [inTurn_eq_ok, committedVerdicts, forall_mem_map]

/-! ### Identity -/

lemma insertOne_committed (hsep : c.Separate) (hw : Settled env c w) {result : InsertOneResult}
    (hrun : insertOne env c document internal w = (.ok result, w')) :
    ∃ bytes, env.toWriter (w.inserted env document) = .ok bytes ∧ w'.committed c.tableName =
      (w.committed c.tableName).insert (idKey env (w.inserted env document)) bytes := by
  have hexec : (Statement.insertOne document internal).exec env c w =
      (.ok (.insertOne result), w') := bind_of_ok hrun
  obtain ⟨t, hbatch, rfl⟩ := exec_ok_of_idle hw.idle hexec
  obtain ⟨xs, ⟨ts, ys, hsub, hacts, rfl⟩, hwrote⟩ :=
    Statement.exec_performs hsep hw.nodup_names rfl hw.listed_begin hbatch
  obtain rfl := sublist_nil.mp hsub
  obtain rfl := forall₂_nil_left_iff.mp hacts
  obtain ⟨w₁, hone, hstill⟩ := hwrote
  obtain ⟨bytes, hbytes, hdata⟩ := hone.data
  refine ⟨bytes, hbytes, ?_⟩
  rw [committed_of_exec_ok hsep hw hbatch, Still.data hstill, hdata]
  rfl

lemma insertOne_rested (hw : w.session.inTransaction = false) {e : CollectionError}
    (hrun : insertOne env c document internal w = (.error e, w')) : Rested env c w w' := by
  have hexec : (Statement.insertOne document internal).exec env c w = (.error e, w') :=
    bind_of_error hrun
  exact exec_error_of_idle hw hexec

def IdFree (env : Env) (t : Table) (doc : Document) : Prop :=
  ∀ key stored, docAt env t key = some stored → stored.get "_id" ≠ doc.get "_id"

instance {t : Table} {doc : Document} : Decidable (IdFree env t doc) :=
  decidable_of_iff _ forall_docAt_iff

/-- Under a new `_id` every stored row stays; an `_id` that is taken is rejected and nothing
changes. -/
structure KeepsIdentity (env : Env) (c : Handle) (doc : Document)
    (r : Outcome CollectionError InsertOneResult) (w w' : RedbWorld) : Prop where
  kept : IdFree env (w.committed c.tableName) doc → ∀ key bytes,
    (w.committed c.tableName).get key = some bytes → (w'.committed c.tableName).get key = some bytes
  retrieved : IdFree env (w.committed c.tableName) doc → ∀ idStr stored,
    docAt env (w.committed c.tableName) (utf8 idStr) = some stored →
      fetchDocByIdStr env c idStr w' = (.ok (some stored), w')
  rejected : ¬ IdFree env (w.committed c.tableName) doc →
    (∃ e, r = .error e) ∧ w'.committed = w.committed

lemma docAt_of_kept {t t' : Table}
    (h : ∀ key bytes, t.get key = some bytes → t'.get key = some bytes) {key : Bytes}
    {doc : Document} (hdoc : docAt env t key = some doc) : docAt env t' key = some doc := by
  obtain ⟨bytes, hget, hread⟩ := docAt_eq_some_iff.mp hdoc
  exact docAt_eq_some_iff.mpr ⟨bytes, h key bytes hget, hread⟩

/-- An `insert_one` that does not panic keeps identities iff something refuses the document, or its
`_id` is free and no row has its string. -/
theorem insertOne_identity (hcodec : env.Codec) (hsep : c.Separate) (hw : Settled env c w)
    {r : Outcome CollectionError InsertOneResult}
    (hrun : insertOne env c document internal w = (r, w')) (hreturns : r ≠ .panic) :
    KeepsIdentity env c (w.inserted env document) r w w' ↔
      ¬ Insertable env c w document internal ∨
        IdFree env (w.committed c.tableName) (w.inserted env document) ∧
          (w.committed c.tableName).get (idKey env (w.inserted env document)) = none := by
  rw [← insertOne_eq_ok_iff hw, hrun]
  cases r with
  | panic => exact absurd rfl hreturns
  | error e =>
    have hsame := (insertOne_rested hw.idle hrun).committed
    refine iff_of_true ⟨fun _ key bytes hget => hsame ▸ hget, fun _ idStr stored hdoc => ?_,
      fun _ => ⟨⟨e, rfl⟩, hsame⟩⟩ (.inl fun ⟨_, h⟩ => by cases h)
    exact fetchDocByIdStr_of_docAt (hsame ▸ hdoc)
  | ok result =>
    obtain ⟨bytes, hbytes, hdata⟩ := insertOne_committed hsep hw hrun
    rw [or_iff_right (not_not_intro ⟨result, rfl⟩)]
    constructor
    · intro h
      have hfree : IdFree env (w.committed c.tableName) (w.inserted env document) := by
        by_contra htaken
        obtain ⟨⟨e, he⟩, -⟩ := h.rejected htaken
        cases he
      refine ⟨hfree, ?_⟩
      by_contra hsome
      obtain ⟨old, hold⟩ := Option.ne_none_iff_exists'.mp hsome
      -- the row that was overwritten would already hold the document
      have hkept := h.kept hfree _ old hold
      rw [hdata, get_insert, if_pos rfl] at hkept
      cases hkept
      exact hfree _ _ (docAt_eq_some_iff.mpr ⟨bytes, hold, hcodec.document hbytes⟩) rfl
    · rintro ⟨hfree, hnone⟩
      have hkept : ∀ key old, (w.committed c.tableName).get key = some old →
          (w'.committed c.tableName).get key = some old := by
        intro key old hget
        rw [hdata, get_insert]
        split
        · next hkey =>
          rw [hkey, hnone] at hget
          cases hget
        · exact hget
      exact ⟨fun _ => hkept, fun _ idStr stored hdoc =>
        fetchDocByIdStr_of_docAt (docAt_of_kept hkept hdoc), fun htaken => absurd hfree htaken⟩

end

section

open Sample

theorem insertOne_identity_second : let w := indexed ascending (.int32 1) (.string "x")
    let document := doc (.int32 2) (.string "x")
    let r := insertOne env handle document false w
    r.1 = .ok ⟨.int32 2⟩ ∧ KeepsIdentity env handle document r.1 w r.2 := by
  intro w document r
  have hok : r.1 = .ok ⟨.int32 2⟩ := rfl
  have hw : Settled env handle w :=
    (indexed_inStep (by decide) (by decide) (by decide)).settled
  have hrun : insertOne env handle document false w = (r.1, r.2) := rfl
  refine ⟨hok, (insertOne_identity codec separate hw hrun (by simp [hok])).mpr (.inr ⟨?_, ?_⟩)⟩
  · decide +kernel
  · decide +kernel

/-- The ids `1` and `"1"` have the same string, and a second document with the id `1` is accepted.
-/
theorem insertOne_overwrites : let w := run [.statement (insert (.int32 1) (.string "x"))]
    let other := insertOne env handle (doc (.string "1") (.string "x")) false w
    let again := insertOne env handle (doc (.int32 1) (.string "y")) false w
    (IdFree env (w.committed "t") (doc (.string "1") (.string "x")) ∧ other.1 = .ok ⟨.string "1"⟩ ∧
      ¬ KeepsIdentity env handle (doc (.string "1") (.string "x")) other.1 w other.2) ∧
    ¬ IdFree env (w.committed "t") (doc (.int32 1) (.string "y")) ∧ again.1 = .ok ⟨.int32 1⟩ ∧
      ¬ KeepsIdentity env handle (doc (.int32 1) (.string "y")) again.1 w again.2 := by
  intro w other again
  have hfree : IdFree env (w.committed "t") (doc (.string "1") (.string "x")) := by decide
  have htaken : ¬ IdFree env (w.committed "t") (doc (.int32 1) (.string "y")) := by decide
  have hagain : again.1 = .ok ⟨.int32 1⟩ := rfl
  refine ⟨⟨hfree, rfl, fun h => ?_⟩, htaken, hagain, fun h => ?_⟩
  · have hstored : docAt env (w.committed "t") (utf8 "1") =
        some (doc (.int32 1) (.string "x")) := rfl
    exact absurd (docAt_of_kept (h.kept hfree) hstored) (by decide)
  · obtain ⟨⟨e, he⟩, -⟩ := h.rejected htaken
    cases he

end

/-! ### Unique indexes -/

section

variable {env : Env} {c : Handle} {w w' : RedbWorld} {document : Document} {internal : Bool}

def Violates {α : Type} (r : Outcome CollectionError α) : Prop :=
  ∃ msg, r = .error (.uniqueConstraintViolation msg)

lemma violates_bind_iff {α β : Type} {m : Outcome CollectionError α}
    {f : α → Outcome CollectionError β} (hf : ∀ a, ¬ Violates (f a)) :
    Violates (m >>= f) ↔ Violates m := by
  cases m with
  | ok a => exact iff_of_false (hf a) fun ⟨_, h⟩ => by cases h
  | error e => exact exists_congr fun msg => by rw [error_bind, error.injEq, error.injEq]
  | panic => exact iff_of_false (fun ⟨_, h⟩ => by cases h) fun ⟨_, h⟩ => by cases h

/-- The indexes are plain: only a row that begins with the key is in the way. -/
lemma violates_inTurn_iff {doc : Document} {rows : IndexSpec → Rows} {specs : List IndexSpec}
    (hplain : ∀ spec ∈ specs, spec.Plain) :
    Violates (inTurn (specs.map fun spec => indexVerdict env doc (rows spec) spec)) ↔
      ∃ spec ∈ specs, spec.options.unique = true ∧
        ∃ r ∈ rows spec, extractIndexKey doc spec.keys <+: r.1 := by
  induction specs with
  | nil => exact iff_of_false (fun ⟨_, h⟩ => by cases h) (by simp)
  | cons spec specs ih =>
    rw [forall_mem_cons] at hplain
    obtain ⟨⟨hfilter, hcollation, htree⟩, hrest⟩ := hplain
    have hverdict : indexVerdict env doc (rows spec) spec =
        if spec.options.unique && hasPrefix (rows spec) (extractIndexKey doc spec.keys) then
          .error (duplicateKeyError spec)
        else .ok () := by
      rw [indexVerdict, partialAdmits, hfilter, ok_bind, if_pos rfl,
        show resolveIndexType spec.keys spec.options = .bTree from htree,
        specIndexKey_of_collation hcollation]
    simp only [mem_cons, or_and_right, exists_or, exists_eq_left]
    rw [map_cons, inTurn, hverdict, ← hasPrefix_eq_true, ← Bool.and_eq_true]
    split
    · next htaken => exact iff_of_true ⟨_, rfl⟩ (.inl htaken)
    · next hfree => rw [ok_bind, ih hrest, or_iff_right hfree]

/-- `insert_one` reports a violation iff the document is valid and its key begins a row of a unique
index. -/
lemma insertOne_violates_iff (hw : Settled env c w)
    (hplain : ∀ spec ∈ w.specs env c, spec.Plain) :
    Violates (insertOne env c document internal w).1 ↔
      c.Accepts env (w.inserted env document) ∧ ∃ spec ∈ w.specs env c,
        spec.options.unique = true ∧ ∃ r v, (w.committed (c.indexTable spec.name)).get r = some v ∧
          extractIndexKey (w.inserted env document) spec.keys <+: r := by
  have hrows : ∀ spec : IndexSpec, (∃ r ∈ (w.committed (c.indexTable spec.name)).rows,
      extractIndexKey (w.inserted env document) spec.keys <+: r.1) ↔
      ∃ r v, (w.committed (c.indexTable spec.name)).get r = some v ∧
        extractIndexKey (w.inserted env document) spec.keys <+: r := by
    intro spec
    simp only [Prod.exists, ← get_eq_some_iff]
  have hother : ∀ {α : Type} msg, ¬ Violates (.error (.other msg) : Outcome _ α) :=
    fun msg ⟨_, h⟩ => by cases h
  rcases insertOne_cases hw document internal with ⟨hrefuses, msg, hrun⟩ | ⟨haccepts, hrun⟩ <;>
    rw [hrun]
  · exact iff_of_false (hother msg) fun h => hrefuses h.1
  · rw [violates_bind_iff, committedVerdicts, violates_inTurn_iff hplain, and_iff_right haccepts]
    · simp only [hrows]
    · intro _
      rw [violates_bind_iff]
      · rw [serializeDocument]
        cases env.toWriter (w.inserted env document) <;> exact fun ⟨_, h⟩ => by cases h
      · intro _
        rw [violates_bind_iff (fun _ ⟨_, h⟩ => by cases h), oplogVerdict]
        cases c.oplog with
        | none => exact fun ⟨_, h⟩ => by cases h
        | some cfg =>
          dsimp only
          split_ifs
          · exact fun ⟨_, h⟩ => by cases h
          · split
            · exact hother _
            · exact fun ⟨_, h⟩ => by cases h

/-- Some stored document is equal to the document on all fields of a unique index; a missing
field is equal to a missing field. -/
def Duplicates (env : Env) (c : Handle) (w : RedbWorld) (doc : Document) : Prop :=
  ∃ spec ∈ w.specs env c, spec.options.unique = true ∧
    ∃ key stored, docAt env (w.committed c.tableName) key = some stored ∧
      ∀ f ∈ spec.keys, bsonEq (getValue doc f.1) (getValue stored f.1) = true

instance {doc : Document} : Decidable (Duplicates env c w doc) :=
  decidable_of_iff (∃ spec ∈ w.specs env c, spec.options.unique = true ∧
    ∃ r ∈ (w.committed c.tableName).rows, ∃ stored ∈ docAt env (w.committed c.tableName) r.1,
      ∀ f ∈ spec.keys, bsonEq (getValue doc f.1) (getValue stored f.1) = true)
    (exists_congr fun spec => and_congr_right fun _ => and_congr_right fun _ =>
      exists_docAt_iff (P := fun _ stored =>
        ∀ f ∈ spec.keys, bsonEq (getValue doc f.1) (getValue stored f.1) = true))

/-- In a unique index, the encoded key of the document begins the encoded key and id of a stored
document. -/
def BeginsRow (env : Env) (c : Handle) (w : RedbWorld) (doc : Document) : Prop :=
  ∃ spec ∈ w.specs env c, spec.options.unique = true ∧
    ∃ key stored, docAt env (w.committed c.tableName) key = some stored ∧
      extractIndexKey doc spec.keys <+: extractIndexKey stored spec.keys ++ key

lemma insertOne_violates_iff_beginsRow (h : InStep env c w)
    (hplain : ∀ spec ∈ w.specs env c, spec.Plain) :
    Violates (insertOne env c document internal w).1 ↔
      c.Accepts env (w.inserted env document) ∧ BeginsRow env c w (w.inserted env document) := by
  rw [insertOne_violates_iff h.settled hplain]
  refine and_congr_right fun _ => exists_congr fun spec => and_congr_right fun hmem =>
    and_congr_right fun _ => ?_
  have hspec := hplain spec hmem
  have hderived := h.sound.derived spec (mem_plain.mpr ⟨hmem, hspec⟩) hspec.2.2
  constructor
  · rintro ⟨r, key, hget, hpre⟩
    obtain ⟨stored, hstored, -, rfl⟩ := (hderived r key).mp hget
    rw [hspec.row] at hpre
    exact ⟨key, stored, hstored, hpre⟩
  · rintro ⟨key, stored, hstored, hpre⟩
    refine ⟨spec.row env stored key, key, (hderived _ key).mpr
      ⟨stored, hstored, hspec.covers stored, rfl⟩, ?_⟩
    rwa [hspec.row]

/-- The unique constraint holds iff duplicates are accepted and begin a row, and nothing else begins
one. -/
theorem insertOne_unique_iff (h : InStep env c w) (hplain : ∀ spec ∈ w.specs env c, spec.Plain) :
    (Violates (insertOne env c document internal w).1 ↔
      Duplicates env c w (w.inserted env document)) ↔
    (Duplicates env c w (w.inserted env document) →
      c.Accepts env (w.inserted env document) ∧ BeginsRow env c w (w.inserted env document)) ∧
    (c.Accepts env (w.inserted env document) → BeginsRow env c w (w.inserted env document) →
      Duplicates env c w (w.inserted env document)) := by
  rw [insertOne_violates_iff_beginsRow h hplain]
  constructor
  · intro hiff
    exact ⟨hiff.mpr, fun haccepted hrow => hiff.mp ⟨haccepted, hrow⟩⟩
  · rintro ⟨hfound, honly⟩
    exact ⟨fun hviolates => honly hviolates.1 hviolates.2, hfound⟩

end

section

open Sample

theorem insertOne_unique_iff_duplicate : let w := indexed unique (.int32 1) (.string "x")
    let document := doc (.int32 2) (.string "x")
    Duplicates env handle w document ∧ Violates (insertOne env handle document false w).1 := by
  intro w document
  have h : InStep env handle w :=
    indexed_inStep (by decide) (by decide) (by decide)
  have hspecs : w.specs env handle = [unique] := rfl
  have hplain : ∀ spec ∈ w.specs env handle, spec.Plain := by decide
  have hduplicates : Duplicates env handle w document := by decide
  have haccepted : handle.Accepts env document := nofun
  have hstored : docAt env (w.committed handle.tableName) (utf8 "1") =
      some (doc (.int32 1) (.string "x")) := rfl
  have hbegins : extractIndexKey document unique.keys <+:
      extractIndexKey (doc (.int32 1) (.string "x")) unique.keys ++ utf8 "1" := by
    decide +kernel
  have hrow : BeginsRow env handle w document :=
    ⟨unique, hspecs.symm ▸ mem_singleton_self _, rfl, _, _, hstored, hbegins⟩
  have hiff : (Violates (insertOne env handle document false w).1 ↔
      Duplicates env handle w (w.inserted env document)) ↔ _ := insertOne_unique_iff h hplain
  exact ⟨hduplicates, (hiff.mpr ⟨fun _ => ⟨haccepted, hrow⟩,
    fun _ _ => hduplicates⟩).mpr hduplicates⟩

/-- The encoding of `"x"` begins that of `"xy"`, and equal numbers of different types differ. -/
theorem insertOne_unique_wrong :
    (Violates (insertOne env handle (doc (.int32 2) (.string "x")) false
        (indexed unique (.int32 1) (.string "xy"))).1 ∧
      ¬ Duplicates env handle (indexed unique (.int32 1) (.string "xy"))
        (doc (.int32 2) (.string "x"))) ∧
    (insertOne env handle (doc (.int32 2) (.int64 5)) false
        (indexed unique (.int32 1) (.int32 5))).1 = .ok ⟨.int32 2⟩ ∧
      Duplicates env handle (indexed unique (.int32 1) (.int32 5)) (doc (.int32 2) (.int64 5)) := by
  have hviolates : (insertOne env handle (doc (.int32 2) (.string "x")) false
      (indexed unique (.int32 1) (.string "xy"))).1 = .error (duplicateKeyError unique) := by
    decide +kernel
  exact ⟨⟨⟨_, hviolates⟩, by decide⟩, by decide, by decide⟩

end

end Smongo
