import Smongo.Collection.Unions

/-!
# Text scans

The documents are filed under the words of the indexed fields, and those under every word of the
search string are kept.
-/

namespace Smongo

open Eff List

section

variable {env : Env} {t : Table} {fields : List String} {docs : List Document} {token id : String}

namespace TextIndex

variable (env fields) in
def terms (doc : Document) : List String := fields.flatMap (fieldTokens env doc)

variable (env fields token) in
def posting (doc : Document) : Option String :=
  if token ∈ terms env fields doc then docId doc else none

lemma posting_eq_some {doc : Document} :
    posting env fields token doc = some id ↔
      token ∈ terms env fields doc ∧ docId doc = some id := by
  unfold posting
  split <;> simp_all

variable (idx : TextIndex)

lemma fields_insertDoc (doc : Document) : (idx.insertDoc env doc).fields = idx.fields := by
  unfold insertDoc
  split <;> rfl

lemma postings_insertDoc (doc : Document) : (idx.insertDoc env doc).postings token =
      idx.postings token ++ (posting env idx.fields token doc).toList := by
  unfold insertDoc posting terms
  cases docId doc with
  | none => simp
  | some id => by_cases h : token ∈ idx.fields.flatMap (fieldTokens env doc) <;> simp [h]

lemma postings_foldl : (docs.foldl (insertDoc env) idx).postings token =
      idx.postings token ++ docs.filterMap (posting env idx.fields token) := by
  induction docs generalizing idx with
  | nil => simp
  | cons doc docs ih =>
    rw [foldl_cons, ih, postings_insertDoc, fields_insertDoc, append_assoc, filterMap_cons]
    cases posting env idx.fields token doc <;> rfl

lemma postings_build :
    (build env docs fields).postings token = docs.filterMap (posting env fields token) := by
  rw [build, postings_foldl]
  exact nil_append _

lemma idStringOf_of_docId {doc : Document} (h : docId doc = some id) :
    idStringOf env doc = id := by
  unfold docId at h
  unfold idStringOf
  split at h
  case h_5 => cases h
  all_goals
    rename_i hid
    rw [hid]
    exact Option.some.inj h

end TextIndex

open TextIndex

lemma Keyed.eq_of_docId (h : Keyed env t) {doc doc' : Document} (hdoc : doc ∈ documentsIn env t)
    (hdoc' : doc' ∈ documentsIn env t) (hid : idStringOf env doc = id)
    (hid' : docId doc' = some id) : doc = doc' := by
  obtain ⟨key, hkey⟩ := mem_documentsIn.mp hdoc
  obtain ⟨key', hkey'⟩ := mem_documentsIn.mp hdoc'
  exact h.eq_of_idStringOf hkey hkey' (hid.trans (idStringOf_of_docId hid').symm)

lemma Keyed.nodup_postings (h : Keyed env t) :
    ((documentsIn env t).filterMap (posting env fields token)).Nodup := by
  refine List.Pairwise.filterMap _ (fun _ _ hne => hne) ?_
  refine h.nodup_documentsIn.pairwise_of_forall_ne ?_
  intro doc hdoc doc' hdoc' hne id hid id' hid' heq
  subst heq
  apply hne
  exact h.eq_of_docId hdoc hdoc' (idStringOf_of_docId (posting_eq_some.mp hid).2)
    (posting_eq_some.mp hid').2

lemma length_le_count_flatMap_iff {α : Type} (lists : α → List String)
    (hnodup : ∀ x, (lists x).Nodup) (xs : List α) :
    xs.length ≤ (xs.flatMap lists).count id ↔ ∀ x ∈ xs, id ∈ lists x := by
  have hone : ∀ x, (lists x).count id ≤ 1 := fun x => nodup_iff_count_le_one.mp (hnodup x) id
  have hle : ∀ ys : List α, (ys.flatMap lists).count id ≤ ys.length := by
    intro ys
    induction ys with
    | nil => exact le_rfl
    | cons y ys ih =>
      have := hone y
      simp only [flatMap_cons, count_append, length_cons]
      omega
  induction xs with
  | nil => simp
  | cons x xs ih =>
    have := hone x
    have := hle xs
    simp only [forall_mem_cons, ← ih]
    rw [← count_pos_iff, flatMap_cons, count_append, length_cons]
    omega

variable (env fields) in
def TextHit (text : String) (doc : Document) : Prop :=
  docId doc ≠ none ∧ tokenize env text ≠ [] ∧
    ∀ token ∈ tokenize env text, token ∈ terms env fields doc

instance instDecidableTextHit (text : String) :
    DecidablePred (TextHit env fields text) := fun _ => inferInstanceAs (Decidable (_ ∧ _ ∧ _))

lemma Keyed.mem_search (h : Keyed env t) {doc : Document} (hdoc : doc ∈ documentsIn env t)
    (text : String) :
    idStringOf env doc ∈ (build env (documentsIn env t) fields).search env text ↔
      TextHit env fields text doc := by
  let postings := fun token => (documentsIn env t).filterMap (posting env fields token)
  have hpostings : (build env (documentsIn env t) fields).postings = postings :=
    funext fun token => postings_build
  have hmem : ∀ token, idStringOf env doc ∈ postings token ↔
      docId doc ≠ none ∧ token ∈ terms env fields doc := by
    intro token
    rw [mem_filterMap]
    constructor
    · rintro ⟨doc', hdoc', hid⟩
      obtain ⟨hterm, hid⟩ := posting_eq_some.mp hid
      cases h.eq_of_docId hdoc hdoc' rfl hid
      exact ⟨Option.ne_none_iff_exists'.mpr ⟨_, hid⟩, hterm⟩
    · rintro ⟨hsome, hterm⟩
      obtain ⟨id, hid⟩ := Option.ne_none_iff_exists'.mp hsome
      refine ⟨doc, hdoc, posting_eq_some.mpr ⟨hterm, ?_⟩⟩
      rw [hid, idStringOf_of_docId hid]
  rw [search, hpostings]
  cases htokens : tokenize env text with
  | nil => simp [TextHit, htokens]
  | cons token tokens =>
    rw [TextHit, htokens, isEmpty_cons, if_neg Bool.false_ne_true, mem_filter,
      mem_dedup, decide_eq_true_iff,
      length_le_count_flatMap_iff postings fun token => h.nodup_postings]
    simp only [mem_flatMap, hmem]
    constructor
    · rintro ⟨⟨token', -, hsome, -⟩, hall⟩
      exact ⟨hsome, cons_ne_nil _ _, fun token' htoken' => (hall token' htoken').2⟩
    · rintro ⟨hsome, -, hall⟩
      exact ⟨⟨token, mem_cons_self, hsome, hall token mem_cons_self⟩,
        fun token' htoken' => ⟨hsome, hall token' htoken'⟩⟩

end

section

variable {env : Env} {c : Handle} {w : RedbWorld} {filter : Document} {fields : List String}

def withoutText (filter : Document) : Document := filter.filter fun f => f.1 ≠ "$text"

lemma keepIds_apply {ids : List String} {doc : Document}
    (h : extractIdString env doc = .ok (idStringOf env doc)) (out : List Document) :
    (keepIds env ids filter out doc) w =
      (if idStringOf env doc ∈ ids then keepStep env filter out doc else .ok out, w) := by
  rw [keepIds, h]
  refine (bind_of_ok (ofOutcome_apply w _)).trans ?_
  by_cases hmem : idStringOf env doc ∈ ids
  · rw [if_pos hmem, if_pos (contains_iff_mem.mpr hmem)]
    cases filter with
    | nil => rfl
    | cons f filter => exact pushIfPasses_apply out doc w
  · rw [if_neg hmem, if_neg (mt contains_iff_mem.mp hmem)]
    rfl

lemma selected_nil (docs : List Document) : selected env [] docs = docs :=
  filter_eq_self.mpr fun _ _ => rfl

lemma collectTextIndexScan_apply (hlegible : Legible env c w) {text : String}
    (hsearch : textSearchString (filter.get "$text") = some text) :
    collectTextIndexScan env c filter fields w = (keep env (withoutText filter)
        ((documentsIn env (w.view c.tableName)).filter (TextHit env fields text)), w) := by
  have hall : collectCollectionScan env c [] w =
      (.ok (documentsIn env (w.view c.tableName)), w) := by
    rw [collectCollectionScan_apply hlegible, keep_of_ok fun doc _ => ⟨true, rfl⟩, selected_nil]
  have hids : ∀ doc ∈ documentsIn env (w.view c.tableName),
      extractIdString env doc = .ok (idStringOf env doc) := by
    intro doc hdoc
    obtain ⟨key, hkey⟩ := mem_documentsIn.mp hdoc
    exact (hlegible.keyed.extractIdString hkey).1
  let ids := (TextIndex.build env (documentsIn env (w.view c.tableName)) fields).search env text
  let hit := Option.guard fun doc => decide (TextHit env fields text doc)
  have hnone : ∀ doc ∈ documentsIn env (w.view c.tableName), hit doc = none → ∀ out,
      (keepIds env ids (withoutText filter) out doc) w = (.ok out, w) := by
    intro doc hdoc hhit out
    have hfalse := Option.guard_eq_none_iff.mp hhit
    rw [keepIds_apply (hids doc hdoc),
      if_neg (mt (hlegible.keyed.mem_search hdoc text).mp (of_decide_eq_false hfalse))]
  have hsome : ∀ doc ∈ documentsIn env (w.view c.tableName), ∀ doc', hit doc = some doc' → ∀ out,
      (keepIds env ids (withoutText filter) out doc) w =
        (keepStep env (withoutText filter) out doc', w) := by
    intro doc hdoc doc' hhit out
    obtain ⟨heq, htrue⟩ := Option.guard_eq_some_iff.mp hhit
    rw [keepIds_apply (hids doc hdoc),
      if_pos ((hlegible.keyed.mem_search hdoc text).mpr (of_decide_eq_true htrue)), heq]
  rw [collectTextIndexScan, hsearch]
  refine (bind_of_ok hall).trans ?_
  refine (foldlM_keepStep_filterMap hnone hsome []).trans ?_
  rw [filterMap_eq_filter, foldlM_keepStep_nil]

lemma evalQuery_withoutText (doc filter : Document) : evalQuery env doc filter = .ok true ↔
    (∀ f ∈ filter, f.1 = "$text" → evalText env doc f.2 = .ok true) ∧
      evalQuery env doc (withoutText filter) = .ok true := by
  have htext : ∀ f : String × Bson, f.1 = "$text" →
      evalQuery env doc [f] = evalText env doc f.2 := by
    rintro ⟨key, condition⟩ rfl
    exact Outcome.bind_self _
  rw [evalQuery_eq_true_iff, evalQuery_eq_true_iff]
  constructor
  · intro h
    refine ⟨fun f hf hkey => ?_, fun f hf => h f (mem_filter.mp hf).1⟩
    rw [← htext f hkey]
    exact h f hf
  · rintro ⟨hfound, hrest⟩ f hf
    by_cases hkey : f.1 = "$text"
    · rw [htext f hkey]
      exact hfound f hf hkey
    · exact hrest f (mem_filter.mpr ⟨hf, decide_eq_true hkey⟩)

/-- Two filters select the same of a part and of all exactly if that part makes the difference. -/
lemma selected_filter_perm_iff {docs : List Document} {rest : Document} (p : Document → Prop)
    [DecidablePred p] :
    (selected env rest (docs.filter p)).Perm (selected env filter docs) ↔
      ∀ doc ∈ docs, (p doc ∧ evalQuery env doc rest = .ok true ↔
        evalQuery env doc filter = .ok true) := by
  constructor
  · intro hperm doc hdoc
    have hmem := hperm.mem_iff (a := doc)
    simpa [mem_selected, hdoc] using hmem
  · intro h
    apply List.Perm.of_eq
    rw [selected, selected, filter_filter]
    apply filter_congr
    intro doc hdoc
    rw [Bool.and_comm, ← Bool.decide_and]
    exact decide_eq_decide.mpr (h doc hdoc)

/-- A text scan is right iff no filter fails and the documents filed under all tokens are those for
which `$text` holds. -/
theorem text_scan_perm_iff (geo : ExecutionPlan → Document → Op RedbSession (List Document))
    {specs : List IndexSpec} (hlisted : listed env c w = .ok specs) (hlegible : Legible env c w)
    {indexName : String} (hplan : (planQuery env.evaluate2dspherePlan filter specs).executionPlan =
      .textIndexScan indexName fields) :
    (∃ found reference,
        (find env c (fun plan filter => executePlan env c geo filter plan) filter w).1 = .ok found ∧
        (collectCollectionScan env c filter w).1 = .ok reference ∧ found.Perm reference) ↔
      ∀ key doc, docAt env (w.view c.tableName) key = some doc →
        (∃ b, evalQuery env doc filter = .ok b) ∧
        ∀ text, textSearchString (filter.get "$text") = some text →
          (TextHit env fields text doc → ∃ b, evalQuery env doc (withoutText filter) = .ok b) ∧
          (evalQuery env doc (withoutText filter) = .ok true → (TextHit env fields text doc ↔
              ∀ f ∈ filter, f.1 = "$text" → evalText env doc f.2 = .ok true)) := by
  let w₁ : World RedbSession := { w with indexCache := some specs }
  have hlegible₁ : Legible env c w₁ := ⟨hlegible.keyed, hlegible.committed, hlegible.shown⟩
  have hfind : (find env c (fun plan filter => executePlan env c geo filter plan) filter w).1 =
      (collectTextIndexScan env c filter fields w₁).1 := by
    rw [find_materialized hlisted (by rw [hplan]; exact id), hplan]
    rfl
  have hscan : (collectCollectionScan env c filter w).1 =
      keep env filter (documentsIn env (w.view c.tableName)) := by
    rw [collectCollectionScan_apply hlegible]
  have hdocs : ∀ doc ∈ documentsIn env (w.view c.tableName), ∃ key,
      docAt env (w.view c.tableName) key = some doc := fun doc hdoc => mem_documentsIn.mp hdoc
  rw [hfind, hscan]
  cases hsearch : textSearchString (filter.get "$text") with
  | none =>
    -- there is nothing to search for, and the collection is scanned
    have hsame : (collectTextIndexScan env c filter fields w₁).1 =
        keep env filter (documentsIn env (w.view c.tableName)) := by
      rw [collectTextIndexScan, hsearch]
      exact congrArg Prod.fst (collectCollectionScan_apply hlegible₁)
    rw [hsame]
    simp only [keep_eq_ok]
    constructor
    · rintro ⟨found, reference, ⟨heval, -⟩, -⟩ key doc hdoc
      exact ⟨heval doc (mem_documentsIn.mpr ⟨key, hdoc⟩), nofun⟩
    · intro h
      have heval : ∀ doc ∈ documentsIn env (w.view c.tableName),
          ∃ b, evalQuery env doc filter = .ok b := by
        intro doc hdoc
        obtain ⟨key, hkey⟩ := hdocs doc hdoc
        exact (h key doc hkey).1
      exact ⟨_, _, ⟨heval, rfl⟩, ⟨heval, rfl⟩, .refl _⟩
  | some text =>
    have hfound : (collectTextIndexScan env c filter fields w₁).1 = keep env (withoutText filter)
          ((documentsIn env (w.view c.tableName)).filter (TextHit env fields text)) :=
      congrArg Prod.fst (collectTextIndexScan_apply hlegible₁ hsearch)
    rw [hfound]
    simp only [keep_eq_ok]
    constructor
    · rintro ⟨found, reference, ⟨hrest, rfl⟩, ⟨heval, rfl⟩, hperm⟩ key doc hkey
      have hdoc := mem_documentsIn.mpr ⟨key, hkey⟩
      refine ⟨heval doc hdoc, ?_⟩
      rintro _ ⟨⟩
      refine ⟨fun hhit => hrest doc (mem_filter.mpr ⟨hdoc, decide_eq_true hhit⟩), ?_⟩
      intro hpasses
      have hiff := (selected_filter_perm_iff _).mp hperm doc hdoc
      rw [evalQuery_withoutText doc filter] at hiff
      simpa [hpasses] using hiff
    · intro h
      refine ⟨_, _, ⟨?_, rfl⟩, ⟨?_, rfl⟩, (selected_filter_perm_iff _).mpr ?_⟩
      · intro doc hdoc
        obtain ⟨hdoc, hhit⟩ := mem_filter.mp hdoc
        obtain ⟨key, hkey⟩ := hdocs doc hdoc
        exact ((h key doc hkey).2 text rfl).1 (of_decide_eq_true hhit)
      · intro doc hdoc
        obtain ⟨key, hkey⟩ := hdocs doc hdoc
        exact (h key doc hkey).1
      · intro doc hdoc
        obtain ⟨key, hkey⟩ := hdocs doc hdoc
        rw [evalQuery_withoutText doc filter]
        exact and_congr_left ((h key doc hkey).2 text rfl).2

end

namespace Sample

def textual : IndexSpec := ⟨"a_text", [("a", .string "text")], {}⟩

def textualEnv : Env := Env.ofLists [doc (.int32 1) (.string "red fox")] [textual]

def textualWorld : RedbWorld :=
  [.statement (insert (.int32 1) (.string "red fox")), create textual].foldl
    (Call.step textualEnv handle) start

def search (text : String) : Document := [("$text", .document [("$search", .string text)])]

end Sample

section

open Sample

/-- Whole words in another case and another order. -/
theorem text_scan_perm_iff_words : ∃ found reference,
      (find textualEnv handle (fun plan filter => executePlan textualEnv handle noGeo filter plan)
        (search "Fox red") textualWorld).1 = .ok found ∧
      (collectCollectionScan textualEnv handle (search "Fox red") textualWorld).1 = .ok reference ∧
      found.Perm reference := by
  have hlisted : listed textualEnv handle textualWorld = .ok [textual] := rfl
  have hlegible : Legible textualEnv handle textualWorld :=
    ⟨by decide +kernel, by decide +kernel, by decide +kernel⟩
  have hplan : (planQuery textualEnv.evaluate2dspherePlan (search "Fox red")
      [textual]).executionPlan = .textIndexScan "a_text" ["a"] := rfl
  have heval : ∀ key doc, docAt textualEnv (textualWorld.view handle.tableName) key = some doc →
        ∃ b, evalQuery textualEnv doc (search "Fox red") = .ok b :=
    forall_docAt_iff.mp (by decide +kernel)
  have hwords : ∀ key doc, docAt textualEnv (textualWorld.view handle.tableName) key = some doc →
        (TextHit textualEnv ["a"] "Fox red" doc ↔ ∀ f ∈ search "Fox red", f.1 = "$text" →
          evalText textualEnv doc f.2 = .ok true) :=
    forall_docAt_iff.mp (by decide +kernel)
  refine (text_scan_perm_iff noGeo hlisted hlegible hplan).mpr ?_
  intro key doc hdoc
  refine ⟨heval key doc hdoc, ?_⟩
  rintro _ ⟨⟩
  exact ⟨fun _ => ⟨true, rfl⟩, fun _ => hwords key doc hdoc⟩

/-- Part of a word is found by the scan of the collection only. -/
theorem text_scan_misses : listed textualEnv handle textualWorld = .ok [textual] ∧
      (planQuery textualEnv.evaluate2dspherePlan (search "fo") [textual]).executionPlan =
        .textIndexScan "a_text" ["a"] ∧
      (find textualEnv handle (fun plan filter => executePlan textualEnv handle noGeo filter plan)
        (search "fo") textualWorld).1 = .ok [] ∧
      (collectCollectionScan textualEnv handle (search "fo") textualWorld).1 =
        .ok [doc (.int32 1) (.string "red fox")] := by
  refine ⟨rfl, rfl, rfl, rfl⟩

end

end Smongo
