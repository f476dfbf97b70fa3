import Smongo.Aggregation.Accumulators
import Smongo.Lib.GroupBy

/-!
# `$group`

Documents are grouped by the texts of their keys: numbers as floats, arrays and documents as debug
texts.
-/

namespace Smongo

open List Option Outcome

section

variable (rt : AccumRuntime)

def bsonToKeyString : Bson → String
  | .string s => "s:" ++ s
  | .int32 n => "n:" ++ (F64.ofInt n.toInt).display
  | .int64 n => "n:" ++ (F64.ofInt n.toInt).display
  | .double x => "n:" ++ x.display
  | .boolean b => "bool:" ++ if b then "true" else "false"
  | .null => "null"
  | .objectId oid => "oid:" ++ oid.toHex
  | .document d => "doc:" ++ rt.debug (.document d)
  | v => rt.debug v

/-- A group: its text, the key of its first document, and its documents. -/
abbrev GroupEntry := String × Bson × List Document

def addToGroup (p : Bson × Document) : List GroupEntry → List GroupEntry :=
  upsertEntry (fun p => bsonToKeyString rt p.1) (fun p => (p.1, []))
    (fun g p => (g.1, g.2 ++ [p.2])) p

def groupDocs (idExpr : Bson) (docs : List Document) : Outcome AggregationError (List GroupEntry) :=
  docs.foldlM (fun groups doc => do
    let key ← rt.evaluateExpression doc idExpr
    .ok (addToGroup rt (key, doc) groups)) []

/-- The field `_id` of the specification is skipped. -/
def groupResult (spec : Document) (g : GroupEntry) : Outcome AggregationError Document :=
  accumulateInto rt g.2.2 [("_id", g.2.1)] (spec.remove "_id")

/-- The groups come in the order of the hash table. -/
def stageGroup (order : List GroupEntry → List GroupEntry) (docs : List Document) :
    Bson → Outcome AggregationError (List Document)
  | .document spec =>
    match Document.get spec "_id" with
    | none => .error (.missingField "_id required in $group")
    | some idExpr => do
      let groups ← groupDocs rt idExpr docs
      (order groups).mapM (groupResult rt spec)
  | _ => .error (.invalidStage "$group requires document")

def groupPairs (ps : List (Bson × Document)) : List GroupEntry :=
  groupAll (fun p => bsonToKeyString rt p.1) (fun p => (p.1, []))
    (fun g p => (g.1, g.2 ++ [p.2])) ps

variable {rt}

lemma groupDocs_eq (idExpr : Bson) (docs : List Document) :
    groupDocs rt idExpr docs = docs.mapM (evaluated rt idExpr) >>= fun ps =>
      .ok (groupPairs rt ps) :=
  foldlM_evaluated idExpr (fun groups p => addToGroup rt p groups) docs []

lemma foldl_addToGroup (ps : List (Bson × Document)) (g : Bson × List Document) :
    ps.foldl (fun g p => (g.1, g.2 ++ [p.2])) g = (g.1, g.2 ++ ps.map Prod.snd) := by
  induction ps generalizing g with
  | nil => simp
  | cons p ps ih => simp [ih]

lemma mem_groupPairs {ps : List (Bson × Document)} {g : GroupEntry} :
    g ∈ groupPairs rt ps ↔ ∃ p rest,
      (ps.filter fun p => bsonToKeyString rt p.1 = g.1) = p :: rest ∧ g.2.1 = p.1 ∧
      g.2.2 = (p :: rest).map Prod.snd := by
  obtain ⟨text, id, docs⟩ := g
  rw [groupPairs, mem_groupAll, Entries]
  simp only [foldl_addToGroup, nil_append, Prod.mk.injEq]

variable {idExpr : Bson} {docs : List Document} {groups : List GroupEntry}

section

variable (h : groupDocs rt idExpr docs = .ok groups)
include h

/-- The documents of a group are those whose key has its text. -/
lemma docs_of_group {g : GroupEntry} (hg : g ∈ groups) :
    g.2.2 = docs.filter (rt.hasValue idExpr (bsonToKeyString rt · = g.1)) := by
  rw [groupDocs_eq, bind_eq_ok] at h
  obtain ⟨ps, hps, hgroups⟩ := h
  cases hgroups
  obtain ⟨p, rest, hfilter, -, hdocs⟩ := mem_groupPairs.mp hg
  rw [hdocs, ← hfilter, ← filter_evaluated hps]

lemma exists_group {doc : Document} (hdoc : doc ∈ docs) :
    ∃ k, rt.evaluateExpression doc idExpr = .ok k ∧ ∃ g ∈ groups, g.1 = bsonToKeyString rt k := by
  rw [groupDocs_eq, bind_eq_ok] at h
  obtain ⟨ps, hps, hgroups⟩ := h
  cases hgroups
  obtain ⟨p, hp, hval, rfl⟩ : ∃ p ∈ ps, rt.evaluateExpression doc idExpr = .ok p.1 ∧ p.2 = doc := by
    obtain ⟨i, hi, rfl⟩ := getElem_of_mem hdoc
    have hall := mapM_eq_ok.mp hps
    have hi' : i < ps.length := hall.length_eq ▸ hi
    exact ⟨ps[i], getElem_mem hi', evaluated_eq_ok.mp (hall.get hi hi')⟩
  refine ⟨p.1, hval, ?_⟩
  have hmem : p ∈ ps.filter fun q => bsonToKeyString rt q.1 = bsonToKeyString rt p.1 :=
    mem_filter.mpr ⟨hp, by simp⟩
  obtain ⟨q, rest, hfilter⟩ := exists_cons_of_ne_nil (ne_nil_of_mem hmem)
  exact ⟨(bsonToKeyString rt p.1, q.1, (q :: rest).map Prod.snd),
    mem_groupPairs.mpr ⟨q, rest, hfilter, rfl, rfl⟩, rfl⟩

lemma nodup_groups : (groups.map Prod.fst).Nodup := by
  rw [groupDocs_eq, bind_eq_ok] at h
  obtain ⟨ps, -, hgroups⟩ := h
  cases hgroups
  exact nodup_groupAll ps

end

end

mutual

/-- One value for all that are equal: numbers are compared as numbers, also inside arrays and
documents. -/
def keyValue : Bson → Bson
  | .int32 n => .int64 n.toInt64
  | .double x =>
    if x.isNaN then .double .nan
    else if x.isIntegral ∧ -2 ^ 63 ≤ x.integer ∧ x.integer < 2 ^ 63 then
      .int64 (Int64.ofInt x.integer)
    else .double x
  | .array items => .array (keyItems items)
  | .document fields => .document (keyFields fields)
  | v => v

def keyItems : List Bson → List Bson
  | [] => []
  | v :: items => keyValue v :: keyItems items

def keyFields : List (String × Bson) → List (String × Bson)
  | [] => []
  | (k, v) :: fields => (k, keyValue v) :: keyFields fields

end

def keyTags : List String := ["s:", "n:", "bool:", "null", "oid:", "doc:"]

/-- Values without a tag are written as their debug texts. -/
def keyTag : Bson → Option String
  | .string _ => some "s:"
  | .boolean _ => some "bool:"
  | .null => some "null"
  | .objectId _ => some "oid:"
  | .document _ => some "doc:"
  | v => (bsonToF64 v).map fun _ => "n:"

section

variable (rt : AccumRuntime)

/-- What follows the tag. -/
def keyText : Bson → String
  | .string s => s
  | .boolean b => if b then "true" else "false"
  | .null => ""
  | .objectId oid => oid.toHex
  | v => (bsonToF64 v).elim (rt.debug v) F64.display

/-- Numbers are equal iff they have the same float, and what is written as its debug text is equal
iff the debug texts are.  A debug text without a tag is not the text of a value with a tag. -/
def Distinguished (k k' : Bson) : Prop :=
  if keyTag k = keyTag k' then
    if keyTag k = none ∨ keyTag k = some "doc:" then
      rt.debug k = rt.debug k' ↔ keyValue k = keyValue k'
    else
      ∀ x ∈ bsonToF64 k, ∀ y ∈ bsonToF64 k',
        (x = y ∨ (x.isNaN ∧ y.isNaN)) ↔ keyValue k = keyValue k'
  else keyTag k = none ∨ keyTag k' = none → bsonToKeyString rt k ≠ bsonToKeyString rt k'

end

section

variable {rt : AccumRuntime}

lemma bsonToKeyString_eq (k : Bson) :
    bsonToKeyString rt k = (keyTag k).getD "" ++ keyText rt k := by
  cases k <;> rfl

lemma keyTag_mem {k : Bson} {tag : String} (h : keyTag k = some tag) : tag ∈ keyTags := by
  cases k <;> simp [keyTag, bsonToF64] at h <;> subst h <;> decide

/-- No tag begins another one. -/
lemma tag_append_inj {tag tag' a b : String} (htag : tag ∈ keyTags) (htag' : tag' ∈ keyTags)
    (h : tag ++ a = tag' ++ b) : tag = tag' := by
  have hlen : ∀ t ∈ keyTags, 2 ≤ t.toList.length := by decide
  have hinj : ∀ t ∈ keyTags, ∀ t' ∈ keyTags, t.toList.take 2 = t'.toList.take 2 → t = t' := by
    decide
  have hlist := congrArg (take 2 ·.toList) h
  simp only [String.toList_append] at hlist
  rw [take_append_of_le_length (hlen _ htag), take_append_of_le_length (hlen _ htag')] at hlist
  exact hinj _ htag _ htag' hlist

lemma keyTag_keyValue (k : Bson) : keyTag (keyValue k) = keyTag k := by
  cases k with
  | double x =>
    rw [keyValue]
    split_ifs <;> rfl
  | _ => simp only [keyValue, keyTag, bsonToF64, Option.map_some]

section

variable {k k' : Bson}

lemma keyText_number {x : F64} (h : bsonToF64 k = some x) : keyText rt k = x.display := by
  cases k <;> cases h <;> rfl

lemma keyText_of_debug (h : keyTag k = none ∨ keyTag k = some "doc:") :
    keyText rt k = rt.debug k := by
  cases k <;> simp [keyTag, bsonToF64] at h <;> rfl

/-- Strings, booleans, null and object ids are equal iff their texts are. -/
lemma keyText_inj_of_plain (htag : keyTag k = keyTag k') (hnum : bsonToF64 k = none)
    (hdebug : ¬ (keyTag k = none ∨ keyTag k = some "doc:")) :
    keyText rt k = keyText rt k' ↔ keyValue k = keyValue k' := by
  cases k <;> simp [keyTag, bsonToF64] at hnum hdebug <;> cases k' <;>
    simp [keyTag, bsonToF64] at htag
  case string s t => simp [keyText, keyValue]
  case boolean b b' => cases b <;> cases b' <;> simp [keyText, keyValue]
  case null => simp
  case objectId oid oid' =>
    simp only [keyText, keyValue, Bson.objectId.injEq]
    exact ObjectId.toHex_injective.eq_iff

/-- The texts tell two keys apart as their values do iff the keys are distinguished. -/
lemma distinguished_iff :
    (bsonToKeyString rt k = bsonToKeyString rt k' ↔ keyValue k = keyValue k') ↔
      Distinguished rt k k' := by
  have htexts : keyTag k = keyTag k' →
      (bsonToKeyString rt k = bsonToKeyString rt k' ↔ keyText rt k = keyText rt k') := by
    intro htag
    simp [bsonToKeyString_eq, htag]
  rw [Distinguished]
  split_ifs with htag hdebug
  · rw [htexts htag, keyText_of_debug hdebug, keyText_of_debug (htag ▸ hdebug)]
  · rw [htexts htag]
    rcases hx : bsonToF64 k with _ | x
    · simp [keyText_inj_of_plain htag hx hdebug]
    · obtain ⟨y, hy⟩ : ∃ y, bsonToF64 k' = some y := by
        cases k <;> cases hx <;> cases k' <;> simp [keyTag, bsonToF64] at htag <;> exact ⟨_, rfl⟩
      simp [keyText_number hx, keyText_number hy, hy, F64.display_eq_iff]
  · have hvalues : keyValue k ≠ keyValue k' := fun h =>
      htag (by rw [← keyTag_keyValue k, h, keyTag_keyValue])
    rw [iff_false_intro hvalues, iff_false]
    refine ⟨fun h _ => h, fun h heq => ?_⟩
    rcases ht : keyTag k with _ | tag
    · exact h (.inl ht) heq
    rcases ht' : keyTag k' with _ | tag'
    · exact h (.inr ht') heq
    · rw [bsonToKeyString_eq, bsonToKeyString_eq, ht, ht'] at heq
      exact htag (by rw [ht, ht', tag_append_inj (keyTag_mem ht) (keyTag_mem ht') heq])

end

/-- Every document is in exactly one group, the one of its key's text, and two documents share a
group exactly if their keys are equal iff all their keys are distinguished. -/
theorem group_keys_iff {idExpr : Bson} {docs : List Document} {groups : List GroupEntry}
    (h : groupDocs rt idExpr docs = .ok groups) :
    (∀ g ∈ groups, g.2.2 = docs.filter (rt.hasValue idExpr (bsonToKeyString rt · = g.1))) ∧
    (∀ doc ∈ docs, ∃ g, (g ∈ groups ∧ doc ∈ g.2.2) ∧ ∀ g', g' ∈ groups ∧ doc ∈ g'.2.2 → g' = g) ∧
    ((∀ doc ∈ docs, ∀ doc' ∈ docs, ∀ k k', rt.evaluateExpression doc idExpr = .ok k →
        rt.evaluateExpression doc' idExpr = .ok k' →
        ((∃ g ∈ groups, doc ∈ g.2.2 ∧ doc' ∈ g.2.2) ↔ keyValue k = keyValue k')) ↔
      ∀ doc ∈ docs, ∀ doc' ∈ docs, ∀ k k', rt.evaluateExpression doc idExpr = .ok k →
        rt.evaluateExpression doc' idExpr = .ok k' → Distinguished rt k k') := by
  have hdocs : ∀ g ∈ groups, ∀ doc ∈ docs, ∀ k, rt.evaluateExpression doc idExpr = .ok k →
      (doc ∈ g.2.2 ↔ g.1 = bsonToKeyString rt k) := by
    intro g hg doc hdoc k hk
    simp [docs_of_group h hg, hdoc, AccumRuntime.hasValue, hk, eq_comm]
  refine ⟨fun g hg => docs_of_group h hg, fun doc hdoc => ?_, ?_⟩
  · obtain ⟨k, hk, g, hg, htext⟩ := exists_group h hdoc
    refine ⟨g, ⟨hg, (hdocs g hg doc hdoc k hk).mpr htext⟩, fun g' ⟨hg', hmem⟩ => ?_⟩
    have htext' := (hdocs g' hg' doc hdoc k hk).mp hmem
    exact inj_on_of_nodup_map (nodup_groups h) hg' hg (htext'.trans htext.symm)
  · refine forall₂_congr fun doc hdoc => forall₂_congr fun doc' hdoc' =>
      forall₂_congr fun k k' => forall₂_congr fun hk hk' => ?_
    rw [← distinguished_iff]
    have hsame : (∃ g ∈ groups, doc ∈ g.2.2 ∧ doc' ∈ g.2.2) ↔
        bsonToKeyString rt k = bsonToKeyString rt k' := by
      constructor
      · rintro ⟨g, hg, hmem, hmem'⟩
        exact ((hdocs g hg doc hdoc k hk).mp hmem).symm.trans
          ((hdocs g hg doc' hdoc' k' hk').mp hmem')
      · intro htext
        obtain ⟨l, hl, g, hg, hgl⟩ := exists_group h hdoc
        cases hk.symm.trans hl
        exact ⟨g, hg, (hdocs g hg doc hdoc k hk).mpr hgl,
          (hdocs g hg doc' hdoc' k' hk').mpr (hgl.trans htext)⟩
    rw [hsame]

end

namespace Sample

/-- Expressions are names of fields. -/
def groupRuntime : AccumRuntime where
  evaluateExpression doc
    | .string path => .ok ((doc.get (.ofList (path.toList.drop 1))).getD .null)
    | expr => .ok expr
  debug
    | .int32 n => "Int32(" ++ (F64.ofInt n.toInt).display ++ ")"
    | .int64 n => "Int64(" ++ (F64.ofInt n.toInt).display ++ ")"
    | .array _ => "Array([])"
    | _ => "Null"
  capacity := 100

def groupInput : List Document :=
  [[("v", .int32 1)], [("v", .string "1")], [("v", .array [])], [("v", .int64 1)], [("v", .null)]]

end Sample

section

open Sample

theorem group_keys_two_widths : ∃ groups, groupDocs groupRuntime (.string "$v") groupInput =
      .ok groups ∧ ∃ g ∈ groups, [("v", .int32 1)] ∈ g.2.2 ∧ [("v", .int64 1)] ∈ g.2.2 := by
  have hgroups := @groupDocs_eq groupRuntime (.string "$v") groupInput
  have hkeys : ∀ doc ∈ groupInput, ∀ doc' ∈ groupInput,
      Distinguished groupRuntime ((Document.get doc "v").getD .null)
        ((Document.get doc' "v").getD .null) := by
    unfold Distinguished
    decide +kernel
  refine ⟨_, hgroups, ((group_keys_iff hgroups).2.2.mpr (fun d hd d' hd' k k' hk hk' => ?_) _
    mem_cons_self _ (by simp [groupInput]) _ _ rfl rfl).mpr rfl⟩
  cases hk
  cases hk'
  exact hkeys d hd d' hd'

/-- `2^53` and `2^53 + 1` are one float. -/
theorem group_merges_integers : (∃ g, groupDocs groupRuntime (.string "$v")
      [[("v", .int64 9007199254740992)], [("v", .int64 9007199254740993)]] = .ok [g] ∧
      g.2.2 = [[("v", .int64 9007199254740992)], [("v", .int64 9007199254740993)]]) ∧
    keyValue (.int64 9007199254740992) ≠ keyValue (.int64 9007199254740993) := by
  have htext : bsonToKeyString groupRuntime (.int64 9007199254740992) =
      bsonToKeyString groupRuntime (.int64 9007199254740993) := by decide +kernel
  have hpair : ∀ p p' : Bson × Document,
      bsonToKeyString groupRuntime p.1 = bsonToKeyString groupRuntime p'.1 →
      groupPairs groupRuntime [p, p'] = [(bsonToKeyString groupRuntime p.1, p.1, [p.2, p'.2])] := by
    intro p p' h
    simp [groupPairs, groupAll, upsertEntry, h]
  have hdocs : groupDocs groupRuntime (.string "$v")
      [[("v", .int64 9007199254740992)], [("v", .int64 9007199254740993)]] =
      .ok (groupPairs groupRuntime [(.int64 9007199254740992, [("v", .int64 9007199254740992)]),
        (.int64 9007199254740993, [("v", .int64 9007199254740993)])]) := groupDocs_eq _ _
  rw [hpair _ _ htext] at hdocs
  exact ⟨⟨_, hdocs, rfl⟩, by decide⟩

end

end Smongo
