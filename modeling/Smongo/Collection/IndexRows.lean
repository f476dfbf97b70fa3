import Smongo.Collection.Runs
import Smongo.Lib.Utf8

/-!
# The rows of B-tree indexes

A row is the key of a document followed by its id, with nothing that separates the two.
-/

namespace Smongo

open List Bytes

/-- The number of bytes of an encoded value, unless it is a text. -/
def indexWidth : Option Bson → Option ℕ
  | some (.string _) => none
  | some (.int32 _) => some 4
  | some (.int64 _) | some (.double _) | some (.dateTime _) => some 8
  | some (.objectId _) => some 12
  | _ => some 1

/-- Descending values are written with inverted bytes. -/
def inDirection (descending : Bool) (b : Bytes) : Bytes := if descending then invertBytes b else b

section

variable (collation : Option (String → Bytes))

/-- The second value is encoded as the first one and `more`. -/
def Continues (descending : Bool) (v w : Option Bson) (more : Bytes) : Prop :=
  match v, w, collation with
  | some (.string s), some (.string t), none =>
    ∃ u, t = s ++ u ∧ inDirection descending more = utf8 u
  | v, w, collation => (∀ m ∈ indexWidth v, ∀ n ∈ indexWidth w, n = m + more.length) ∧
      encodeIndexValue collation w = encodeIndexValue collation v ++ inDirection descending more

variable (key : String × Bson) (after d₁ d₂ : Document) (id₁ id₂ : String)

def isDescending : Bool := IndexDirection.fromBson key.2 = some .descending

/-- The value of the second document takes up what follows that of the first one: the front of the
id, or from the separator on bytes of the next values.  An ascending text has no separator. -/
def Absorbs : Prop :=
  let continues := Continues collation (isDescending key) (getValue d₁ key.1) (getValue d₂ key.1)
  match after with
  | [] => ∃ u, u ≠ "" ∧ id₁ = u ++ id₂ ∧ continues (utf8 u)
  | _ => (collation = none → isDescending key = false → ∀ t, getValue d₂ key.1 ≠ some (.string t)) ∧
      ∃ more, continues (0xFE :: more) ∧
        combinedKey (extractIndexKeyWithCollation d₁ after collation) id₁ =
          more ++ 0xFE :: combinedKey (extractIndexKeyWithCollation d₂ after collation) id₂

end

section

variable {collation : Option (String → Bytes)}

lemma length_encodeIndexValue {v : Option Bson} {n : ℕ} (h : indexWidth v = some n) :
    (encodeIndexValue collation v).length = n := by
  rcases v with _ | v
  · cases h
    rfl
  cases v with
  | string s => cases h
  | objectId oid => exact Option.some.inj h ▸ oid.length_bytes
  | _ => cases h; rfl

lemma invertBytes_invertBytes (b : Bytes) : invertBytes (invertBytes b) = b := by
  have hbyte : (fun x : UInt8 => x ^^^ 0xFF) ∘ (fun x => x ^^^ 0xFF) = id := by
    funext x
    simp [UInt8.xor_assoc]
  rw [invertBytes, invertBytes, map_map, hbyte, map_id]

lemma inDirection_inDirection (descending : Bool) (b : Bytes) :
    inDirection descending (inDirection descending b) = b := by
  cases descending with
  | true => exact invertBytes_invertBytes b
  | false => rfl

lemma inDirection_append (descending : Bool) (a b : Bytes) :
    inDirection descending (a ++ b) = inDirection descending a ++ inDirection descending b := by
  cases descending with
  | true => exact map_append
  | false => rfl

lemma length_inDirection (descending : Bool) (b : Bytes) :
    (inDirection descending b).length = b.length := by
  cases descending with
  | true => exact length_map _
  | false => rfl

lemma indexKeyPart_eq (key : String × Bson) (d : Document) : indexKeyPart collation d key =
    inDirection (isDescending key) (encodeIndexValue collation (getValue d key.1)) := by
  simp [indexKeyPart, inDirection, isDescending]

variable {key : String × Bson} {after d₁ d₂ : Document} {id₁ id₂ : String} {more : Bytes}

lemma continues_iff {descending : Bool} {v w : Option Bson} :
    Continues collation descending v w more ↔ encodeIndexValue collation w =
      encodeIndexValue collation v ++ inDirection descending more := by
  unfold Continues
  split
  · exact utf8_eq_append_iff.symm
  · refine and_iff_right_of_imp fun h m hm n hn => ?_
    have hlength := congrArg length h
    rwa [length_append, length_encodeIndexValue hm, length_encodeIndexValue hn,
      length_inDirection] at hlength

lemma indexKeyPart_eq_append_iff :
    indexKeyPart collation d₂ key = indexKeyPart collation d₁ key ++ more ↔
      Continues collation (isDescending key) (getValue d₁ key.1) (getValue d₂ key.1) more := by
  rw [continues_iff, indexKeyPart_eq, indexKeyPart_eq]
  constructor
  · intro h
    have hback := congrArg (inDirection (isDescending key)) h
    rwa [inDirection_append, inDirection_inDirection, inDirection_inDirection] at hback
  · intro h
    rw [h, inDirection_append, inDirection_inDirection]

/-- The separator is no byte of a text that is written as it is. -/
lemma not_text_of_separator (hcollation : collation = none) (hdir : isDescending key = false)
    (h : 0xFE ∈ indexKeyPart collation d₂ key) (t : String) :
    getValue d₂ key.1 ≠ some (.string t) := by
  intro hvalue
  rw [indexKeyPart_eq, hdir, hvalue, hcollation] at h
  exact lt_irrefl _ (lt_of_mem_utf8 h)

/-! ### Where two rows can be cut -/

variable (collation) in
/-- What follows the first value in a row. -/
def rowTail (after d : Document) (id : String) : Bytes :=
  match after with
  | [] => utf8 id
  | after => 0xFE :: combinedKey (extractIndexKeyWithCollation d after collation) id

lemma row_cons (d : Document) (id : String) :
    combinedKey (extractIndexKeyWithCollation d (key :: after) collation) id =
      indexKeyPart collation d key ++ rowTail collation after d id := by
  cases after with
  | nil => simp [combinedKey, extractIndexKeyWithCollation, rowTail, intercalate]
  | cons f after =>
    simp [combinedKey, extractIndexKeyWithCollation, rowTail, intercalate]

lemma absorbs_iff : Absorbs collation key after d₁ d₂ id₁ id₂ ↔
    ∃ more, more ≠ [] ∧ indexKeyPart collation d₂ key = indexKeyPart collation d₁ key ++ more ∧
      rowTail collation after d₁ id₁ = more ++ rowTail collation after d₂ id₂ := by
  unfold Absorbs
  cases after with
  | nil =>
    constructor
    · rintro ⟨u, hu, rfl, hmore⟩
      refine ⟨utf8 u, fun h => hu (utf8_injective (h.trans rfl)), ?_, utf8_append _ _⟩
      exact indexKeyPart_eq_append_iff.mpr hmore
    · rintro ⟨more, hne, hpart, htail⟩
      obtain ⟨u, rfl, rfl⟩ := append_utf8_eq_utf8 htail
      refine ⟨u, ?_, rfl, indexKeyPart_eq_append_iff.mp hpart⟩
      rintro rfl
      exact hne rfl
  | cons f after =>
    constructor
    · rintro ⟨-, more, hmore, hrows⟩
      refine ⟨0xFE :: more, cons_ne_nil _ _, indexKeyPart_eq_append_iff.mpr hmore, ?_⟩
      exact congrArg (0xFE :: ·) hrows
    · rintro ⟨more, hne, hpart, htail⟩
      obtain ⟨x, more, rfl⟩ := exists_cons_of_ne_nil hne
      obtain ⟨rfl, hrows⟩ := cons.inj htail
      refine ⟨fun hcollation hdir => ?_, more, indexKeyPart_eq_append_iff.mp hpart, hrows⟩
      exact not_text_of_separator hcollation hdir (by simp [hpart])

/-- At the first value in which two rows differ, one of them goes on. -/
lemma rows_eq_iff {keys : Document} (hne : id₁ ≠ id₂) :
    combinedKey (extractIndexKeyWithCollation d₁ keys collation) id₁ =
        combinedKey (extractIndexKeyWithCollation d₂ keys collation) id₂ ↔
      ∃ before key after, keys = before ++ key :: after ∧
        (∀ f ∈ before, indexKeyPart collation d₁ f = indexKeyPart collation d₂ f) ∧
        (Absorbs collation key after d₁ d₂ id₁ id₂ ∨
          Absorbs collation key after d₂ d₁ id₂ id₁) := by
  have hbytes : utf8 id₁ ≠ utf8 id₂ := fun h => hne (utf8_injective h)
  induction keys with
  | nil => exact iff_of_false hbytes (by rintro ⟨_ | _, _, _, h, -⟩ <;> cases h)
  | cons f rest ih =>
    rw [row_cons, row_cons]
    have htails : rowTail collation rest d₁ id₁ = rowTail collation rest d₂ id₂ ↔ rest ≠ [] ∧
        combinedKey (extractIndexKeyWithCollation d₁ rest collation) id₁ =
          combinedKey (extractIndexKeyWithCollation d₂ rest collation) id₂ := by
      cases rest with
      | nil => exact iff_of_false hbytes (fun h => h.1 rfl)
      | cons g rest => simp [rowTail]
    constructor
    · intro hrows
      -- the cut is at the end of the first values, or inside one of them
      by_cases hparts : indexKeyPart collation d₁ f = indexKeyPart collation d₂ f
      · rw [hparts, append_cancel_left_eq, htails] at hrows
        obtain ⟨before, key, after, rfl, hbefore, habsorbs⟩ := ih.mp hrows.2
        exact ⟨f :: before, key, after, rfl, forall_mem_cons.mpr ⟨hparts, hbefore⟩, habsorbs⟩
      · refine ⟨[], f, rest, rfl, fun _ h => (not_mem_nil h).elim, ?_⟩
        rw [absorbs_iff, absorbs_iff]
        refine (append_eq_append_iff.mp hrows).imp ?_ ?_
        all_goals
          rintro ⟨more, hpart, htail⟩
          refine ⟨more, ?_, hpart, htail⟩
          rintro rfl
          simp_all
    · rintro ⟨_ | ⟨g, before⟩, key, after, hkeys, hbefore, habsorbs⟩
      · cases hkeys
        rw [absorbs_iff, absorbs_iff] at habsorbs
        refine append_eq_append_iff.mpr (habsorbs.imp ?_ ?_)
        all_goals exact fun ⟨more, _, h⟩ => ⟨more, h⟩
      · cases hkeys
        obtain ⟨hparts, hbefore⟩ := forall_mem_cons.mp hbefore
        rw [hparts, append_cancel_left_eq, htails]
        exact ⟨by simp, ih.mpr ⟨before, key, after, rfl, hbefore, habsorbs⟩⟩

/-- The rows of two documents differ iff at the first value that is encoded differently neither
document's value takes up what follows that of the other one. -/
theorem index_rows_distinct_iff (keys : Document) (collation : Option (String → Bytes))
    (d₁ d₂ : Document) {id₁ id₂ : String} (hne : id₁ ≠ id₂) :
    let row₁ := combinedKey (extractIndexKeyWithCollation d₁ keys collation) id₁
    let row₂ := combinedKey (extractIndexKeyWithCollation d₂ keys collation) id₂
    (row₁ ≠ row₂ ∧ ∀ (t : Table) (value : Bytes), (t.insert row₁ value).get row₂ = t.get row₂ ∧
      (t.erase row₁).get row₂ = t.get row₂) ↔
    ∀ before key after, keys = before ++ key :: after →
      (∀ f ∈ before, indexKeyPart collation d₁ f = indexKeyPart collation d₂ f) →
      ¬ Absorbs collation key after d₁ d₂ id₁ id₂ ∧
        ¬ Absorbs collation key after d₂ d₁ id₂ id₁ := by
  intro row₁ row₂
  have hrows : row₁ ≠ row₂ ↔ _ := not_congr (rows_eq_iff hne)
  trans row₁ ≠ row₂
  · refine and_iff_left_of_imp fun hrows t value => ⟨?_, ?_⟩
    · rw [OrderedTable.get_insert, if_neg hrows.symm]
    · rw [OrderedTable.get_erase, if_neg hrows.symm]
  · rw [hrows]
    simp only [not_exists, not_and, not_or]

end

section

open Sample

theorem index_rows_distinct_iff_letters :
    combinedKey (extractIndexKey (doc (.int32 1) (.string "x")) [("a", .int32 1)]) "1" ≠
      combinedKey (extractIndexKey (doc (.int32 2) (.string "x")) [("a", .int32 1)]) "2" := by
  have hlength : ∀ u : String, u ≠ "" → ∀ s t : String, s.length = t.length → s ≠ u ++ t := by
    rintro u hu s t hst rfl
    rw [String.length_append] at hst
    exact hu (String.length_eq_zero_iff.mp (by omega))
  refine ((index_rows_distinct_iff [("a", .int32 1)] none (doc (.int32 1) (.string "x"))
    (doc (.int32 2) (.string "x")) (by decide)).mpr ?_).1
  intro before key after hkeys _
  obtain ⟨rfl, rfl, rfl⟩ : before = [] ∧ key = ("a", .int32 1) ∧ after = [] := by
    rcases before with _ | ⟨f, before⟩ <;> simp_all
  constructor
  · rintro ⟨u, hu, hid, -⟩
    exact hlength u hu "1" "2" rfl hid
  · rintro ⟨u, hu, hid, -⟩
    exact hlength u hu "2" "1" rfl hid

/-- Text moves from the indexed value to the id, which may be a string or a number. -/
theorem index_rows_shared : (let d₁ := doc (.string "yz") (.string "x")
      let d₂ := doc (.string "z") (.string "xy")
      extractIdString env d₁ = .ok "yz" ∧ extractIdString env d₂ = .ok "z" ∧
        combinedKey (extractIndexKey d₁ [("a", .int32 1)]) "yz" =
          combinedKey (extractIndexKey d₂ [("a", .int32 1)]) "z") ∧
    (let d₁ := doc (.int32 12) (.string "x")
      let d₂ := doc (.int32 2) (.string "x1")
      extractIdString env d₁ = .ok "12" ∧ extractIdString env d₂ = .ok "2" ∧
        combinedKey (extractIndexKey d₁ [("a", .int32 1)]) "12" =
          combinedKey (extractIndexKey d₂ [("a", .int32 1)]) "2") := by
  decide +kernel

end

section

variable {env : Env} {c : Handle} {w : RedbWorld} {call : Call}

lemma IndexSpec.covers_of_filter {spec : IndexSpec} {pfe : Document}
    (h : spec.options.partialFilterExpression = some pfe) (doc : Document) :
    spec.covers env doc = true ↔ evalQuery env doc pfe = .ok true := by
  rw [IndexSpec.covers, partialAdmits, h]
  cases pfe with
  | nil => simp [evalQuery]
  | cons field pfe =>
    simp only [isEmpty_cons, Bool.false_eq_true, if_false]
    cases heval : evalQuery env doc (field :: pfe) <;> simp [Outcome.unwrapOr]

/-- Calls that keep partial indexes exact: an update that keeps a key keeps the verdict of the
partial filter. -/
def Call.Steady (env : Env) (c : Handle) (w : RedbWorld) : Call → Prop
  | statement st => st.KeepsCovers env c (w.specs env c) w.begin
  | createIndex keys options => ∀ name, Registers env c w keys options name →
      (options.getD {}).collation ≠ none → (w.committed c.tableName).rows = []
  | dropIndex _ => True

lemma Call.Steady.keeps (h : call.Steady env c w) (hordinary : call.Ordinary env c w)
    (hs : Sound env c ((w.specs env c).filter fun _ => true) w.committed)
    (hstored : ∀ k d, docAt env (w.committed c.tableName) k = some d → OidPair k d) :
    call.Keeps env c (fun _ => true) w := by
  cases call with
  | statement st =>
    have htidy : st.Tidy env c ((w.specs env c).filter fun _ => true) w.begin :=
      Statement.DistinctIds.tidy hordinary hstored hs.keyed _
    refine clean_of_tidy hs htidy fun t ht new hx spec hmem => ?_
    exact h t ht new hx spec (mem_filter.mp hmem).1
  | dropIndex name => trivial
  | createIndex keys options =>
    intro name hname _ htree
    exact hordinary.buildable hname (h name hname) hstored htree

/-- The table of each partial index that is listed has exactly the rows of the stored documents
that its filter selects. -/
def PartialRowsExact (env : Env) (c : Handle) (w : RedbWorld) : Prop :=
  ∃ specs, listed env c w = .ok specs ∧ ∀ spec ∈ specs, spec.IsBTree → ∀ pfe,
    spec.options.partialFilterExpression = some pfe → ∀ r v,
    ((w.committed (c.indexTable spec.name)).get r = some v ↔
      ∃ doc oid, docAt env (w.committed c.tableName) (utf8 oid.toHex) = some doc ∧
        doc.get "_id" = some (.objectId oid) ∧ evalQuery env doc pfe = .ok true ∧
        r = specIndexKey env doc spec ++ utf8 oid.toHex ∧ v = utf8 oid.toHex)

/-- Partial indexes are exact after every run of steady calls. -/
theorem partial_rows_exact (hcodec : env.Codec) (hsep : c.Separate) {calls : List Call}
    (hnew : w.New c) (hrun : Along (Call.step env c) (fun w call =>
      call.Returns env c w ∧ call.Ordinary env c w ∧ call.Steady env c w) w calls) :
    PartialRowsExact env c (calls.foldl (Call.step env c) w) := by
  obtain ⟨hsettled, hsound, hstored⟩ := oidSound_of_run (p := fun _ => true) hcodec hsep hnew
    (fun w call h hguard => ⟨hguard.1, hguard.2.keeps hguard.1 h.sound h.stored⟩) hrun
  refine ⟨_, hsettled.listed, fun spec hmem htree pfe hpfe r v => ?_⟩
  rw [hsound.derived spec (mem_filter.mpr ⟨hmem, rfl⟩) htree r v]
  constructor
  · rintro ⟨doc, hdoc, hcovers, rfl⟩
    obtain ⟨oid, hoid, rfl⟩ := hstored v doc hdoc
    exact ⟨doc, oid, hdoc, hoid, (IndexSpec.covers_of_filter hpfe doc).mp hcovers, rfl, rfl⟩
  · rintro ⟨doc, oid, hdoc, -, hselected, rfl, rfl⟩
    exact ⟨doc, hdoc, (IndexSpec.covers_of_filter hpfe doc).mpr hselected, rfl⟩

end

namespace Sample

def filtered : IndexSpec :=
  ⟨"b_1", [("b", .int32 1)], { partialFilterExpression := some [("a", .string "x")] }⟩

def withB (a b : String) : Document := [("_id", .objectId oid), ("a", .string a), ("b", .string b)]

def filteredEnv : Env :=
  Env.ofLists [doc (.objectId oid) (.string "x"), doc (.objectId oid) (.string "y"), withB "x" "z"]
    [filtered]

lemma filtered_codec : filteredEnv.Codec :=
  Env.codec_ofLists (by decide) (by decide)

def filteredOne : RedbWorld :=
  [create filtered, .statement (insert (.objectId oid) (.string "x"))].foldl
    (Call.step filteredEnv handle) start

def filteredSet (field value : String) : RedbWorld :=
  [create filtered, .statement (insert (.objectId oid) (.string "x")),
    .statement (set (.objectId oid) field (.string value))].foldl (Call.step filteredEnv handle)
      start

end Sample

section

open Sample

theorem partial_rows_exact_update : let w := filteredSet "b" "z"
    w.specs filteredEnv handle = [filtered] ∧
      docAt filteredEnv (w.committed "t") (utf8 oid.toHex) = some (withB "x" "z") ∧
      PartialRowsExact filteredEnv handle w := by
  refine ⟨by decide +kernel, by decide +kernel, partial_rows_exact filtered_codec separate start_new
      ⟨⟨by decide, fun _ _ h => absurd h (by decide), fun _ _ h => absurd rfl h⟩,
        ⟨by decide +kernel, ?_, nofun⟩, ⟨by decide +kernel, ?_, ?_⟩, trivial⟩⟩
  · exact distinctIds_insert (by decide) _
  · exact .of_sparesId (untouched_set (by decide) _) (by decide)
  · rintro t ht new ⟨tick, new', hnew, hx⟩ spec hspec - -
    cases hx
    have hspecs : filteredOne.specs filteredEnv handle = [filtered] := by decide +kernel
    have htargets : (set (.objectId oid) "b" (.string "z")).targets filteredEnv handle
        filteredOne.begin = [(utf8 oid.toHex, doc (.objectId oid) (.string "x"))] := by
      decide +kernel
    have hset : applyUpdate filteredEnv tick (doc (.objectId oid) (.string "x"))
        [("$set", .document [("b", .string "z")])] = .ok (withB "x" "z") := rfl
    obtain rfl := mem_singleton.mp (hspecs ▸ hspec)
    obtain rfl := mem_singleton.mp (htargets ▸ ht)
    cases hset.symm.trans hnew
    decide +kernel

/-- An update that takes the document out of the filter and keeps its key leaves the row. -/
theorem partial_index_keeps_row : let w := filteredSet "a" "y"
    docAt filteredEnv (w.committed "t") (utf8 oid.toHex) =
        some (doc (.objectId oid) (.string "y")) ∧
      (w.committed (handle.indexTable "b_1")).rows.length = 1 ∧
      ¬ PartialRowsExact filteredEnv handle w := by
  intro w
  refine ⟨by decide +kernel, by decide +kernel, ?_⟩
  rintro ⟨specs, hlisted, hrows⟩
  have hspecs : listed filteredEnv handle w = .ok [filtered] := by decide +kernel
  rw [hspecs] at hlisted
  cases hlisted
  obtain ⟨d, oid', hdoc, -, hselected, -⟩ := (hrows filtered (mem_singleton_self _) (by decide)
    _ rfl (combinedKey (extractIndexKey (doc (.objectId oid) (.string "x")) filtered.keys)
      oid.toHex)
    (utf8 oid.toHex)).mp (by decide +kernel)
  have hnone : ∀ k d, docAt filteredEnv (w.committed handle.tableName) k = some d →
      evalQuery filteredEnv d [("a", .string "x")] ≠ .ok true :=
    forall_docAt_iff.mp (by decide +kernel)
  exact hnone _ d hdoc hselected

end

end Smongo
