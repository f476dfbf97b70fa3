import Smongo.Lib.Float64

/-!
# BSON values and documents

`Bson` has a constructor for each variant of the crate's enum; a document is its list of fields.
-/

namespace Smongo

open List

structure ObjectId where
  bytes : Bytes
  length_bytes : bytes.length = 12
deriving DecidableEq

namespace ObjectId

def toHex (oid : ObjectId) : String := oid.bytes.hex

lemma toHex_injective : Function.Injective toHex := by
  intro a b h
  have hbytes := Bytes.hex_injective h
  cases a
  cases b
  simpa using hbytes

lemma length_utf8_toHex (oid : ObjectId) : (Bytes.utf8 oid.toHex).length = 24 := by
  rw [toHex, Bytes.length_utf8_hex, oid.length_bytes]

end ObjectId

inductive Bson
  | double (x : F64)
  | string (s : String)
  | array (items : List Bson)
  | document (fields : List (String × Bson))
  | boolean (b : Bool)
  | null
  | regularExpression (pattern options : String)
  | javaScriptCode (code : String)
  | javaScriptCodeWithScope (code : String) (scope : List (String × Bson))
  | int32 (n : Int32)
  | int64 (n : Int64)
  | timestamp (time increment : UInt32)
  | binary (subtype : UInt8) (bytes : Bytes)
  | objectId (oid : ObjectId)
  | dateTime (millis : Int64)
  | symbol (s : String)
  | decimal128 (bytes : Bytes)
  | undefined
  | maxKey
  | minKey
  | dbPointer (ns : String) (id : ObjectId)

abbrev Document := List (String × Bson)

namespace Document

variable (d : Document) (k : String)

def get : Option Bson := lookup k d

def containsKey : Bool := (get d k).isSome

def keys : List String := d.map Prod.fst

def insert : Document → String → Bson → Document
  | [], k, v => [(k, v)]
  | (k', v') :: d, k, v => if k' = k then (k, v) :: d else (k', v') :: insert d k v

def remove : Document := d.filter fun f => f.1 ≠ k

@[simp] lemma get_nil : get [] k = none := rfl

lemma get_cons (f : String × Bson) :
    get (f :: d) k = if k = f.1 then some f.2 else get d k := by
  obtain ⟨k', v⟩ := f
  rw [get, lookup_cons]
  by_cases h : k = k'
  · simp [h]
  · simp [h, beq_eq_false_iff_ne.mpr h, get]

lemma mem_of_get {d : Document} {k : String} {v : Bson} (h : get d k = some v) : (k, v) ∈ d := by
  induction d with
  | nil => cases h
  | cons f d ih =>
    rw [get_cons] at h
    split_ifs at h with hk
    · cases h
      exact hk ▸ mem_cons_self
    · exact mem_cons_of_mem _ (ih h)

lemma containsKey_iff {d : Document} {k : String} :
    containsKey d k = true ↔ ∃ f ∈ d, f.1 = k := by
  rw [containsKey, Option.isSome_iff_exists]
  constructor
  · rintro ⟨v, hv⟩
    exact ⟨(k, v), mem_of_get hv, rfl⟩
  · rintro ⟨f, hf, rfl⟩
    induction d with
    | nil => cases hf
    | cons g d ih =>
      rw [get_cons]
      split_ifs with hk
      · exact ⟨g.2, rfl⟩
      · rcases mem_cons.mp hf with rfl | hf
        · exact absurd rfl hk
        · exact ih hf

lemma get_insert (v : Bson) (k' : String) :
    get (insert d k v) k' = if k' = k then some v else get d k' := by
  induction d with
  | nil => simp [insert, get_cons]
  | cons f d ih =>
    rw [insert]
    by_cases hf : f.1 = k
    · subst hf
      simp only [if_true, get_cons]
      split_ifs <;> rfl
    · rw [if_neg hf, get_cons, get_cons, ih]
      by_cases hk : k' = f.1
      · simp [hk, hf]
      · simp [hk]

lemma insert_of_not_mem {d : Document} {k : String} (h : k ∉ keys d) (v : Bson) :
    insert d k v = d ++ [(k, v)] := by
  induction d with
  | nil => rfl
  | cons f d ih =>
    rw [keys, map_cons, mem_cons, not_or] at h
    rw [insert, if_neg (Ne.symm h.1), ih h.2, cons_append]

lemma foldl_insert_eq_append (a b : Document) (hb : (keys b).Nodup)
    (hdisjoint : ∀ k ∈ keys b, k ∉ keys a) :
    b.foldl (fun merged f => insert merged f.1 f.2) a = a ++ b := by
  induction b generalizing a with
  | nil => exact (append_nil a).symm
  | cons f b ih =>
    obtain ⟨hf, hb⟩ := nodup_cons.mp hb
    have hnew : f.1 ∉ keys a := hdisjoint f.1 mem_cons_self
    rw [foldl_cons, insert_of_not_mem hnew, ih _ hb ?_, append_assoc]
    · rfl
    · intro k hk hmem
      rw [keys, map_append, mem_append] at hmem
      rcases hmem with hmem | hmem
      · exact hdisjoint k (mem_cons_of_mem _ hk) hmem
      · exact hf (mem_singleton.mp hmem ▸ hk)

lemma get_remove (k k' : String) : get (remove d k) k' = if k' = k then none else get d k' := by
  induction d with
  | nil => simp [remove]
  | cons f d ih =>
    rw [remove] at ih ⊢
    by_cases hf : f.1 = k
    · rw [filter_cons_of_neg (by simpa using hf), ih, get_cons, hf]
      split_ifs <;> rfl
    · rw [filter_cons_of_pos (by simpa using hf), get_cons, get_cons, ih]
      by_cases hk : k' = f.1
      · simp [hk, hf]
      · simp [hk]

end Document

namespace Bson

mutual

def eq : Bson → Bson → Bool
  | double x, double y => x.eq y
  | string s, string t => s = t
  | array xs, array ys => eqItems xs ys
  | document d, document e => d.length = e.length && eqFields d e
  | boolean b, boolean c => b = c
  | null, null => true
  | regularExpression p o, regularExpression q r => p = q && o = r
  | javaScriptCode s, javaScriptCode t => s = t
  | javaScriptCodeWithScope s d, javaScriptCodeWithScope t e =>
    s = t && d.length = e.length && eqFields d e
  | int32 m, int32 n => m = n
  | int64 m, int64 n => m = n
  | timestamp t i, timestamp u j => t = u && i = j
  | binary s b, binary t c => s = t && b = c
  | objectId o, objectId p => o = p
  | dateTime m, dateTime n => m = n
  | symbol s, symbol t => s = t
  | decimal128 b, decimal128 c => b = c
  | undefined, undefined => true
  | maxKey, maxKey => true
  | minKey, minKey => true
  | dbPointer n o, dbPointer m p => n = m && o = p
  | _, _ => false

def eqItems : List Bson → List Bson → Bool
  | [], [] => true
  | x :: xs, y :: ys => x.eq y && eqItems xs ys
  | _, _ => false

def eqFields : List (String × Bson) → List (String × Bson) → Bool
  | [], _ => true
  | (k, v) :: d, e =>
    (match Document.get e k with
      | some w => v.eq w
      | none => false) && eqFields d e

end

mutual

def same : Bson → Bson → Bool
  | double x, double y => x = y
  | string s, string t => s = t
  | array xs, array ys => sameItems xs ys
  | document d, document e => sameFields d e
  | boolean b, boolean c => b = c
  | null, null => true
  | regularExpression p o, regularExpression q r => p = q && o = r
  | javaScriptCode s, javaScriptCode t => s = t
  | javaScriptCodeWithScope s d, javaScriptCodeWithScope t e => s = t && sameFields d e
  | int32 m, int32 n => m = n
  | int64 m, int64 n => m = n
  | timestamp t i, timestamp u j => t = u && i = j
  | binary s b, binary t c => s = t && b = c
  | objectId o, objectId p => o = p
  | dateTime m, dateTime n => m = n
  | symbol s, symbol t => s = t
  | decimal128 b, decimal128 c => b = c
  | undefined, undefined => true
  | maxKey, maxKey => true
  | minKey, minKey => true
  | dbPointer n o, dbPointer m p => n = m && o = p
  | _, _ => false

def sameItems : List Bson → List Bson → Bool
  | [], [] => true
  | x :: xs, y :: ys => x.same y && sameItems xs ys
  | _, _ => false

def sameFields : List (String × Bson) → List (String × Bson) → Bool
  | [], [] => true
  | (k, v) :: d, (l, w) :: e => k = l && v.same w && sameFields d e
  | _, _ => false

end

mutual

theorem same_iff : ∀ a b : Bson, a.same b = true ↔ a = b
  | array xs, b => by cases b <;> simp [same, sameItems_iff xs]
  | document d, b | javaScriptCodeWithScope s d, b => by cases b <;> simp [same, sameFields_iff d]
  | double _, b | string _, b | boolean _, b | null, b | regularExpression _ _, b
  | javaScriptCode _, b | int32 _, b | int64 _, b | timestamp _ _, b | binary _ _, b | objectId _, b
  | dateTime _, b | symbol _, b | decimal128 _, b | undefined, b | maxKey, b | minKey, b
  | dbPointer _ _, b => by cases b <;> simp [same]

theorem sameItems_iff : ∀ xs ys : List Bson, sameItems xs ys = true ↔ xs = ys
  | [], ys => by cases ys <;> simp [sameItems]
  | x :: xs, ys => by cases ys <;> simp [sameItems, same_iff x, sameItems_iff xs]

theorem sameFields_iff : ∀ d e : List (String × Bson), sameFields d e = true ↔ d = e
  | [], e => by cases e <;> simp [sameFields]
  | (k, v) :: d, e => by cases e <;> simp [sameFields, same_iff v, sameFields_iff d, Prod.ext_iff]

end

instance : DecidableEq Bson := fun a b => decidable_of_iff _ (same_iff a b)

end Bson

def Document.eq (d e : Document) : Bool := (Bson.document d).eq (.document e)

end Smongo
