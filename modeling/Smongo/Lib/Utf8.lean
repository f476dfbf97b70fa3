import Smongo.Lib.ByteStrings

/-!
# Splitting UTF-8

A text that begins or ends another one as bytes does so as characters, and no byte of a text is
`0xFE` or `0xFF`.
-/

namespace Smongo

namespace Bytes

open List

lemma utf8EncodeChar_append_inj {c d : Char} {a b : Bytes}
    (h : String.utf8EncodeChar c ++ a = String.utf8EncodeChar d ++ b) : c = d ∧ a = b := by
  have hdecode (e : Char) (rest : Bytes) :
      (String.utf8EncodeChar e ++ rest).toByteArray.utf8DecodeChar? 0 = some e := by
    rw [List.toByteArray_append]
    exact ByteArray.utf8DecodeChar?_utf8EncodeChar_append
  obtain rfl : c = d := Option.some.inj ((hdecode c a).symm.trans (h ▸ hdecode d b))
  exact ⟨rfl, append_cancel_left h⟩

lemma utf8_append (s t : String) : utf8 (s ++ t) = utf8 s ++ utf8 t := by
  simp only [utf8_eq_flatMap, String.toList_append, flatMap_append]

lemma utf8_ofList (cs : List Char) : utf8 (.ofList cs) = cs.flatMap String.utf8EncodeChar := by
  rw [utf8_eq_flatMap, String.toList_ofList]

lemma utf8_eq_append_iff {s t : String} {rest : Bytes} :
    utf8 t = utf8 s ++ rest ↔ ∃ u, t = s ++ u ∧ rest = utf8 u := by
  refine ⟨fun h => ?_, fun ⟨u, ht, hrest⟩ => by rw [ht, hrest, utf8_append]⟩
  suffices ∀ cs ds : List Char,
      ds.flatMap String.utf8EncodeChar = cs.flatMap String.utf8EncodeChar ++ rest →
      ∃ us : List Char, ds = cs ++ us ∧ rest = us.flatMap String.utf8EncodeChar by
    rw [utf8_eq_flatMap, utf8_eq_flatMap] at h
    obtain ⟨us, hds, hrest⟩ := this _ _ h
    refine ⟨.ofList us, String.toList_injective ?_, hrest.trans (utf8_ofList us).symm⟩
    rw [hds, String.toList_append, String.toList_ofList]
  intro cs
  induction cs with
  | nil => exact fun ds hds => ⟨ds, rfl, hds.symm⟩
  | cons c cs ih =>
    intro ds hds
    cases ds with
    | nil => simp at hds
    | cons d ds =>
      rw [flatMap_cons, flatMap_cons, append_assoc] at hds
      obtain ⟨rfl, htail⟩ := utf8EncodeChar_append_inj hds
      obtain ⟨us, rfl, hrest⟩ := ih ds htail
      exact ⟨us, rfl, hrest⟩

/-- A text is not cut inside a character. -/
lemma append_utf8_eq_utf8 {s t : String} {front : Bytes} (h : utf8 s = front ++ utf8 t) :
    ∃ u, s = u ++ t ∧ front = utf8 u := by
  suffices ∀ cs ds : List Char, ∀ front,
      cs.flatMap String.utf8EncodeChar = front ++ ds.flatMap String.utf8EncodeChar →
      ∃ us : List Char, front = us.flatMap String.utf8EncodeChar by
    rw [utf8_eq_flatMap, utf8_eq_flatMap] at h
    obtain ⟨us, hfront⟩ := this _ _ _ h
    refine ⟨.ofList us, utf8_injective ?_, hfront.trans (utf8_ofList us).symm⟩
    rw [utf8_append, utf8_ofList, ← hfront, utf8_eq_flatMap, utf8_eq_flatMap, h]
  intro cs
  induction cs with
  | nil =>
    intro ds front hcs
    exact ⟨[], (append_eq_nil_iff.mp hcs.symm).1⟩
  | cons c cs ih =>
    intro ds front hcs
    rw [flatMap_cons] at hcs
    rcases le_or_gt (String.utf8EncodeChar c).length front.length with hle | hlt
    · obtain ⟨rest, rfl⟩ := prefix_of_prefix_length_le ⟨_, hcs⟩ (prefix_append _ _) hle
      rw [append_assoc] at hcs
      obtain ⟨us, rfl⟩ := ih ds rest (append_cancel_left hcs)
      exact ⟨c :: us, rfl⟩
    · rcases Nat.eq_zero_or_pos front.length with hzero | hpos
      · exact ⟨[], eq_nil_of_length_eq_zero hzero⟩
      -- the next byte would be inside a character and begin another one
      have hnext := congrArg (·[front.length]?) hcs
      rw [getElem?_append_left hlt, getElem?_append_right le_rfl, Nat.sub_self,
        getElem?_eq_getElem hlt] at hnext
      cases ds with
      | nil => cases hnext
      | cons d ds =>
        have hd : 0 < (String.utf8EncodeChar d).length := by
          rw [String.length_utf8EncodeChar]
          exact Char.utf8Size_pos d
        rw [flatMap_cons, getElem?_append_left hd, getElem?_eq_getElem hd] at hnext
        have hfirst := UInt8.isUTF8FirstByte_getElem_zero_utf8EncodeChar (c := d)
        rw [← Option.some.inj hnext, UInt8.isUTF8FirstByte_getElem_utf8EncodeChar] at hfirst
        omega

lemma lt_of_mem_utf8 {s : String} {x : UInt8} (h : x ∈ utf8 s) : x < 0xFE := by
  rw [utf8_eq_flatMap, mem_flatMap] at h
  obtain ⟨c, -, hx⟩ := h
  rw [UInt8.lt_iff_toNat_lt]
  change x.toNat < 254
  rw [String.utf8EncodeChar] at hx
  split_ifs at hx <;> simp only [mem_cons, not_mem_nil, or_false] at hx
  all_goals
    rcases hx with rfl | rfl | rfl | rfl <;> rw [UInt8.toNat_ofNat'] <;> omega

end Bytes

end Smongo
