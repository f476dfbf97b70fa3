import Mathlib.Data.String.Basic
import Mathlib.Tactic.Common

/-!
# Prefixes of strings

Names that are built by concatenation are taken apart by prefix tests.
-/

namespace Smongo

open List

def stripPrefix (s pre : String) : Option String :=
  if pre.toList.isPrefixOf s.toList then some (String.ofList (s.toList.drop pre.toList.length))
  else none

def startsWith (pre s : String) : Bool := pre.toList.isPrefixOf s.toList

def containsText (pat s : String) : Bool := s.toList.tails.any pat.toList.isPrefixOf

lemma stripPrefix_eq_some_iff {s pre t : String} : stripPrefix s pre = some t ↔ s = pre ++ t := by
  unfold stripPrefix
  constructor
  · intro h
    split at h
    · next hpre =>
      obtain ⟨rest, hrest⟩ := isPrefixOf_iff_prefix.mp hpre
      cases h
      rw [← hrest, drop_left, ← String.toList_inj, String.toList_append, String.toList_ofList,
        hrest]
    · cases h
  · rintro rfl
    rw [String.toList_append, if_pos ( isPrefixOf_iff_prefix.mpr (prefix_append _ _)),
      drop_left, String.ofList_toList]

lemma startsWith_iff {pre s : String} : startsWith pre s = true ↔ ∃ t, s = pre ++ t := by
  unfold startsWith
  rw [ isPrefixOf_iff_prefix]
  constructor
  · rintro ⟨rest, hrest⟩
    refine ⟨String.ofList rest, ?_⟩
    rw [← String.toList_inj, String.toList_append, String.toList_ofList, hrest]
  · rintro ⟨t, rfl⟩
    rw [String.toList_append]
    exact prefix_append _ _

end Smongo
