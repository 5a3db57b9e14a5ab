import PgSense.Library.Redaction
import PgSense.Rules.Masking
import PgSense.TextBytes

/-! What a masked sample tells about the text it was made from. -/

namespace PgSense
open Library
set_option autoImplicit false

/-- The byte offset of a character cuts the text in front of that character. -/
theorem slice_charIndices (s : String) {k : Nat} (hk : k < s.toList.length) :
    slice s ((((charIndices 0 s.toList)[k]?).map Prod.fst).getD 0) (utf8 s).length =
      String.ofList (s.toList.drop k) := by
  rw [getElem?_charIndices 0 hk, Option.map_some, Option.getD_some, Nat.zero_add]
  apply slice_of_slice?
  apply slice?_eq_some.mpr
  have hsplit : s.toList.take k ++ s.toList.drop k = s.toList := List.take_append_drop k s.toList
  refine ⟨s.toList.take k, [], ?_, rfl, ?_⟩
  · rw [String.toList_ofList, List.append_nil, hsplit]
  · rw [utf8_ofList, ← List.length_append, ← encode_append, hsplit, utf8_eq_encode]

theorem toList_mask_short {s : String} (h : s.toList.length < 8) :
    (mask s).toList = List.replicate s.toList.length '*' := by
  unfold mask
  dsimp only
  rw [if_pos h, String.toList_ofList]

/-- On characters the mask is a redaction. -/
theorem toList_mask {s : String} (h : 8 ≤ s.toList.length) :
    (mask s).toList = redact '*' 2 s.toList := by
  unfold mask
  dsimp only
  rw [if_neg (by omega), slice_charIndices s (by omega), String.toList_append, String.toList_ofList,
    String.toList_ofList]
  rfl

theorem length_mask (s : String) : (mask s).toList.length = s.toList.length := by
  rcases Nat.lt_or_ge s.toList.length 8 with hshort | hlong
  · rw [toList_mask_short hshort, List.length_replicate]
  · rw [toList_mask hlong, length_redact '*' (by omega)]

/-- Two texts have the same mask exactly when they are equally long and, from eight
characters on, agree at both ends. -/
theorem mask_eq_iff (s t : String) : mask s = mask t ↔
    s.toList.length = t.toList.length ∧ (8 ≤ s.toList.length →
      s.toList.take 2 = t.toList.take 2 ∧
        s.toList.drop (s.toList.length - 2) = t.toList.drop (s.toList.length - 2)) := by
  rw [← String.toList_inj]
  by_cases hlen : s.toList.length = t.toList.length
  · rcases Nat.lt_or_ge s.toList.length 8 with hshort | hlong
    · rw [toList_mask_short hshort, toList_mask_short (hlen ▸ hshort), hlen]
      simp only [true_and, true_iff]
      intro hge
      omega
    · rw [toList_mask hlong, toList_mask (hlen ▸ hlong), redact_eq_iff '*' (by omega) hlen]
      simp only [hlen, hlen ▸ hlong, true_and, forall_const]
  · constructor
    · intro h
      have hlength := congrArg List.length h
      rw [length_mask, length_mask] at hlength
      exact absurd hlength hlen
    · exact fun h => absurd h.1 hlen

theorem mask_mask (s : String) : mask (mask s) = mask s := by
  have hlen := length_mask s
  rw [← String.toList_inj]
  rcases Nat.lt_or_ge s.toList.length 8 with hshort | hlong
  · rw [toList_mask_short (hlen ▸ hshort), hlen, toList_mask_short hshort]
  · rw [toList_mask (hlen ▸ hlong), toList_mask hlong, redact_redact '*' (by omega)]

/-- A mask keeps the length and, from eight characters on, the first two and the last two
characters. Everything else is hidden. -/
theorem mask_hides (s : String) :
    (mask s).toList.length = s.toList.length ∧
    (s.toList.length < 8 → ∀ c ∈ (mask s).toList, c = '*') ∧
    (8 ≤ s.toList.length → ∀ i : Nat, (mask s).toList[i]? =
      if 2 ≤ i ∧ i < s.toList.length - 2 then some '*' else s.toList[i]?) ∧
    (∀ t : String, s.toList.length = t.toList.length →
      (8 ≤ s.toList.length → s.toList.take 2 = t.toList.take 2 ∧
        s.toList.drop (s.toList.length - 2) = t.toList.drop (s.toList.length - 2)) →
      mask s = mask t) ∧
    mask (mask s) = mask s := by
  refine ⟨length_mask s, ?_, ?_, ?_, mask_mask s⟩
  · intro hshort c hc
    rw [toList_mask_short hshort] at hc
    exact List.eq_of_mem_replicate hc
  · intro hlong i
    rw [toList_mask hlong]
    exact getElem?_redact '*' (by omega) i
  · intro t hlen hends
    exact (mask_eq_iff s t).mpr ⟨hlen, hends⟩

example : mask "grüße an dich" = "gr*********ch" := by decide

end PgSense
