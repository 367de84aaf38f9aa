import TableQuery.Text.LetterCase

/-!
# ASCII letters in uppercase and lowercase

Only the letters `a` to `z` have another uppercase than themselves, and it is a letter `A` to `Z`;
these are the only ones that have another lowercase.
-/

namespace TableQuery.Text

theorem toUpper_cases (c : Char) : c.toUpper = c ∨
    97 ≤ c.toNat ∧ c.toNat ≤ 122 ∧ c.toUpper.toNat + 32 = c.toNat := by
  by_cases h : 'a'.val ≤ c.val ∧ c.val ≤ 'z'.val
  · have hval : c.toUpper.val = c.val + ('A'.val - 'a'.val) := by
      delta Char.toUpper
      rw [dif_pos h]
    have hnat : c.toUpper.toNat = (c.toNat + (2 ^ 32 - 32)) % 2 ^ 32 := by
      rw [Char.toNat, hval, UInt32.toNat_add]
      rfl
    have hlow : 97 ≤ c.toNat := UInt32.le_iff_toNat_le.1 h.1
    have hhigh : c.toNat ≤ 122 := UInt32.le_iff_toNat_le.1 h.2
    exact .inr ⟨hlow, hhigh, by omega⟩
  · exact .inl (dif_neg h)

theorem toLower_cases (c : Char) : c.toLower = c ∨ c.toLower.toNat = c.toNat + 32 := by
  by_cases h : 'A'.val ≤ c.val ∧ c.val ≤ 'Z'.val
  · have hval : c.toLower.val = c.val + ('a'.val - 'A'.val) := by
      delta Char.toLower
      rw [dif_pos h]
    have hnat : c.toLower.toNat = (c.toNat + 32) % 2 ^ 32 := by
      rw [Char.toNat, hval, UInt32.toNat_add]
      rfl
    have hhigh : c.toNat ≤ 90 := UInt32.le_iff_toNat_le.1 h.2
    exact .inr (by omega)
  · exact .inl (dif_neg h)

theorem toUpper_toUpper (c : Char) : c.toUpper.toUpper = c.toUpper := by
  rcases toUpper_cases c with h | ⟨-, hhigh, hupper⟩
  · rw [h, h]
  · rcases toUpper_cases c.toUpper with h | ⟨hlow, -⟩
    · exact h
    · omega

theorem asciiUpper_asciiUpper (s : String) : asciiUpper (asciiUpper s) = asciiUpper s := by
  simp only [asciiUpper, String.toList_ofList, List.map_map, Function.comp_def, toUpper_toUpper]

end TableQuery.Text
