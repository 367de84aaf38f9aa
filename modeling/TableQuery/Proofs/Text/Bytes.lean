import Mathlib.Data.List.Basic
import TableQuery.Text.Utf8

/-!
# The bytes of characters

A character of ASCII is one byte, and no byte of another character is one of ASCII; so what is told
apart by single bytes is told apart by characters. Whole characters can be cut out of the bytes of a
text: each of them starts where it can be told that one starts.
-/

namespace TableQuery.Text

/-- The bytes of characters. -/
def utf8 (s : List Char) : List UInt8 := s.flatMap String.utf8EncodeChar

/-- The number of bytes of characters. -/
def width (s : List Char) : Nat := (utf8 s).length

/-- Whether a character starts at the position, or the bytes end there. -/
def isCharBoundary (bytes : List UInt8) (pos : Nat) : Bool :=
  pos == bytes.length || bytes[pos]?.any fun b => decide b.IsUTF8FirstByte

/-- The characters of the bytes from `start` to `stop`. There are none where the range is no range
of whole characters. -/
def slice (bytes : List UInt8) (start stop : Nat) : Option (List Char) :=
  if start ≤ stop && isCharBoundary bytes start && isCharBoundary bytes stop then
    (decode ((bytes.drop start).take (stop - start))).toOption.map String.toList
  else none

/-- The bytes from the position on, each as the character of its value. -/
def ahead (bytes : List UInt8) (pos : Nat) : List Char := (bytes.drop pos).map Char.ofUInt8

/-- What the bytes of characters look like one by one. -/
def single (s : List Char) : List Char := (utf8 s).map Char.ofUInt8

variable {s u v w : List Char} {c d : Char}

section Characters

@[simp] theorem utf8_nil : utf8 [] = [] := rfl

theorem utf8_append : utf8 (u ++ v) = utf8 u ++ utf8 v := List.flatMap_append

theorem width_append : width (u ++ v) = width u + width v := by
  rw [width, utf8_append, List.length_append]
  rfl

theorem width_cons : width (c :: s) = c.utf8Size + width s := by
  rw [← List.singleton_append, width_append]
  congr 1
  simp [width, utf8]

theorem encode_eq (s : String) : encode s = utf8 s.toList := rfl

/-- A character of ASCII is its byte. -/
theorem utf8_of_ascii (hc : c.toNat < 128) : utf8 [c] = [UInt8.ofNat c.toNat] := by
  have hsmall : c.toNat ≤ 127 := Nat.le_of_lt_succ hc
  rw [utf8, List.flatMap_singleton, String.utf8EncodeChar]
  exact if_pos hsmall

/-- No byte of a character beyond ASCII is one of ASCII. -/
theorem le_of_mem_utf8 (hc : 128 ≤ c.toNat) : ∀ b ∈ utf8 [c], 128 ≤ b.toNat := by
  have hlarge : ¬c.toNat ≤ 127 := Nat.not_le.2 hc
  rw [utf8, List.flatMap_singleton, String.utf8EncodeChar]
  simp only [Char.toNat_val, if_neg hlarge]
  intro b hb
  split at hb
  · simp only [List.mem_cons, List.not_mem_nil, or_false] at hb
    rcases hb with rfl | rfl <;> rw [UInt8.toNat_ofNat'] <;> omega
  split at hb
  · simp only [List.mem_cons, List.not_mem_nil, or_false] at hb
    rcases hb with rfl | rfl | rfl <;> rw [UInt8.toNat_ofNat'] <;> omega
  · simp only [List.mem_cons, List.not_mem_nil, or_false] at hb
    rcases hb with rfl | rfl | rfl | rfl <;> rw [UInt8.toNat_ofNat'] <;> omega

theorem toNat_ofUInt8 (b : UInt8) : (Char.ofUInt8 b).toNat = b.toNat := UInt8.toNat_toUInt32 b

theorem single_append : single (u ++ v) = single u ++ single v := by
  rw [single, utf8_append, List.map_append]
  rfl

theorem single_singleton (hc : c.toNat < 128) : single [c] = [c] := by
  rw [single, utf8_of_ascii hc, List.map_singleton]
  refine congrArg (fun d => [d]) (Char.toNat_inj.1 ?_)
  rw [toNat_ofUInt8, UInt8.toNat_ofNat', Nat.mod_eq_of_lt (by omega)]

theorem single_of_ascii (hw : ∀ c ∈ w, c.toNat < 128) : single (w ++ s) = w ++ single s := by
  induction w with
  | nil => rfl
  | cons c w ih =>
      obtain ⟨hc, hw⟩ := List.forall_mem_cons.1 hw
      rw [List.cons_append, ← List.singleton_append, single_append, single_singleton hc, ih hw]
      rfl

theorem width_of_ascii (hw : ∀ c ∈ w, c.toNat < 128) : width w = w.length := by
  have hlength := congrArg List.length (single_of_ascii (s := []) hw)
  rwa [List.append_nil, single, List.length_map, List.length_append, single, utf8_nil] at hlength

theorem single_cons_ne_nil (c : Char) (s : List Char) : single (c :: s) ≠ [] := by
  simp [single, utf8, String.utf8EncodeChar_ne_nil]

/-- What holds of a first character and beyond ASCII, holds of the first byte. -/
theorem forall_head?_single {P : Char → Prop} (hlarge : ∀ d : Char, 128 ≤ d.toNat → P d)
    (hs : ∀ d ∈ s.head?, P d) : ∀ d ∈ (single s).head?, P d := by
  cases s with
  | nil => exact hs
  | cons c s =>
      rw [← List.singleton_append, single_append]
      rcases Nat.lt_or_ge c.toNat 128 with hc | hc
      · rw [single_singleton hc]
        exact hs
      · intro d hd
        rw [List.head?_append_of_ne_nil _ (single_cons_ne_nil c [])] at hd
        obtain ⟨b, hb, rfl⟩ := List.mem_map.1 (List.mem_of_head? hd)
        exact hlarge _ (toNat_ofUInt8 b ▸ le_of_mem_utf8 hc b hb)

/-- A first byte of ASCII is the first character. -/
theorem exists_of_single_eq_cons (hc : c.toNat < 128) (h : single s = c :: v) :
    ∃ s', s = c :: s' ∧ v = single s' := by
  cases s with
  | nil => cases h
  | cons d s =>
      rcases Nat.lt_or_ge d.toNat 128 with hd | hd
      · rw [← List.singleton_append, single_append, single_singleton hd] at h
        obtain ⟨rfl, hv⟩ := List.cons.inj h
        exact ⟨s, rfl, hv.symm⟩
      · have hlarge := forall_head?_single (P := (128 ≤ ·.toNat)) (s := d :: s) (fun _ h => h)
          (by rintro e ⟨⟩; exact hd)
        rw [h] at hlarge
        exact absurd hc (Nat.not_lt.2 (hlarge c rfl))

end Characters

section Cutting

theorem isCharBoundary_width (u v : List Char) :
    isCharBoundary (utf8 (u ++ v)) (width u) = true := by
  rw [isCharBoundary, Bool.or_eq_true, beq_iff_eq, utf8_append]
  cases v with
  | nil => exact .inl (by rw [utf8_nil, List.append_nil]; rfl)
  | cons c v =>
      obtain ⟨b, bytes, hbytes⟩ := List.exists_cons_of_ne_nil (@String.utf8EncodeChar_ne_nil c)
      have hfirst := @UInt8.isUTF8FirstByte_getElem_zero_utf8EncodeChar c
      simp only [hbytes, List.getElem_cons_zero] at hfirst
      have hget : (utf8 u ++ utf8 (c :: v))[width u]? = some b := by
        rw [width, List.getElem?_append_right (Nat.le_refl _), Nat.sub_self, utf8,
          List.flatMap_cons, hbytes]
        rfl
      exact .inr (by rw [hget]; exact decide_eq_true hfirst)

theorem drop_width (u v : List Char) : (utf8 (u ++ v)).drop (width u) = utf8 v := by
  rw [utf8_append, width, List.drop_left]

/-- Whole characters can be cut out. -/
theorem slice_eq (u w v : List Char) :
    slice (utf8 (u ++ (w ++ v))) (width u) (width u + width w) = some w := by
  have hstart := isCharBoundary_width u (w ++ v)
  have hstop := isCharBoundary_width (u ++ w) v
  rw [List.append_assoc, width_append] at hstop
  have hbytes : ((utf8 (u ++ (w ++ v))).drop (width u)).take (width u + width w - width u) =
      encode (String.ofList w) := by
    rw [Nat.add_sub_cancel_left, drop_width, utf8_append, width, List.take_left, encode_eq,
      String.toList_ofList]
  rw [slice, hstart, hstop, hbytes, decode_encode, decide_eq_true (Nat.le_add_right _ _)]
  simp [Except.toOption]

/-- The end of a text can be cut off at a character. -/
theorem slice_rest (u v : List Char) :
    slice (utf8 (u ++ v)) (width u) (utf8 (u ++ v)).length = some v := by
  have hslice := slice_eq u v []
  rwa [List.append_nil, ← width_append] at hslice

theorem ahead_eq (u v : List Char) : ahead (utf8 (u ++ v)) (width u) = single v := by
  rw [ahead, drop_width]
  rfl

end Cutting

end TableQuery.Text
