import TableQuery.Session

/-!
# The lines of a text

In the bytes of a text only a line feed has the byte ten, so the lines of the bytes are the bytes
of the lines.
-/

namespace TableQuery

namespace Text

/-- The lines of a text, each with the line feed that ends it. -/
def lines : List Char → List (List Char)
  | [] => []
  | c :: rest =>
    if c = '\n' then [c] :: lines rest
    else match lines rest with
      | [] => [[c]]
      | line :: lines => (c :: line) :: lines

theorem flatten_lines (s : List Char) : (lines s).flatten = s := by
  induction s with
  | nil => rfl
  | cons c rest ih =>
      rw [lines]
      split
      · rw [List.flatten_cons, ih, List.singleton_append]
      · split <;> simp_all

theorem ne_of_mem_utf8EncodeChar {c : Char} (hc : c ≠ '\n') :
    ∀ b ∈ String.utf8EncodeChar c, b ≠ 10 := by
  have hval : c.val.toNat ≠ 10 := fun h => hc (Char.ext (UInt32.toNat_inj.1 h))
  have hbyte : ∀ {n : Nat}, 10 = UInt8.ofNat n → n % 256 = 10 := fun h =>
    UInt8.toNat_ofNat'.symm.trans (congrArg UInt8.toNat h.symm)
  rintro b hb rfl
  simp only [String.utf8EncodeChar] at hb
  -- All bytes but that of a character below 128 have their highest bit set.
  split at hb
  · have := hbyte (List.mem_singleton.1 hb)
    omega
  split at hb
  · simp only [List.mem_cons, List.not_mem_nil, or_false] at hb
    rcases hb with hb | hb <;>
      · have := hbyte hb
        omega
  split at hb
  · simp only [List.mem_cons, List.not_mem_nil, or_false] at hb
    rcases hb with hb | hb | hb <;>
      · have := hbyte hb
        omega
  · simp only [List.mem_cons, List.not_mem_nil, or_false] at hb
    rcases hb with hb | hb | hb | hb <;>
      · have := hbyte hb
        omega

end Text

namespace Session

theorem lines_append {bytes : List UInt8} (hne : bytes ≠ []) (h : ∀ b ∈ bytes, b ≠ 10)
    (rest : List UInt8) :
    lines (bytes ++ rest) = match lines rest with
      | [] => [bytes]
      | line :: lines => (bytes ++ line) :: lines := by
  induction bytes with
  | nil => exact absurd rfl hne
  | cons b bytes ih =>
      obtain ⟨hb, hbytes⟩ := List.forall_mem_cons.1 h
      rw [List.cons_append, lines, if_neg hb]
      cases bytes with
      | nil => rfl
      | cons b' bytes =>
          rw [ih (List.cons_ne_nil _ _) hbytes]
          cases lines rest <;> rfl

/-- The lines of the bytes of a text are the bytes of its lines. -/
theorem lines_encode (s : List Char) :
    lines (s.flatMap String.utf8EncodeChar) =
      (Text.lines s).map fun line => line.flatMap String.utf8EncodeChar := by
  induction s with
  | nil => rfl
  | cons c s ih =>
      rw [List.flatMap_cons, Text.lines]
      by_cases hc : c = '\n'
      · subst hc
        rw [if_pos rfl, List.map_cons, ← ih]
        rfl
      · have hne : String.utf8EncodeChar c ≠ [] := by
          rw [← List.length_pos_iff, String.length_utf8EncodeChar]
          exact c.utf8Size_pos
        rw [if_neg hc, lines_append hne (Text.ne_of_mem_utf8EncodeChar hc), ih]
        cases Text.lines s <;> simp

/-- The lines of an input as texts; those that are no texts are missing. -/
def lineTexts (input : List UInt8) : List (Option String) :=
  (lines input).map fun line => (Text.decode line).toOption

theorem lineTexts_encode (text : String) :
    lineTexts (Text.encode text) =
      (Text.lines text.toList).map fun line => some (String.ofList line) := by
  have hdecode : ∀ line : List Char,
      (Text.decode (line.flatMap String.utf8EncodeChar)).toOption = some (String.ofList line) := by
    intro line
    have hencode : Text.encode (String.ofList line) = line.flatMap String.utf8EncodeChar := by
      rw [Text.encode, String.toList_ofList]
    rw [← hencode, Text.decode_encode]
    rfl
  rw [lineTexts, Text.encode, lines_encode, List.map_map]
  exact List.map_congr_left fun line _ => hdecode line

/-- What has to be done for a text, line by line. -/
theorem actionsOf_encode (s : Session) (text : String) :
    s.actionsOf (Text.encode text) =
      s.actions ((Text.lines text.toList).map fun line => some (String.ofList line)) :=
  congrArg s.actions (lineTexts_encode text)

end Session

end TableQuery
