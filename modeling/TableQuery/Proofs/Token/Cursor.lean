import TableQuery.Proofs.Text.Bytes
import TableQuery.Proofs.Token.Respacing

/-!
# The reader of tokens on bytes

A text is stored as bytes, and a reader of tokens may hold a cursor into them. It tells tokens apart
by looking at single bytes, and cuts out of the text what lies between two positions. A cut may
fail: its ends have to be in order, and each of them where a character starts or at the end of the
text. The reader answers as `Token.next` does, and at no character does a cut fail.
-/

namespace TableQuery.Token

open Text

variable {u s w rest contents : List Char} {t : Token} {c d : Char} {offset : Nat}

section Reader

/-- What a reader with a cursor answers, and where the cursor stands then. -/
structure Step where
  /-- The token, `none` at the end of the text. -/
  answer : Except LexicalError (Option Token)
  /-- The cursor. -/
  pos : Nat

/-- Cuts a token out and moves the cursor behind it. -/
def cutToken (bytes : List UInt8) (start stop : Nat) (make : List Char → Token) : Option Step :=
  (slice bytes start stop).map fun w => ⟨.ok (some (make w)), stop⟩

/-- Looks for the closing delimiter, character by character and with an offset into the bytes. The
answer is the contents and the offset behind the delimiter. -/
def closing (delimiter : Char) : (escaped : Bool) → (offset : Nat) → List Char →
    Option (List Char × Nat)
  | _, _, [] => none
  | false, offset, c :: rest =>
    if c = delimiter then some ([], offset + c.utf8Size)
    else if c = '\\' then closing delimiter true (offset + c.utf8Size) rest
    else (closing delimiter false (offset + c.utf8Size) rest).map fun (s, stop) => (c :: s, stop)
  | true, offset, c :: rest =>
    (closing delimiter false (offset + c.utf8Size) rest).map fun (s, stop) => (c :: s, stop)

/-- Reads a literal at its opening delimiter. One that is not closed leaves the cursor behind this
delimiter. -/
def literalAt (bytes : List UInt8) (kind : Kind) (delimiter : Char) (start : Nat) :
    Option Step := do
  let body := start + delimiter.utf8Size
  let rest ← slice bytes body bytes.length
  match closing delimiter false 0 rest with
  | some (contents, offset) =>
    cutToken bytes start (body + offset) fun w =>
      ⟨kind, String.ofList w, some (.text (String.ofList contents))⟩
  | none => some ⟨.error .openLiteral, body⟩

/-- Reads a token that starts at the position. -/
def tokenAt (bytes : List UInt8) (start : Nat) : Option Step :=
  match ahead bytes start with
  | [] => some ⟨.ok none, start⟩
  | c :: after =>
    if isWordStart c then
      cutToken bytes start (start + ((c :: after).takeWhile isWordPart).length) fun w =>
        ofWord (String.ofList w)
    else if c.isDigit then
      cutToken bytes start (start + (splitNumeral (c :: after)).1.length) ofNumeral
    else match ofChar? c, literalKind? c with
      | some kind, _ => cutToken bytes start (start + 1) fun w => ⟨kind, String.ofList w, none⟩
      | none, some kind => literalAt bytes kind c start
      | none, none =>
        match splitOperator? (c :: after) with
        | some (symbol, _) =>
          cutToken bytes start (start + symbol.length) fun w => operator (String.ofList w)
        | none => (slice bytes start bytes.length).map fun rest =>
          ⟨.error (.stray (String.ofList rest)), start⟩

/-- The position behind the white space at the cursor. -/
def skipBlank (bytes : List UInt8) (pos : Nat) : Option Nat :=
  (slice bytes pos bytes.length).map fun rest =>
    pos + (width rest - width (rest.dropWhile isBlank))

/-- Reads the first token behind the cursor. -/
def nextAt (bytes : List UInt8) (pos : Nat) : Option Step :=
  (skipBlank bytes pos).bind (tokenAt bytes)

end Reader

section Bytes

theorem toNat_lt_of_isWordPart (h : isWordPart c = true) : c.toNat < 128 := by
  by_cases hdigit : c.isDigit = true
  · have := isDigit_iff.1 hdigit
    omega
  · have hstart : isWordStart c = true := by
      simpa [isWordStart, isWordPart, Char.isAlphanum, hdigit] using h
    rcases isWordStart_iff.1 hstart with h | h | rfl
    · omega
    · omega
    · decide

theorem toNat_lt_of_isDigit (h : c.isDigit = true) : c.toNat < 128 := by
  have := isDigit_iff.1 h
  omega

theorem toNat_lt_of_mem_symbols (h : w ∈ symbols) : ∀ c ∈ w, c.toNat < 128 := by
  have hall : ∀ w ∈ symbols, ∀ c ∈ w, c.toNat < 128 := by simp [symbols]
  exact hall w h

theorem toNat_lt_of_ofChar? {kind : Kind} (h : ofChar? c = some kind) : c.toNat < 128 := by
  unfold ofChar? at h
  split at h <;> first | decide | cases h

theorem toNat_lt_of_literalKind? {kind : Kind} (h : literalKind? c = some kind) :
    c.toNat < 128 := by
  unfold literalKind? at h
  split at h <;> first | decide | cases h

/-- The one character that starts an operator and is none is the exclamation mark. -/
theorem splitOperator?_eq_none_iff : splitOperator? (c :: s) = none ↔
    [c] ∉ symbols ∧ (c = '!' → s.head? ≠ some '=') := by
  have hsingle : [c] ∈ symbols ↔ ['=', '<', '>', '+', '-', '/', '%', '^'].contains c = true := by
    simp [symbols]
  rw [hsingle]
  unfold splitOperator?
  split
  case h_1 h => cases h; simp
  case h_2 h => cases h; simp
  case h_3 h => cases h; simp
  case h_4 h => cases h; simp
  case h_5 hmark h =>
    cases h
    have hhead : c = '!' → s.head? ≠ some '=' := by
      rintro hc hs
      obtain ⟨tail, rfl⟩ := List.head?_eq_some_iff.1 hs
      exact hmark tail hc rfl
    simp only [ite_eq_right_iff, reduceCtorEq, imp_false]
    exact ⟨fun h => ⟨h, hhead⟩, And.left⟩
  case h_6 h => cases h

end Bytes

section Literals

theorem Quoted.closing_append (hd : d ≠ '\\') (h : Quoted d w contents) (offset : Nat)
    (rest : List Char) :
    closing d false offset (w ++ rest) = some (contents, offset + width w) := by
  induction h generalizing offset with
  | close =>
      rw [List.singleton_append, closing, if_pos rfl, width_cons]
      rfl
  | escaped c _ ih =>
      rw [List.cons_append, List.cons_append, closing, if_neg hd.symm, if_pos rfl, closing, ih,
        width_cons, width_cons, ← Nat.add_assoc, ← Nat.add_assoc]
      rfl
  | plain hc hc' _ ih =>
      rw [List.cons_append, closing, if_neg hc, if_neg hc', ih, width_cons, ← Nat.add_assoc]
      rfl

theorem closing_eq_none (h : decodeQuoted d s = none) : closing d false offset s = none := by
  fun_induction decodeQuoted d s generalizing offset with
  | case1 => rfl
  | case2 => cases h
  | case3 hd => rw [closing, if_neg hd, if_pos rfl, closing]
  | case4 e after hd ih =>
      rw [closing, if_neg hd, if_pos rfl, closing, ih (Option.map_eq_none_iff.1 h)]
      rfl
  | case5 c after hc hc' ih =>
      rw [closing, if_neg hc, if_neg hc', ih (Option.map_eq_none_iff.1 h)]
      rfl

end Literals

section Tokens

theorem cutToken_eq (u w rest : List Char) (make : List Char → Token) :
    cutToken (utf8 (u ++ (w ++ rest))) (width u) (width u + width w) make =
      some ⟨.ok (some (make w)), width u + width w⟩ := by
  rw [cutToken, slice_eq]
  rfl

theorem not_isWordPart_of_le (h : 128 ≤ c.toNat) : isWordPart c = false :=
  Bool.eq_false_iff.2 fun hc => Nat.not_lt.2 h (toNat_lt_of_isWordPart hc)

theorem not_isDigit_of_le (h : 128 ≤ c.toNat) : c.isDigit = false :=
  Bool.eq_false_iff.2 fun hc => Nat.not_lt.2 h (toNat_lt_of_isDigit hc)

/-- The digits of a numeral and its point are single bytes. -/
theorem tokenAt_numeral (hne : w ≠ []) (hw : ∀ d ∈ w, d.isDigit = true)
    (hs : ∀ d ∈ s, d.isDigit = true ∨ d = '.')
    (hsplit : splitNumeral (w ++ s ++ single rest) = (w ++ s, single rest)) :
    tokenAt (utf8 (u ++ (w ++ s ++ rest))) (width u) =
      some ⟨.ok (some (ofNumeral (w ++ s))), width u + width (w ++ s)⟩ := by
  have hascii : ∀ d ∈ w ++ s, d.toNat < 128 := by
    refine List.forall_mem_append.2 ⟨fun d hd => toNat_lt_of_isDigit (hw d hd), fun d hd => ?_⟩
    rcases hs d hd with hdigit | rfl
    · exact toNat_lt_of_isDigit hdigit
    · decide
  obtain ⟨c, w, rfl⟩ := List.exists_cons_of_ne_nil hne
  have hc := hw c List.mem_cons_self
  rw [List.cons_append, List.cons_append] at hsplit
  rw [tokenAt, ahead_eq, single_of_ascii hascii, List.cons_append, List.cons_append]
  simp only [isWordStart_of_isDigit hc, hc, hsplit, if_true, Bool.false_eq_true, if_false]
  rw [← List.cons_append, ← width_of_ascii hascii]
  exact cutToken_eq u (c :: w ++ s) rest _

theorem tokenAt_char {kind : Kind} (hc : ofChar? c = some kind) (u s : List Char) :
    tokenAt (utf8 (u ++ c :: s)) (width u) =
      some ⟨.ok (some ⟨kind, c.toString, none⟩), width u + width [c]⟩ := by
  have hascii : ∀ d ∈ [c], d.toNat < 128 := by simpa using toNat_lt_of_ofChar? hc
  have hcut := cutToken_eq u [c] s fun w => ⟨kind, String.ofList w, none⟩
  have hsingle : single (c :: s) = c :: single s := single_of_ascii hascii
  rw [width_of_ascii hascii] at hcut ⊢
  rw [tokenAt, ahead_eq, hsingle]
  unfold ofChar? at hc
  split at hc <;> cases hc <;> exact hcut

theorem tokenAt_literal {kind : Kind} (hc : literalKind? c = some kind) (u s : List Char) :
    tokenAt (utf8 (u ++ c :: s)) (width u) = literalAt (utf8 (u ++ c :: s)) kind c (width u) := by
  have hascii : ∀ d ∈ [c], d.toNat < 128 := by simpa using toNat_lt_of_literalKind? hc
  have hsingle : single (c :: s) = c :: single s := single_of_ascii hascii
  rw [tokenAt, ahead_eq, hsingle]
  unfold literalKind? at hc
  split at hc <;> cases hc <;> rfl

/-- Behind an opening delimiter the whole rest of the text is searched. -/
theorem slice_body (u : List Char) (c : Char) (s : List Char) :
    slice (utf8 (u ++ c :: s)) (width u + c.utf8Size) (utf8 (u ++ c :: s)).length = some s := by
  have hslice := slice_rest (u ++ [c]) s
  rwa [width_append, width_cons, List.append_assoc, List.singleton_append] at hslice

/-- At the front of a lexeme the reader cuts out its token. -/
theorem Lexeme.tokenAt (h : Lexeme w rest t) (u : List Char) :
    tokenAt (utf8 (u ++ (w ++ rest))) (width u) = some ⟨.ok (some t), width u + width w⟩ := by
  cases h with
  | @word c w _ hc hw hrest =>
      have hparts : ∀ d ∈ c :: w, isWordPart d = true :=
        List.forall_mem_cons.2 ⟨isWordPart_of_isWordStart hc, hw⟩
      have hascii : ∀ d ∈ c :: w, d.toNat < 128 := fun d hd => toNat_lt_of_isWordPart (hparts d hd)
      obtain ⟨hspan, -⟩ := span_append hparts
        (forall_head?_single (fun _ => not_isWordPart_of_le) hrest)
      rw [List.cons_append] at hspan
      rw [Token.tokenAt, ahead_eq, single_of_ascii hascii, List.cons_append]
      simp only [if_pos hc]
      rw [hspan, ← width_of_ascii hascii]
      exact cutToken_eq u (c :: w) rest _
  | @whole w _ hne hw hrest hpoint =>
      have hsplit := splitNumeral_whole hw
        (forall_head?_single (fun _ => not_isDigit_of_le) hrest) fun d after h => by
          obtain ⟨tail, rfl, hafter⟩ := exists_of_single_eq_cons (by decide) h
          have htail := forall_head?_single (s := tail) (P := (·.isDigit = false))
            (fun _ => not_isDigit_of_le) fun e he => by
              obtain ⟨after, rfl⟩ := List.head?_eq_some_iff.1 he
              exact hpoint e after rfl
          exact htail d (by rw [← hafter]; rfl)
      have hread : tokenAt (utf8 (u ++ (w ++ [] ++ rest))) (width u) = _ :=
        tokenAt_numeral hne hw (by simp) (by simpa using hsplit)
      rwa [List.append_nil] at hread
  | @decimal w f _ hne hw hne' hf hrest =>
      refine tokenAt_numeral hne hw
        (List.forall_mem_cons.2 ⟨.inr rfl, fun d hd => .inl (hf d hd)⟩) ?_
      exact splitNumeral_decimal hw hne' hf
        (forall_head?_single (fun _ => not_isDigit_of_le) hrest)
  | char hc => exact tokenAt_char hc u rest
  | @literal c kind w contents _ hc hw =>
      have hclosing := hw.closing_append (ne_of_literalKind? hc) 0 rest
      rw [List.cons_append, tokenAt_literal hc, literalAt]
      simp only [bind, slice_body, Option.bind_some, hclosing]
      rw [Nat.zero_add, Nat.add_assoc, ← width_cons]
      exact cutToken_eq u (c :: w) rest _
  | symbol h =>
      obtain ⟨hmem, hlonger⟩ := splitOperator?_eq_some_iff.1 h
      have hascii := toNat_lt_of_mem_symbols hmem
      have hsplit := splitOperator?_eq_some_iff.2 ⟨hmem, forall_head?_single (fun d hd hlong =>
        Nat.not_lt.2 hd (toNat_lt_of_mem_symbols hlong d (by simp))) hlonger⟩
      obtain ⟨c, w, rfl, -, hstart, hdigit, hchar, hliteral⟩ := exists_cons_of_mem_symbols hmem
      rw [List.cons_append] at hsplit
      rw [Token.tokenAt, ahead_eq, single_of_ascii hascii, List.cons_append]
      simp only [hstart, hdigit, hchar, hliteral, hsplit, Bool.false_eq_true, if_false]
      rw [← width_of_ascii hascii]
      exact cutToken_eq u (c :: w) rest _

/-- No token starts with the character, whatever follows it. -/
structure StartsNone (c : Char) : Prop where
  word : isWordStart c = false
  digit : c.isDigit = false
  char : ofChar? c = none
  literal : literalKind? c = none
  symbol : [c] ∉ symbols

/-- No token starts beyond ASCII. -/
theorem startsNone_of_le (h : 128 ≤ c.toNat) : StartsNone c where
  word := Bool.eq_false_iff.2 fun hc =>
    Nat.not_lt.2 h (toNat_lt_of_isWordPart (isWordPart_of_isWordStart hc))
  digit := not_isDigit_of_le h
  char := Option.eq_none_iff_forall_ne_some.2 fun _ hc => Nat.not_lt.2 h (toNat_lt_of_ofChar? hc)
  literal := Option.eq_none_iff_forall_ne_some.2 fun _ hc =>
    Nat.not_lt.2 h (toNat_lt_of_literalKind? hc)
  symbol hc := Nat.not_lt.2 h (toNat_lt_of_mem_symbols hc c List.mem_cons_self)

theorem tokenAt_stray (hc : StartsNone c) (hmark : c = '!' → s.head? ≠ some '=')
    (u : List Char) : tokenAt (utf8 (u ++ c :: s)) (width u) =
      some ⟨.error (.stray (String.ofList (c :: s))), width u⟩ := by
  obtain ⟨d, tail, hsingle⟩ := List.exists_cons_of_ne_nil (single_cons_ne_nil c s)
  have hd : StartsNone d := forall_head?_single (P := StartsNone) (s := c :: s)
    (fun _ => startsNone_of_le) (by rintro e ⟨⟩; exact hc) d (by rw [hsingle]; rfl)
  have hmark' : d = '!' → tail.head? ≠ some '=' := by
    rintro rfl
    obtain ⟨s', hs, rfl⟩ := exists_of_single_eq_cons (by decide) hsingle
    obtain ⟨rfl, rfl⟩ := List.cons.inj hs
    intro hhead
    refine forall_head?_single (P := (· ≠ '=')) (s := s) ?_ ?_ '=' hhead rfl
    · rintro e he rfl
      exact absurd he (by decide)
    · rintro e he rfl
      exact hmark rfl he
  have hnone := splitOperator?_eq_none_iff.2 ⟨hd.symbol, hmark'⟩
  rw [tokenAt, ahead_eq, hsingle]
  simp only [hd.word, hd.digit, hd.char, hd.literal, hnone, slice_rest, Bool.false_eq_true,
    if_false, Option.map_some]

/-- There are two ways to fail: a literal is not closed, or no token starts with the character. -/
theorem readToken_eq_error {e : LexicalError} (h : (readToken c s).answer = .error e) :
    (∃ kind, literalKind? c = some kind ∧ decodeQuoted c s = none ∧
      readToken c s = ⟨.error .openLiteral, s⟩) ∨
    (StartsNone c ∧ (c = '!' → s.head? ≠ some '=') ∧
      readToken c s = ⟨.error (.stray (String.ofList (c :: s))), c :: s⟩) := by
  rw [readToken] at h
  split at h
  · cases h
  next hword =>
  split at h
  · cases h
  next hdigit =>
  split at h
  · cases h
  · next kind hchar hliteral =>
    refine .inl ⟨kind, hliteral, ?_⟩
    rw [readToken_literal hliteral, readLiteral]
    rw [readLiteral] at h
    split at h
    · cases h
    · next hnone => exact ⟨hnone, rfl⟩
  · next hchar hliteral =>
    split at h
    · cases h
    · next hnone =>
      obtain ⟨hsymbol, hmark⟩ := splitOperator?_eq_none_iff.1 hnone
      have hc : StartsNone c := ⟨Bool.eq_false_iff.2 hword, Bool.eq_false_iff.2 hdigit, hchar,
        hliteral, hsymbol⟩
      refine .inr ⟨hc, hmark, ?_⟩
      simp only [readToken, hc.word, hc.digit, hchar, hliteral, hnone, Bool.false_eq_true, if_false]

/-- The reader of bytes answers as the reader of characters does, and its cursor goes past what that
one consumes. -/
theorem tokenAt_eq (u : List Char) (c : Char) (s : List Char) :
    ∃ w, c :: s = w ++ (readToken c s).rest ∧
      tokenAt (utf8 (u ++ c :: s)) (width u) =
        some ⟨(readToken c s).answer, width u + width w⟩ := by
  cases hanswer : (readToken c s).answer with
  | error e =>
      rw [← hanswer]
      rcases readToken_eq_error hanswer with ⟨kind, hkind, hnone, hread⟩ | ⟨hc, hmark, hread⟩
      · rw [hread, tokenAt_literal hkind, literalAt]
        refine ⟨[c], rfl, ?_⟩
        simp only [bind, slice_body, Option.bind_some, closing_eq_none hnone]
        rw [width_cons]
        rfl
      · rw [hread]
        exact ⟨[], rfl, tokenAt_stray hc hmark u⟩
  | ok found =>
      cases found with
      | none => exact absurd hanswer answer_readToken
      | some t =>
          obtain ⟨w, hw, hlexeme⟩ := exists_lexeme (t := t)
            (show readToken c s = ⟨_, (readToken c s).rest⟩ by rw [← hanswer])
          refine ⟨w, hw, ?_⟩
          rw [hw]
          exact hlexeme.tokenAt u

theorem skipBlank_eq (u s : List Char) :
    skipBlank (utf8 (u ++ s)) (width u) = some (width (u ++ s.takeWhile isBlank)) := by
  have hparts : width s = width (s.takeWhile isBlank) + width (s.dropWhile isBlank) := by
    rw [← width_append, List.takeWhile_append_dropWhile]
  rw [skipBlank, slice_rest, Option.map_some, width_append, hparts, Nat.add_sub_cancel_right]

/-- The reader of bytes answers as `next` does, and its cursor stands in front of what `next`
leaves. -/
theorem nextAt_eq (u s : List Char) :
    ∃ w, s.dropWhile isBlank = w ++ (next s).rest ∧
      nextAt (utf8 (u ++ s)) (width u) =
        some ⟨(next s).answer, width (u ++ s.takeWhile isBlank) + width w⟩ := by
  have hparts : u ++ s = u ++ s.takeWhile isBlank ++ s.dropWhile isBlank := by
    rw [List.append_assoc, List.takeWhile_append_dropWhile]
  rw [nextAt, skipBlank_eq, Option.bind_some, hparts, next]
  cases s.dropWhile isBlank with
  | nil =>
      refine ⟨[], rfl, ?_⟩
      rw [tokenAt, ahead_eq]
      rfl
  | cons c rest => exact tokenAt_eq (u ++ s.takeWhile isBlank) c rest

end Tokens

end TableQuery.Token
