import Mathlib.Data.List.Forall2
import TableQuery.Proofs.Statement.Pieces
import TableQuery.Proofs.Token.Written

/-!
# Statements and tokens

A text that is cut into tokens is cut into statements at its semicolon tokens: a scanner that only
tells quotes from other characters never disagrees with the reader of tokens about what is quoted.
-/

namespace TableQuery

namespace Token

/-- Cuts tokens behind each semicolon; the last piece is what follows them. -/
def pieces : List Token → List (List Token) × List Token
  | [] => ([], [])
  | t :: ts =>
    if t.kind = .semicolon then ([t] :: (pieces ts).1, (pieces ts).2)
    else Statement.glue [t] (pieces ts)

/-- The statements that tokens form. A semicolon alone is none, and neither is an empty rest. -/
def statements (ts : List Token) : List (List Token) :=
  (pieces ts).1.filter (fun piece => piece.map (·.kind) ≠ [.semicolon]) ++
    [(pieces ts).2].filter (· ≠ [])

theorem pieces_isEmpty_iff {ts : List Token} :
    (pieces ts).1.isEmpty = true ↔ ∀ t ∈ ts, t.kind ≠ .semicolon := by
  induction ts with
  | nil => simp [pieces]
  | cons t ts ih =>
      rw [pieces, List.forall_mem_cons]
      split
      · next hkind => simp [hkind]
      · next hkind =>
        rw [← ih]
        obtain ⟨_ | _, last⟩ := pieces ts <;> simp [Statement.glue, hkind]

theorem ne_nil_of_mem_pieces {ts : List Token} : ∀ piece ∈ (pieces ts).1, piece ≠ [] := by
  induction ts with
  | nil => nofun
  | cons t ts ih =>
      rw [pieces]
      split
      · exact List.forall_mem_cons.2 ⟨List.cons_ne_nil _ _, ih⟩
      · generalize pieces ts = cut at ih
        obtain ⟨_ | ⟨piece, ended⟩, last⟩ := cut
        · nofun
        · exact List.forall_mem_cons.2 ⟨List.cons_ne_nil _ _, (List.forall_mem_cons.1 ih).2⟩

end Token

namespace Statement

open Token

variable {s b w rest contents : List Char} {t : Token} {ts : List Token}

section Places

theorem passes_quoted {d : Char} (hd : d ≠ '\\') (h : Quoted d w contents) :
    Passes (.inside d) w .outside := by
  induction h with
  | close =>
      refine .cons rfl ?_
      rw [show Place.next d (.inside d) = .outside by simp [Place.next, hd]]
      exact .nil _
  | escaped c _ ih =>
      refine .cons rfl (.cons rfl ?_)
      exact ih
  | plain hc hc' _ ih =>
      refine .cons rfl ?_
      rw [show Place.next _ (.inside d) = .inside d by simp [Place.next, hc, hc']]
      exact ih

/-- Only a semicolon ends a statement. -/
theorem passes_lexeme (h : Lexeme w rest t) (hkind : t.kind ≠ .semicolon) :
    Passes .outside w .outside := by
  have hdigits : ∀ {w : List Char}, (∀ d ∈ w, d.isDigit = true) → Passes .outside w .outside :=
    fun h => passes_of_isPlain fun c hc => isPlain_of_class (by decide) (h c hc)
  cases h with
  | word hc hw =>
      exact passes_of_isPlain (List.forall_mem_cons.2 ⟨isPlain_of_class (by decide) hc,
        fun d hd => isPlain_of_class (by decide) (hw d hd)⟩)
  | whole hne hw => exact hdigits hw
  | decimal hne hw hne' hf => exact (hdigits hw).append (.cons rfl (hdigits hf))
  | char hc =>
      unfold ofChar? at hc
      split at hc <;> cases hc
      case h_5 => exact absurd rfl hkind
      all_goals exact passes_of_isPlain (List.forall_mem_singleton.2 (by decide))
  | literal hc hw =>
      have hpasses := passes_quoted (ne_of_literalKind? hc) hw
      unfold literalKind? at hc
      split at hc <;> cases hc <;> exact .cons rfl hpasses
  | symbol h =>
      have hall : symbols.all (·.all isPlain) = true := by decide
      exact passes_of_isPlain
        (List.all_eq_true.1 (List.all_eq_true.1 hall w (splitOperator?_eq_some h).2))

theorem eq_of_lexeme_semicolon (h : Lexeme w rest t) (hkind : t.kind = .semicolon) :
    w = [';'] := by
  cases h with
  | word => exact absurd hkind (kind_ofWord_ne _ (by decide))
  | whole => cases hkind
  | decimal => cases hkind
  | char hc =>
      unfold ofChar? at hc
      split at hc <;> cases hc <;> first | rfl | cases hkind
  | literal hc =>
      unfold literalKind? at hc
      split at hc <;> cases hc <;> cases hkind
  | symbol => cases hkind

end Places

section Pieces

/-- A token in front of a text goes to the first piece of it. -/
theorem writes_glue {cut : List (List Char) × List Char} {tokens : List (List Token) × List Token}
    (hended : List.Forall₂ Writes cut.1 tokens.1) (hlast : Writes cut.2 tokens.2)
    (hb : ∀ c ∈ b, Text.isBlank c = true) (hw : Lexeme w (cut.1.flatten ++ cut.2) t) :
    List.Forall₂ Writes (glue (b ++ w) cut).1 (glue [t] tokens).1 ∧
      Writes (glue (b ++ w) cut).2 (glue [t] tokens).2 := by
  obtain ⟨ended, last⟩ := cut
  obtain ⟨endedTokens, lastTokens⟩ := tokens
  cases hended with
  | nil =>
      refine ⟨.nil, ?_⟩
      rw [glue, List.append_assoc]
      exact .token hb hw hlast
  | @cons piece ts ended' _ hpiece hended =>
      refine ⟨.cons ?_ hended, hlast⟩
      rw [List.flatten_cons, List.append_assoc] at hw
      rw [List.append_assoc]
      exact .token hb hw.of_append hpiece

/-- Each piece of a text is written with the tokens of the corresponding piece of its tokens. -/
theorem writes_pieces (h : Writes s ts) :
    List.Forall₂ Writes (pieces .outside s).1 (Token.pieces ts).1 ∧
      Writes (pieces .outside s).2 (Token.pieces ts).2 := by
  induction h with
  | blank hs =>
      rw [(passes_of_isBlank hs).pieces_eq]
      exact ⟨.nil, .blank hs⟩
  | @token b w rest t ts hb hw hrest ih =>
      rw [Token.pieces]
      split
      · next hkind =>
        obtain rfl := eq_of_lexeme_semicolon hw hkind
        have halone : Lexeme [';'] [] t :=
          Lexeme.of_append (show Lexeme [';'] ([] ++ rest) t from hw)
        have hpiece : Writes (b ++ ([';'] ++ [])) [t] := .token hb halone (.blank nofun)
        rw [List.singleton_append, (passes_of_isBlank hb).pieces_end]
        exact ⟨.cons hpiece ih.1, ih.2⟩
      · next hkind =>
        rw [← List.append_assoc,
          ((passes_of_isBlank hb).append (passes_lexeme hw hkind)).pieces_append]
        rw [← flatten_pieces .outside rest] at hw
        exact writes_glue ih.1 ih.2 hb hw

end Pieces

section Statements

theorem writes_semicolon : Writes [';'] [⟨.semicolon, ";", none⟩] :=
  @Writes.token [] [';'] [] _ [] nofun (.char rfl) (.blank nofun)

/-- A piece is a semicolon alone when its only token is one. -/
theorem trimBy_eq_semicolon_iff (h : Writes s ts) :
    Text.trimBy Text.isBlank s = [';'] ↔ ts.map (·.kind) = [.semicolon] := by
  constructor
  · intro htrim
    obtain rfl := (htrim ▸ h.trimBy).unique writes_semicolon
    rfl
  · intro hkinds
    cases h with
    | blank => cases hkinds
    | token hb hw hrest =>
        obtain ⟨hkind, hnil⟩ := List.cons.inj hkinds
        obtain rfl := eq_of_lexeme_semicolon hw hkind
        have hblank := hrest.eq_nil_iff.1 (List.map_eq_nil_iff.1 hnil)
        rw [Text.trimBy_append hb, Text.trimBy, List.singleton_append,
          Text.trimStart_cons (by decide), ← List.singleton_append,
          Text.trimEnd_append ⟨';', rfl, by decide⟩, Text.trimEnd_eq_nil_iff.2 hblank]
        rfl

theorem ofText_trim (h : Writes s ts) (hne : ts ≠ []) :
    ofText (String.ofList (Text.trimBy Text.isBlank s)) = .ok ts :=
  ofText_eq_ok_iff.2 ⟨hne, by rw [String.toList_ofList]; exact h.trimBy⟩

theorem ofText_ended {ended : List (List Char)} {tokens : List (List Token)}
    (h : List.Forall₂ Writes ended tokens) (hne : ∀ piece ∈ tokens, piece ≠ []) :
    (((ended.map (Text.trimBy Text.isBlank)).filter (· ≠ [';'])).map String.ofList).map ofText =
      (tokens.filter (fun piece => piece.map (·.kind) ≠ [.semicolon])).map .ok := by
  induction h with
  | nil => rfl
  | cons hpiece _ ih =>
      obtain ⟨hfirst, hothers⟩ := List.forall_mem_cons.1 hne
      have hrest := ih hothers
      have hiff := trimBy_eq_semicolon_iff hpiece
      rw [List.map_cons, List.filter_cons, List.filter_cons]
      simp only [ne_eq, hiff]
      split
      · rw [List.map_cons, List.map_cons, List.map_cons, ofText_trim hpiece hfirst]
        exact congrArg _ hrest
      · exact hrest

theorem ofText_last (h : Writes s ts) :
    (([Text.trimBy Text.isBlank s].filter (· ≠ [])).map String.ofList).map ofText =
      ([ts].filter (· ≠ [])).map .ok := by
  have hiff : Text.trimBy Text.isBlank s = [] ↔ ts = [] :=
    Text.trimBy_eq_nil_iff.trans h.eq_nil_iff.symm
  by_cases hnil : ts = []
  · simp [hiff.2 hnil, hnil]
  · have htrim := mt hiff.1 hnil
    simp [htrim, hnil, ofText_trim h hnil]

/-- The statements of a text are those of its tokens: there are as many, and the tokens of each are
those of its counterpart. A text has the end of a statement just when it has a semicolon token. -/
theorem split_tokens {text : String} {tokens : List Token} (h : ofText text = .ok tokens) :
    (split text).map ofText = (Token.statements tokens).map .ok ∧
      (isComplete text = true ↔ ∃ t ∈ tokens, t.kind = .semicolon) := by
  obtain ⟨-, hwrites⟩ := ofText_eq_ok_iff.1 h
  obtain ⟨hended, hlast⟩ := writes_pieces hwrites
  constructor
  · rw [split_eq, statements, Token.statements, List.map_append, List.map_append, List.map_append,
      ofText_ended hended ne_nil_of_mem_pieces, ofText_last hlast]
  · have hempty : (pieces .outside text.toList).1.isEmpty = (Token.pieces tokens).1.isEmpty := by
      rw [Bool.eq_iff_iff, List.isEmpty_iff_length_eq_zero, List.isEmpty_iff_length_eq_zero,
        hended.length_eq]
    rw [isComplete, hempty, Bool.not_eq_true', ← Bool.not_eq_true, pieces_isEmpty_iff]
    simp

/-- A quoted semicolon cuts nothing, a lone one is no statement, what follows the last one is. -/
theorem split_tokens_quoted_semicolon :
    let text := "SELECT 'a;b'; ; SELECT c"
    (split text).map ofText =
        [.ok [.keyword "SELECT", ⟨.string, "'a;b'", some (.text "a;b")⟩, ⟨.semicolon, ";", none⟩],
          .ok [.keyword "SELECT", .identifier "c"]] ∧
      isComplete text = true := by
  intro text
  have htokens : ofText text = .ok
      [.keyword "SELECT", ⟨.string, "'a;b'", some (.text "a;b")⟩, ⟨.semicolon, ";", none⟩,
        ⟨.semicolon, ";", none⟩, .keyword "SELECT", .identifier "c"] := by
    decide +kernel
  obtain ⟨hsplit, hcomplete⟩ := split_tokens htokens
  exact ⟨hsplit, hcomplete.2 ⟨⟨.semicolon, ";", none⟩, by simp, rfl⟩⟩

end Statements

end Statement

end TableQuery
