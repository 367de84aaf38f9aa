import Mathlib.Data.List.Forall2
import TableQuery.Pattern
import TableQuery.Proofs.Evaluation.Transparency

/-!
# What a pattern covers

A pattern covers a text exactly if the text can be cut into runs of characters, one for each
character of the pattern in order: a single character for `_`, any run for `%`, and for every other
character that character in either case. The matcher finds such a cut without searching: behind
each piece of the pattern it notes for every suffix of the text whether the pieces from there on
cover it.
-/

namespace TableQuery

/-- The text can be cut into runs, one for each member of the list in order. -/
def CutsInto {α β : Type} (stands : α → List β → Prop) (l : List α) (text : List β) : Prop :=
  ∃ runs, List.Forall₂ stands l runs ∧ runs.flatten = text

namespace CutsInto

variable {α β γ : Type} {stands : α → List β → Prop} {a : α} {l : List α} {text : List β}

theorem nil_iff : CutsInto stands [] text ↔ text = [] := by
  constructor
  · rintro ⟨runs, hruns, rfl⟩
    cases hruns
    rfl
  · rintro rfl
    exact ⟨[], .nil, rfl⟩

theorem cons_iff : CutsInto stands (a :: l) text ↔
    ∃ run rest, text = run ++ rest ∧ stands a run ∧ CutsInto stands l rest := by
  constructor
  · rintro ⟨runs, hruns, rfl⟩
    cases hruns with
    | cons hrun hruns => exact ⟨_, _, List.flatten_cons, hrun, _, hruns, rfl⟩
  · rintro ⟨run, rest, rfl, hrun, runs, hruns, rfl⟩
    exact ⟨run :: runs, .cons hrun hruns, List.flatten_cons⟩

/-- A text is cut where its image is, if the runs stand for the same. -/
theorem map_iff {fold : β → β} {read : γ → α} {stands' : γ → List β → Prop}
    (h : ∀ c run, stands (read c) (run.map fold) ↔ stands' c run) (l : List γ) (text : List β) :
    CutsInto stands (l.map read) (text.map fold) ↔ CutsInto stands' l text := by
  induction l generalizing text with
  | nil => rw [List.map_nil, nil_iff, nil_iff, List.map_eq_nil_iff]
  | cons c l ih =>
      rw [List.map_cons, cons_iff, cons_iff]
      constructor
      · rintro ⟨run, rest, htext, hrun, hrest⟩
        obtain ⟨run, rest, rfl, rfl, rfl⟩ := List.map_eq_append_iff.1 htext
        exact ⟨run, rest, rfl, (h c run).1 hrun, (ih rest).1 hrest⟩
      · rintro ⟨run, rest, rfl, hrun, hrest⟩
        exact ⟨run.map fold, rest.map fold, List.map_append, (h c run).2 hrun, (ih rest).2 hrest⟩

end CutsInto

namespace Pattern

/-- The runs of folded characters that a piece stands for. -/
def Piece.StandsFor : Piece → List Char → Prop
  | one, chars => chars.length = 1
  | run, _ => True
  | letter folded, chars => chars = [folded]

/-- The pattern covers the text, given by its folded characters. -/
def Covers (pattern : Pattern) (text : List Char) : Prop :=
  CutsInto Piece.StandsFor pattern text

section Covers

variable {pattern : Pattern} {piece : Piece} {c folded : Char} {text : List Char}

theorem covers_nil : Covers [] text ↔ text = [] := CutsInto.nil_iff

/-- A piece that stands for one character covers nothing of the empty text. -/
theorem not_covers_nil (h : ¬piece.StandsFor []) : ¬Covers (piece :: pattern) [] := by
  rw [Covers, CutsInto.cons_iff]
  rintro ⟨run, rest, htext, hrun, -⟩
  obtain ⟨rfl, rfl⟩ := List.append_eq_nil_iff.1 htext.symm
  exact h hrun

theorem covers_one_cons : Covers (.one :: pattern) (c :: text) ↔ Covers pattern text := by
  rw [Covers, CutsInto.cons_iff]
  constructor
  · rintro ⟨run, rest, htext, hrun, hrest⟩
    obtain ⟨d, rfl⟩ := List.length_eq_one_iff.1 hrun
    obtain ⟨rfl, rfl⟩ := List.cons.inj htext
    exact hrest
  · exact fun h => ⟨[c], text, rfl, rfl, h⟩

theorem covers_letter_cons :
    Covers (.letter folded :: pattern) (c :: text) ↔ c = folded ∧ Covers pattern text := by
  rw [Covers, CutsInto.cons_iff]
  constructor
  · rintro ⟨run, rest, htext, rfl, hrest⟩
    obtain ⟨rfl, rfl⟩ := List.cons.inj htext
    exact ⟨rfl, hrest⟩
  · rintro ⟨rfl, h⟩
    exact ⟨[c], text, rfl, rfl, h⟩

theorem covers_run_nil : Covers (.run :: pattern) [] ↔ Covers pattern [] := by
  rw [Covers, CutsInto.cons_iff]
  constructor
  · rintro ⟨run, rest, htext, -, hrest⟩
    obtain ⟨rfl, rfl⟩ := List.append_eq_nil_iff.1 htext.symm
    exact hrest
  · exact fun h => ⟨[], [], rfl, trivial, h⟩

/-- A run is over, or it takes one more character. -/
theorem covers_run_cons : Covers (.run :: pattern) (c :: text) ↔
    Covers pattern (c :: text) ∨ Covers (.run :: pattern) text := by
  rw [Covers, Covers, Covers, CutsInto.cons_iff, CutsInto.cons_iff]
  constructor
  · rintro ⟨run, rest, htext, -, hrest⟩
    cases run with
    | nil => exact .inl (htext ▸ hrest)
    | cons d run =>
        obtain ⟨rfl, rfl⟩ := List.cons.inj htext
        exact .inr ⟨run, rest, rfl, trivial, hrest⟩
  · rintro (h | ⟨run, rest, rfl, -, hrest⟩)
    · exact ⟨[], c :: text, rfl, trivial, h⟩
    · exact ⟨c :: run, rest, rfl, trivial, hrest⟩

end Covers

section Suffixes

/-- The table says for each suffix of the text, longest first, whether the pattern covers it. -/
def Tabulates (pattern : Pattern) (text : List Char) (table : List Bool) : Prop :=
  List.Forall₂ (fun covered rest => covered = true ↔ Covers pattern rest) table text.tails

section Table

variable {pattern : Pattern} {c : Char} {text : List Char} {covered : Bool} {table : List Bool}

theorem tabulates_nil_iff : Tabulates pattern [] table ↔
    ∃ covered, table = [covered] ∧ (covered = true ↔ Covers pattern []) := by
  rw [Tabulates, List.tails]
  constructor
  · rintro (_ | ⟨h, ⟨⟩⟩)
    exact ⟨_, rfl, h⟩
  · rintro ⟨covered, rfl, h⟩
    exact .cons h .nil

theorem tabulates_cons_iff : Tabulates pattern (c :: text) table ↔
    ∃ covered later, table = covered :: later ∧ (covered = true ↔ Covers pattern (c :: text)) ∧
      Tabulates pattern text later := by
  rw [Tabulates, List.tails]
  constructor
  · rintro (_ | ⟨h, hlater⟩)
    exact ⟨_, _, rfl, h, hlater⟩
  · rintro ⟨covered, later, rfl, h, hlater⟩
    exact .cons h hlater

theorem Tabulates.exists_head (h : Tabulates pattern text table) :
    ∃ covered later, table = covered :: later ∧ (covered = true ↔ Covers pattern text) := by
  cases text with
  | nil =>
      obtain ⟨covered, rfl, hcovered⟩ := tabulates_nil_iff.1 h
      exact ⟨covered, [], rfl, hcovered⟩
  | cons c text =>
      obtain ⟨covered, later, rfl, hcovered, -⟩ := tabulates_cons_iff.1 h
      exact ⟨covered, later, rfl, hcovered⟩

theorem tabulates_coverNothing (text : List Char) : Tabulates [] text (coverNothing text) := by
  induction text with
  | nil => exact tabulates_nil_iff.2 ⟨true, rfl, by simp [covers_nil]⟩
  | cons c text ih => exact tabulates_cons_iff.2 ⟨false, _, rfl, by simp [covers_nil], ih⟩

theorem Tabulates.one (h : Tabulates pattern text table) :
    Tabulates (.one :: pattern) text (coverPiece text .one table) := by
  induction text generalizing table with
  | nil =>
      obtain ⟨covered, rfl, -⟩ := tabulates_nil_iff.1 h
      have hnone : ¬Covers (.one :: pattern) [] := not_covers_nil nofun
      exact tabulates_nil_iff.2 ⟨false, rfl, by simp [hnone]⟩
  | cons c text ih =>
      obtain ⟨covered, later, rfl, -, hlater⟩ := tabulates_cons_iff.1 h
      obtain ⟨next, rest, rfl, hnext⟩ := hlater.exists_head
      exact tabulates_cons_iff.2 ⟨next, _, rfl, hnext.trans covers_one_cons.symm, ih hlater⟩

theorem Tabulates.letter (h : Tabulates pattern text table) (folded : Char) :
    Tabulates (.letter folded :: pattern) text (coverPiece text (.letter folded) table) := by
  induction text generalizing table with
  | nil =>
      obtain ⟨covered, rfl, -⟩ := tabulates_nil_iff.1 h
      have hnone : ¬Covers (.letter folded :: pattern) [] := not_covers_nil nofun
      exact tabulates_nil_iff.2 ⟨false, rfl, by simp [hnone]⟩
  | cons c text ih =>
      obtain ⟨covered, later, rfl, -, hlater⟩ := tabulates_cons_iff.1 h
      obtain ⟨next, rest, rfl, hnext⟩ := hlater.exists_head
      refine tabulates_cons_iff.2 ⟨c == folded && next, _, rfl, ?_, ih hlater⟩
      rw [covers_letter_cons, ← hnext, Bool.and_eq_true, beq_iff_eq]

theorem Tabulates.run (h : Tabulates pattern text table) :
    Tabulates (.run :: pattern) text (coverPiece text .run table) := by
  induction text generalizing table with
  | nil =>
      obtain ⟨covered, rfl, hcovered⟩ := tabulates_nil_iff.1 h
      refine tabulates_nil_iff.2 ⟨covered || false, rfl, ?_⟩
      rw [Bool.or_false, hcovered, covers_run_nil]
  | cons c text ih =>
      obtain ⟨covered, later, rfl, hcovered, hlater⟩ := tabulates_cons_iff.1 h
      obtain ⟨found, rest, hfound, hcovers⟩ := (ih hlater).exists_head
      refine tabulates_cons_iff.2 ⟨_, _, rfl, ?_, ih hlater⟩
      rw [coverPiece] at hfound
      rw [hfound, List.headD_cons, covers_run_cons, ← hcovered, ← hcovers, Bool.or_eq_true]

theorem Tabulates.coverPiece (h : Tabulates pattern text table) (piece : Piece) :
    Tabulates (piece :: pattern) text (coverPiece text piece table) := by
  cases piece with
  | one => exact h.one
  | run => exact h.run
  | letter folded => exact h.letter folded

end Table

theorem tabulates_foldr (pattern : Pattern) (text : List Char) :
    Tabulates pattern text (pattern.foldr (coverPiece text) (coverNothing text)) := by
  induction pattern with
  | nil => exact tabulates_coverNothing text
  | cons piece pattern ih => exact ih.coverPiece piece

theorem covers_iff (pattern : Pattern) (text : List Char) :
    pattern.covers text = true ↔ Covers pattern text := by
  obtain ⟨covered, later, htable, hcovered⟩ := (tabulates_foldr pattern text).exists_head
  rw [covers, htable, List.headD_cons, hcovered]

end Suffixes

section Written

/-- The runs of characters that a character of a pattern stands for. -/
def StandsFor (c : Char) (run : List Char) : Prop :=
  if c = '_' then run.length = 1
  else if c = '%' then True
  else ∃ d, run = [d] ∧ Text.sameLetter c d = true

theorem standsFor_iff (c : Char) (run : List Char) :
    (Piece.ofChar c).StandsFor (run.map Text.fold) ↔ StandsFor c run := by
  rw [Piece.ofChar, StandsFor]
  split
  · rw [Piece.StandsFor, List.length_map]
  · split
    · exact Iff.rfl
    · rw [Piece.StandsFor, List.map_eq_singleton_iff]
      exact exists_congr fun d => and_congr_right fun _ => eq_comm.trans Text.sameLetter_iff.symm

theorem isMatch_iff (pattern text : String) :
    (ofText pattern).isMatch text = true ↔ CutsInto StandsFor pattern.toList text.toList := by
  rw [isMatch, covers_iff, Covers, ofText]
  exact CutsInto.map_iff standsFor_iff pattern.toList text.toList

end Written

end Pattern

namespace Patterns

/-- The patterns read in matches of texts against patterns, one after another. -/
def matched (earlier : List (String × String)) : Patterns :=
  earlier.foldl (fun known (pattern, text) => (isMatch pattern text known).2) ∅

theorem sound_matched (earlier : List (String × String)) : (matched earlier).Sound := by
  induction earlier using List.reverseRecOn with
  | nil => exact sound_empty
  | append_singleton earlier last ih =>
      rw [matched, List.foldl_append]
      exact (ih.isMatch rfl last.2).2

/-- Whatever has been matched before, a text matches a pattern exactly if its characters can be cut
into consecutive runs, one for each character of the pattern in order: a single character for `_`,
any run for `%`, and a single character that is the same up to case for every other character. -/
theorem isMatch_iff_cut (earlier : List (String × String)) (pattern text : String) :
    (isMatch pattern text (matched earlier)).1 = true ↔
      ∃ runs : List (List Char), List.Forall₂ Pattern.StandsFor pattern.toList runs ∧
        runs.flatten = text.toList := by
  rw [((sound_matched earlier).isMatch rfl text).1]
  exact Pattern.isMatch_iff pattern text

/-- Wildcards stand for line feeds too, letters for either case, and a dot for itself alone. -/
example :
    let test pattern text := (isMatch pattern text (matched [("%.B", "a.b")])).1
    test "_%.B" "a\n.b" = true ∧ test "%.B" "axb" = false ∧ test "_" "" = false := by
  decide +kernel

end Patterns

end TableQuery
