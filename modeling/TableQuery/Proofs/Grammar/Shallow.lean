import TableQuery.Proofs.Grammar.Nesting
import TableQuery.Proofs.Grammar.Soundness
import TableQuery.Proofs.Query.Written

/-!
# What is parsed is shallow

No expression that a parser returns is higher than the nesting limit, and no more parsers of
expressions than that are ever at work at once. A failure for the limit is the end of the parse,
wherever it is raised: the lists on the way out do not end with it.
-/

namespace TableQuery

open TableQuery.Parser TableQuery.Expr

section Results

namespace Parser

variable {α β : Type}

/-- Whatever the parser returns has a property. -/
def Gives (p : Parser α) (Q : α → Prop) : Prop := ∀ s a rest, p s = .ok (a, rest) → Q a

namespace Gives

variable {p : Parser α} {P : α → Prop} {Q : β → Prop}

theorem any (p : Parser α) : p.Gives fun _ => True := fun _ _ _ _ => trivial

theorem pure {a : α} (h : P a) : (pure a : Parser α).Gives P := by
  intro s b rest hb
  obtain ⟨rfl, -⟩ := pure_eq_ok.1 hb
  exact h

theorem bind {f : α → Parser β} (hp : p.Gives P) (hf : ∀ a, P a → (f a).Gives Q) :
    (p >>= f).Gives Q := by
  intro s b rest hb
  obtain ⟨a, mid, ha, hb⟩ := bind_eq_ok.1 hb
  exact hf a (hp s a mid ha) mid b rest hb

theorem ite {b : Prop} [Decidable b] {q : Parser α} (hp : p.Gives P) (hq : q.Gives P) :
    (if b then p else q).Gives P := by
  split
  · exact hp
  · exact hq

theorem clause (hp : p.Gives P) (word : String) : (clause word p).Gives fun o => ∀ a ∈ o, P a := by
  refine (any _).bind fun _ _ => .ite ?_ ?_
  · exact hp.bind fun a ha => .pure fun b hb => Option.some.inj hb ▸ ha
  · exact .pure nofun

theorem more (hp : p.Gives P) (separator : Separator) (bound : Nat) :
    (more p separator bound).Gives fun l => ∀ a ∈ l, P a := by
  induction bound with
  | zero =>
      intro s l rest h
      cases h
      exact List.forall_mem_nil P
  | succ bound ih =>
      intro s l rest h
      rw [Parser.more] at h
      split at h
      · cases h
        exact List.forall_mem_nil P
      · split at h
        · split at h
          · cases h
            exact List.forall_mem_nil P
          · cases h
        · next a mid hitem =>
          split at h
          · next hothers =>
            cases h
            exact List.forall_mem_cons.2 ⟨hp _ a mid hitem, ih mid _ _ hothers⟩
          · cases h

theorem list₁ (hp : p.Gives P) (separator : Separator) :
    (list₁ p separator).Gives fun l => ∀ a ∈ l, P a :=
  hp.bind fun _ ha => bind (fun s => hp.more separator s.length s) fun _ hothers =>
    .pure (List.forall_mem_cons.2 ⟨ha, hothers⟩)

end Gives

end Parser

end Results

section ExpressionHeights

namespace Expr

/-- The height that is noted is that of the expression, and within the limit. -/
def Sized.IsExact (x : Sized) : Prop := x.height = x.expr.height ∧ x.height ≤ maxHeight

theorem gives_sized {e : Expr} {height : Nat} (h : height = e.height) :
    (sized e height).Gives Sized.IsExact := by
  intro s x rest hx
  obtain ⟨hle, rfl, -⟩ := Grammar.sized_eq_ok.1 hx
  exact ⟨h, hle⟩

/-- With some levels of nesting left, every parser of a part of an expression notes the height of
what it returns. -/
structure NotesHeights (room : Nat) : Prop where
  operands : ∀ control, (operand room control).Gives Sized.IsExact
  atoms : (atom (operand room)).Gives Sized.IsExact
  calls : ∀ name, (arguments (operand room) name).Gives Sized.IsExact
  choices : (choice (operand room)).Gives Sized.IsExact
  branches : (branch (operand room)).Gives fun b => b.2 = max b.1.1.height b.1.2.height
  operations : ∀ op (left : Sized), left.IsExact →
    (applied (operand room) op left).Gives Sized.IsExact

theorem Sized.isExact_of_atomSound {s rest : List Token} {x : Sized}
    (h : Grammar.AtomSound s x rest) : x.IsExact := by
  obtain ⟨p, -, -, hheight, rfl⟩ := h
  exact ⟨rfl, hheight⟩

theorem notesHeights (room : Nat) : NotesHeights room := by
  have hnested := Grammar.operand_sound room
  have hoperand : ∀ control, (operand room control).Gives Sized.IsExact := by
    intro control s x rest h
    obtain ⟨c, -, rfl, hc⟩ := hnested control s x rest h
    exact ⟨rfl, hc.height_le⟩
  refine ⟨hoperand, ?_, ?_, ?_, ?_, ?_⟩
  · exact fun s x rest h => Sized.isExact_of_atomSound (Grammar.atom_sound hnested h)
  · intro name s x rest h
    let t : TokenOf .identifier := ⟨.identifier name, rfl⟩
    let o : TokenOf .openParenthesis := ⟨⟨.openParenthesis, "(", none⟩, rfl⟩
    exact Sized.isExact_of_atomSound (Grammar.arguments_sound hnested (t := t) (o := o) h)
  · intro s x rest h
    let start : Keyword "CASE" := ⟨.keyword "CASE", by decide⟩
    exact Sized.isExact_of_atomSound (Grammar.choice_sound hnested start h)
  · refine (Gives.any _).bind fun _ _ => (hoperand none).bind fun condition hcondition => ?_
    refine (Gives.any _).bind fun _ _ => (hoperand none).bind fun result hresult => .pure ?_
    rw [hcondition.1, hresult.1]
  · intro op left hleft
    refine (hoperand _).bind fun right hright => gives_sized ?_
    rw [hleft.1, hright.1]
    rfl

theorem gives_expression : Expr.parser.Gives fun e => e.height ≤ maxHeight := by
  intro s e rest h
  obtain ⟨x, hx, rfl⟩ := map_eq_ok.1 h
  obtain ⟨hexact, hle⟩ := (notesHeights maxHeight).operands none s x rest hx
  exact hexact ▸ hle

end Expr

end ExpressionHeights

section QueryHeights

namespace Query

theorem gives_outputColumn : outputColumn.Gives fun c => c.expr.height ≤ maxHeight :=
  Expr.gives_expression.bind fun _ he => (Gives.any _).bind fun _ _ => .pure he

theorem gives_selection : selection.Gives fun select => ∀ e ∈ select.exprs, e.height ≤ maxHeight :=
  (Gives.any _).bind fun _ _ => .ite (.pure (List.forall_mem_nil _))
    ((gives_outputColumn.list₁ _).bind fun _ hcolumns => .pure (List.forall_mem_map.2 hcolumns))

theorem gives_grouping : grouping.Gives fun o => ∀ g ∈ o,
    (∀ e ∈ g.1, e.height ≤ maxHeight) ∧ ∀ e ∈ g.2, e.height ≤ maxHeight := by
  apply Gives.clause
  exact (Gives.any _).bind fun _ _ => (Expr.gives_expression.list₁ _).bind fun _ hkeys =>
    (Expr.gives_expression.clause _).bind fun _ hhaving => .pure ⟨hkeys, hhaving⟩

theorem gives_orderingTerm : orderingTerm.Gives fun t => t.expr.height ≤ maxHeight :=
  Expr.gives_expression.bind fun _ he => (Gives.any _).bind fun _ _ =>
    .ite (.pure he) ((Gives.any _).bind fun _ _ => .ite (.pure he) (.pure he))

theorem gives_ordering : ordering.Gives fun o => ∀ terms ∈ o, ∀ t ∈ terms,
    t.expr.height ≤ maxHeight := by
  apply Gives.clause
  exact (Gives.any _).bind fun _ _ => gives_orderingTerm.list₁ _

/-- Every expression of the query is within the nesting limit. -/
def IsShallow (q : Query) : Prop := ∀ e ∈ q.inner ++ q.outer, e.height ≤ maxHeight

theorem gives_clauses : clauses.Gives IsShallow := by
  refine (Gives.any _).bind fun _ _ => gives_selection.bind fun select hselect => ?_
  refine (Gives.any _).bind fun _ _ => (Gives.any _).bind fun source _ => ?_
  refine (Expr.gives_expression.clause _).bind fun condition hcondition => ?_
  refine gives_grouping.bind fun grouping hgrouping => ?_
  refine gives_ordering.bind fun ordering hordering => ?_
  refine (Gives.any _).bind fun _ _ => (Gives.any _).bind fun _ _ => .pure ?_
  refine forall_mem_exprs hcondition ?_ hselect ?_ hordering
  · intro keys hkeys
    obtain ⟨g, hg, rfl⟩ := Option.map_eq_some_iff.1 hkeys
    exact (hgrouping g hg).1
  · intro e he
    obtain ⟨g, hg, he⟩ := Option.bind_eq_some_iff.1 he
    exact (hgrouping g hg).2 e he

theorem gives_query : parser.Gives IsShallow :=
  gives_clauses.bind fun _ hq => (Gives.any _).bind fun _ _ => (Gives.any _).bind fun _ _ =>
    .pure hq

end Query

/-- The failures of a counted parse that begins with an empty record are the failure of the parse,
and no more parsers than allowed are ever at work. -/
theorem Counted.Counts.start {α : Type} {m : Counted α} {p : Parser α} (h : Counts 0 m p)
    (tokens : List Token) :
    (m tokens {}).1 = p tokens ∧ (m tokens {}).2.deepest ≤ maxHeight ∧
      ∀ f ∈ (m tokens {}).2.refused,
        p tokens = .error f ∧ f.refusal = .unexpected .shallowerExpression := by
  obtain ⟨later, hanswer, hlater⟩ := h tokens {} ⟨rfl, Nat.zero_le _, rfl⟩
  rw [hanswer]
  refine ⟨rfl, hlater.deepest_le, fun f hf => ?_⟩
  rw [hlater.refused_eq] at hf
  cases hp : p tokens with
  | ok x =>
      rw [hp] at hf
      cases hf
  | error e =>
      rw [hp, raised] at hf
      split at hf
      · next hrefusal =>
        obtain rfl := List.mem_singleton.1 hf
        exact ⟨rfl, hrefusal⟩
      · cases hf

/-- Whatever tokens are parsed, every expression of the result is at most 256 high, and the heights
noted on the way are those of the expressions. Counted by the parsers at work, with more levels of
recursion than are ever needed, the parse goes on alike, never has more than 256 parsers of
expressions at work at once, and ends with any failure that it raises for the limit. -/
theorem Query.parse_is_shallow (tokens : List Token) {levels : Nat} (hlevels : 256 < levels) :
    (∀ q, ofTokens tokens = .ok q → ∀ e ∈ q.inner ++ q.outer, e.height ≤ 256) ∧
    (∀ e rest, Expr.parser tokens = .ok (e, rest) → e.height ≤ 256) ∧
    (∀ room, Expr.NotesHeights room) ∧
    (let parse := Counted.query levels tokens {};
      parse.1 = parser tokens ∧ parse.2.deepest ≤ 256 ∧ ∀ f ∈ parse.2.refused,
        ofTokens tokens = .error (.unexpected .shallowerExpression f.found)) ∧
    (let parse := Counted.expression levels tokens {};
      parse.1 = Expr.parser tokens ∧ parse.2.deepest ≤ 256 ∧ ∀ f ∈ parse.2.refused,
        Expr.parser tokens = .error f ∧ f.refusal = .unexpected .shallowerExpression) := by
  refine ⟨fun q hq => ?_, fun e rest he => Expr.gives_expression tokens e rest he,
    Expr.notesHeights, ?_, (Counted.Counts.expression hlevels).start tokens⟩
  · obtain ⟨rest, hparser⟩ := ofTokens_eq_ok.1 hq
    exact gives_query tokens q rest hparser
  · obtain ⟨hanswer, hdeepest, hrefused⟩ := (Counted.Counts.query hlevels).start tokens
    refine ⟨hanswer, hdeepest, fun f hf => ?_⟩
    obtain ⟨herror, hrefusal⟩ := hrefused f hf
    simp only [ofTokens, herror, Failure.toError, hrefusal]

/-- `SELECT f(a) FROM 't'` is parsed, and its expressions are shallow. -/
theorem Query.parse_is_shallow_call :
    let tokens : List Token :=
      [.keyword "SELECT", .identifier "f", ⟨.openParenthesis, "(", none⟩, .identifier "a",
        ⟨.closeParenthesis, ")", none⟩, .keyword "FROM", ⟨.string, "'t'", some (.text "t")⟩]
    let q : Query := { select := .columns [⟨.call "F" [.identifier "a"], "F(a)"⟩], source := "t" }
    256 < 257 ∧ ofTokens tokens = .ok q ∧ (∀ e ∈ q.inner ++ q.outer, e.height ≤ 256) ∧
      (Counted.query 257 tokens {}).2.deepest ≤ 256 := by
  intro tokens q
  have hlevels : 256 < 257 := by decide
  obtain ⟨hquery, -, -, ⟨-, hdeepest, -⟩, -⟩ := parse_is_shallow tokens hlevels
  exact ⟨hlevels, rfl, hquery q rfl, hdeepest⟩

/-- An argument that is nested too deep does not end the list in front of it. -/
example :
    let parenthesis : Token := ⟨.openParenthesis, "(", none⟩
    let call : List Token := [.identifier "f", parenthesis, .identifier "a", ⟨.comma, ",", none⟩]
    let tokens := call ++ List.replicate 255 parenthesis
    let parse := Counted.expression 257 tokens {}
    parse.2.deepest = 256 ∧ parse.2.refused = [⟨.unexpected .shallowerExpression, []⟩] ∧
      (Expr.parser tokens).toOption.isNone := by
  decide +kernel

end QueryHeights

end TableQuery
