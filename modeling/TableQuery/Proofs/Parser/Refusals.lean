import TableQuery.Parser

/-!
# Parsers that know all operators

The lexer writes only operators that have a symbol. On such tokens no parser meets an operator it
does not know, and each hands such tokens on.
-/

namespace TableQuery

/-- The token is no operator, or one that is known. -/
def Token.IsKnown (t : Token) : Prop :=
  t.kind = .operator → (Operator.ofSymbol? t.text).isSome

namespace Parser

variable {α β : Type}

/-- All tokens that are left are known, or what is refused is no unknown operator. -/
def KnowsRest : Except Failure (α × List Token) → Prop
  | .ok (_, rest) => ∀ t ∈ rest, t.IsKnown
  | .error f => f.refusal ≠ .unknownOperator

/-- On known tokens the parser refuses no operator as unknown, and leaves known tokens. -/
def Understands (p : Parser α) : Prop :=
  ∀ s, (∀ t ∈ s, t.IsKnown) → KnowsRest (p s)

namespace Understands

theorem pure (a : α) : Understands (pure a : Parser α) := fun _ hs => hs

theorem get : Understands (get : Parser (List Token)) := fun _ hs => hs

theorem bind {p : Parser α} {f : α → Parser β} (hp : p.Understands)
    (hf : ∀ a, (f a).Understands) : (p >>= f).Understands := by
  intro s hs
  have hfirst := hp s hs
  change KnowsRest (p s >>= fun x => f x.1 x.2)
  cases h : p s with
  | error e =>
      rw [h] at hfirst
      exact hfirst
  | ok x =>
      rw [h] at hfirst
      exact hf x.1 x.2 hfirst

theorem map {p : Parser α} (f : α → β) (hp : p.Understands) : (f <$> p).Understands := by
  rw [map_eq_pure_bind]
  exact hp.bind fun a => .pure (f a)

theorem ite {b : Prop} [Decidable b] {p q : Parser α} (hp : p.Understands)
    (hq : q.Understands) : (if b then p else q).Understands := by
  split
  · exact hp
  · exact hq

end Understands

theorem understands_expected (what : Expectation) : (expected what : Parser α).Understands :=
  fun _ _ => nofun

theorem understands_token (what : Expectation) (p : Token → Bool) : (token what p).Understands := by
  intro s hs
  cases s with
  | nil => exact nofun
  | cons t s =>
      rw [token]
      split
      · exact (List.forall_mem_cons.1 hs).2
      · exact nofun

theorem understands_keyword (word : String) : (keyword word).Understands := understands_token _ _

theorem understands_accept (p : Token → Bool) : (accept p).Understands := by
  intro s hs
  cases s with
  | nil => exact hs
  | cons t s =>
      rw [accept]
      split
      · exact (List.forall_mem_cons.1 hs).2
      · exact hs

theorem understands_acceptKeyword (word : String) : (acceptKeyword word).Understands :=
  understands_accept _

theorem understands_atKeyword (word : String) : (atKeyword word).Understands := by
  intro s hs
  cases s with
  | nil => exact hs
  | cons t s => exact hs

theorem understands_clause (word : String) {p : Parser α} (hp : p.Understands) :
    (clause word p).Understands :=
  (understands_acceptKeyword word).bind fun _ => .ite (hp.bind fun _ => .pure _) (.pure _)

theorem known_of_skip? {separator : Separator} {s rest : List Token}
    (h : separator.skip? s = some rest) (hs : ∀ t ∈ s, t.IsKnown) : ∀ t ∈ rest, t.IsKnown := by
  cases separator with
  | nothing =>
      cases h
      exact hs
  | comma =>
      cases s with
      | nil => cases h
      | cons t s =>
          rw [Separator.skip?] at h
          split at h
          · cases h
            exact (List.forall_mem_cons.1 hs).2
          · cases h

theorem understands_more {item : Parser α} (hitem : item.Understands) (separator : Separator)
    (bound : Nat) : (more item separator bound).Understands := by
  induction bound with
  | zero => exact fun _ hs => hs
  | succ bound ih =>
      intro s hs
      rw [more]
      split
      · exact hs
      · next s' hskip =>
        have hfirst := hitem s' (known_of_skip? hskip hs)
        split
        · next f hread =>
          rw [hread] at hfirst
          split
          · exact hs
          · exact hfirst
        · next a rest hread =>
          rw [hread] at hfirst
          have hothers := ih rest hfirst
          split
          · next hmore =>
            rw [hmore] at hothers
            exact hothers
          · next hmore =>
            rw [hmore] at hothers
            exact hothers

theorem understands_list₁ {item : Parser α} (hitem : item.Understands) (separator : Separator) :
    (list₁ item separator).Understands :=
  hitem.bind fun _ =>
    .bind (fun s => understands_more hitem separator s.length s) fun _ => .pure _

theorem understands_list₀ {item : Parser α} (hitem : item.Understands) (separator : Separator) :
    (list₀ item separator).Understands := by
  intro s hs
  cases s with
  | nil => exact hs
  | cons t s =>
      have hlist := understands_list₁ hitem separator (t :: s) hs
      rw [list₀]
      · split
        · next hread =>
          rw [hread] at hlist
          exact hlist
        · next hread =>
          rw [hread] at hlist
          split
          · exact hs
          · exact hlist
      · exact List.cons_ne_nil t s

end Parser

end TableQuery
