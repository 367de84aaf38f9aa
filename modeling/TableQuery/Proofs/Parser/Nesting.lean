import TableQuery.Expr.Parser

/-!
# Parsers that count how deep they go

A counted parser keeps a record of how deep the parsers of expressions are nested, and of the
failures raised where they must not go deeper. The record outlives a failure, also one that merely
ends a list. A counted parser counts a parser if it answers alike, and if every failure that it has
recorded is the one it answers with: then none was dropped on the way.
-/

namespace TableQuery

open TableQuery.Parser TableQuery.Expr

/-- A record of how deep the parsers of expressions are nested. -/
structure Nesting where
  /-- How many of them are at work. -/
  depth : Nat := 0
  /-- How many have been at work at once, at most. -/
  deepest : Nat := 0
  /-- The failures that were raised for the nesting limit, in order. -/
  refused : List Failure := []

/-- A parser that keeps a record of its nesting, also where it fails. -/
abbrev Counted (α : Type) := StateT (List Token) (ExceptT Failure (StateM Nesting)) α

namespace Counted

variable {α β : Type}

/-- A parser that raises no failure for the nesting limit. -/
def ofParser (p : Parser α) : Counted α := fun s n => (p s, n)

/-- Fails for the nesting limit, which is recorded. -/
def refuse : Counted α := fun s n =>
  let f : Failure := ⟨.unexpected .shallowerExpression, s⟩
  (.error f, { n with refused := n.refused ++ [f] })

/-- One more parser at work, unless there are as many as allowed. -/
def enter (m : Counted α) : Counted α := fun s n =>
  if maxHeight ≤ n.depth then refuse s n
  else
    let depth := n.depth + 1
    let (answer, n) := m s { n with depth, deepest := max n.deepest depth }
    (answer, { n with depth := n.depth - 1 })

/-- Runs a parser behind a keyword; answers `none` where the keyword is missing. -/
def clause (word : String) (m : Counted α) : Counted (Option α) := do
  if ← ofParser (acceptKeyword word) then return some (← m) else return none

/-- Further items of a list, each after a separator. -/
def more (item : Counted α) (separator : Separator) : (bound : Nat) → Counted (List α)
  | 0, s, n => (.ok ([], s), n)
  | bound + 1, s, n =>
    match separator.skip? s with
    | none => (.ok ([], s), n)
    | some s' =>
      match item s' n with
      | (.error f, n) => (if f.endsList then .ok ([], s) else .error f, n)
      | (.ok (a, rest), n) =>
        match more item separator bound rest n with
        | (.ok (as, rest), n) => (.ok (a :: as, rest), n)
        | (.error f, n) => (.error f, n)

/-- A list of one item or more. -/
def list₁ (item : Counted α) (separator : Separator) : Counted (List α) := do
  let first ← item
  let others ← fun s => more item separator s.length s
  return first :: others

/-- A list of any number of items. -/
def list₀ (item : Counted α) (separator : Separator) : Counted (List α)
  | [], n => (.ok ([], []), n)
  | s, n =>
    match list₁ item separator s n with
    | (.ok answer, n) => (.ok answer, n)
    | (.error f, n) => (if f.endsList then .ok ([], s) else .error f, n)

end Counted

section Records

namespace Parser

variable {α : Type}

/-- The failure for the nesting limit that an answer is, if it is one. -/
def raised : Except Failure (α × List Token) → List Failure
  | .ok _ => []
  | .error f => if f.refusal = .unexpected .shallowerExpression then [f] else []

/-- Where a failure ends a list, it is not one for the nesting limit. -/
theorem raised_ended {β : Type} (f : Failure) (s : List Token) :
    raised (if f.endsList then .ok (([] : List β), s) else .error f) =
      raised (.error f : Except Failure (α × List Token)) := by
  by_cases hend : f.endsList = true
  · have hrefusal : f.refusal ≠ .unexpected .shallowerExpression := fun hrefusal => by
      simp [Failure.endsList, hrefusal] at hend
    rw [if_pos hend]
    exact (if_neg hrefusal).symm
  · rw [if_neg hend]
    rfl

/-- The parser never fails for the nesting limit. -/
def Flat (p : Parser α) : Prop := ∀ s, raised (p s) = []

theorem flat_token {what : Expectation} (h : what ≠ .shallowerExpression) (p : Token → Bool) :
    (token what p).Flat := by
  have hrefusal : Refusal.unexpected what ≠ .unexpected .shallowerExpression := by
    simpa using h
  intro s
  cases s with
  | nil => exact if_neg hrefusal
  | cons t s =>
      rw [token]
      split
      · rfl
      · exact if_neg hrefusal

theorem Flat.map {β : Type} {p : Parser α} (h : p.Flat) (f : α → β) : (f <$> p).Flat := by
  intro s
  have hs := h s
  change raised (p s >>= fun x => .ok (f x.1, x.2)) = []
  cases hp : p s with
  | error e =>
      rw [hp] at hs
      exact hs
  | ok x => rfl

theorem flat_keyword (word : String) : (keyword word).Flat := flat_token (by simp) _

theorem flat_accept (p : Token → Bool) : (accept p).Flat := by
  intro s
  cases s <;> rfl

theorem flat_atKeyword (word : String) : (atKeyword word).Flat := by
  intro s
  cases s <;> rfl

end Parser

/-- At the given depth the limit was never exceeded, and just the given failures were raised. -/
structure Nesting.At (depth : Nat) (refused : List Failure) (n : Nesting) : Prop where
  depth_eq : n.depth = depth
  deepest_le : n.deepest ≤ maxHeight
  refused_eq : n.refused = refused

end Records

section Counting

/-- From the given depth, where nothing is refused yet, the counted parser answers like the parser,
comes back to that depth and has raised nothing but the failure that it answers with. -/
def Counted.Counts {α : Type} (depth : Nat) (m : Counted α) (p : Parser α) : Prop :=
  ∀ s n, Nesting.At depth [] n →
    ∃ later, m s n = (p s, later) ∧ Nesting.At depth (raised (p s)) later

namespace Counted.Counts

variable {α β : Type} {depth : Nat} {m : Counted α} {p : Parser α}

theorem ofParser (h : p.Flat) : Counts depth (.ofParser p) p :=
  fun s n hn => ⟨n, rfl, (h s).symm ▸ hn⟩

theorem pure (a : α) : Counts depth (pure a) (pure a) := fun _ n hn => ⟨n, rfl, hn⟩

theorem get : Counts depth get get := fun _ n hn => ⟨n, rfl, hn⟩

theorem bind {f : α → Counted β} {g : α → Parser β} (hm : Counts depth m p)
    (hf : ∀ a, Counts depth (f a) (g a)) : Counts depth (m >>= f) (p >>= g) := by
  intro s n hn
  obtain ⟨later, hfirst, hlater⟩ := hm s n hn
  have hcounted : (m >>= f) s n = ExceptT.bindCont (fun x => f x.1 x.2) (m s n).1 (m s n).2 := rfl
  have hparser : (p >>= g) s = p s >>= fun x => g x.1 x.2 := rfl
  rw [hcounted, hparser, hfirst]
  cases h : p s with
  | error e =>
      rw [h] at hlater
      exact ⟨later, rfl, hlater⟩
  | ok x =>
      rw [h] at hlater
      exact hf x.1 x.2 later hlater

theorem map (f : α → β) (hm : Counts depth m p) : Counts depth (f <$> m) (f <$> p) := by
  rw [map_eq_pure_bind, map_eq_pure_bind]
  exact hm.bind fun a => .pure (f a)

theorem ite {b : Prop} [Decidable b] {m' : Counted α} {p' : Parser α} (hm : Counts depth m p)
    (hm' : Counts depth m' p') : Counts depth (if b then m else m') (if b then p else p') := by
  split
  · exact hm
  · exact hm'

theorem refuse : Counts depth (refuse : Counted α) (expected .shallowerExpression) := by
  intro s n hn
  refine ⟨_, rfl, hn.depth_eq, hn.deepest_le, ?_⟩
  rw [hn.refused_eq]
  rfl

/-- Below the limit, one more parser is at work. -/
theorem enter (hdepth : depth < maxHeight) (hm : Counts (depth + 1) m p) :
    Counts depth (enter m) p := by
  intro s n hn
  have hroom : ¬maxHeight ≤ n.depth := by
    rw [hn.depth_eq]
    omega
  have hdeepest : max n.deepest (n.depth + 1) ≤ maxHeight :=
    Nat.max_le.2 ⟨hn.deepest_le, Nat.not_le.1 hroom⟩
  obtain ⟨later, hanswer, hlater⟩ := hm s
    { n with depth := n.depth + 1, deepest := max n.deepest (n.depth + 1) }
    ⟨congrArg (· + 1) hn.depth_eq, hdeepest, hn.refused_eq⟩
  rw [Counted.enter, if_neg hroom]
  simp only [hanswer]
  exact ⟨_, rfl, congrArg (· - 1) hlater.depth_eq, hlater.deepest_le, hlater.refused_eq⟩

/-- At the limit, no more parser is let in. -/
theorem enter_at_limit (m : Counted α) :
    Counts maxHeight (Counted.enter m) (expected .shallowerExpression) := by
  intro s n hn
  rw [Counted.enter, if_pos (Nat.le_of_eq hn.depth_eq.symm)]
  exact refuse s n hn

theorem clause (word : String) (hm : Counts depth m p) :
    Counts depth (clause word m) (Parser.clause word p) :=
  (ofParser (flat_accept _)).bind fun _ => .ite (hm.bind fun _ => .pure _) (.pure _)

theorem more (hm : Counts depth m p) (separator : Separator) (bound : Nat) :
    Counts depth (more m separator bound) (Parser.more p separator bound) := by
  induction bound with
  | zero => exact fun _ n hn => ⟨n, rfl, hn⟩
  | succ bound ih =>
      intro s n hn
      rw [Counted.more, Parser.more]
      cases separator.skip? s with
      | none => exact ⟨n, rfl, hn⟩
      | some s' =>
          obtain ⟨later, hitem, hlater⟩ := hm s' n hn
          simp only [hitem]
          cases h : p s' with
          | error f =>
              -- the list ends or fails; either way the record says what the failed item raised
              rw [h, ← raised_ended f s] at hlater
              exact ⟨later, rfl, hlater⟩
          | ok first =>
              rw [h] at hlater
              obtain ⟨last, hothers, hlast⟩ := ih first.2 later hlater
              simp only [hothers]
              cases h : Parser.more p separator bound first.2 with
              | error f =>
                  rw [h] at hlast
                  exact ⟨last, rfl, hlast⟩
              | ok items =>
                  rw [h] at hlast
                  exact ⟨last, rfl, hlast⟩

theorem list₁ (hm : Counts depth m p) (separator : Separator) :
    Counts depth (list₁ m separator) (Parser.list₁ p separator) :=
  hm.bind fun _ => .bind (fun s => hm.more separator s.length s) fun _ => .pure _

theorem list₀ (hm : Counts depth m p) (separator : Separator) :
    Counts depth (list₀ m separator) (Parser.list₀ p separator) := by
  intro s n hn
  cases s with
  | nil => exact ⟨n, rfl, hn⟩
  | cons t s =>
      obtain ⟨later, hlist, hlater⟩ := hm.list₁ separator (t :: s) n hn
      rw [Counted.list₀, Parser.list₀]
      · simp only [hlist]
        cases h : Parser.list₁ p separator (t :: s) with
        | ok items =>
            rw [h] at hlater
            exact ⟨later, rfl, hlater⟩
        | error f =>
            rw [h, ← raised_ended f (t :: s)] at hlater
            exact ⟨later, rfl, hlater⟩
      · exact List.cons_ne_nil t s
      · exact List.cons_ne_nil t s

end Counted.Counts

end Counting

end TableQuery
