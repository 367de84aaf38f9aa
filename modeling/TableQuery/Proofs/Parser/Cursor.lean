import TableQuery.Expr.Parser

/-!
# Parsers with a cursor

A list of tokens may be parsed with a cursor into it and a count of the parsers of expressions that
are at work. Both outlive a failure, so what a failed parser has done to them may have to be undone.
Loops take fuel; a parser that runs out of it has no answer.

A parser with a cursor tracks a parser of lists of tokens if it answers alike, comes back to the
depth at which it started, and leaves its cursor in front of the tokens that are left there, or that
the failure names.
-/

namespace TableQuery

open TableQuery.Parser TableQuery.Expr

/-- The state of a parser. -/
structure Cursor where
  /-- The place of the next token. -/
  pos : Nat
  /-- How many parsers of expressions are at work. -/
  depth : Nat

/-- A parser with a cursor into a list of tokens. -/
abbrev CursorParser (α : Type) := ReaderT (List Token) (ExceptT Failure (StateT Cursor Option)) α

namespace CursorParser

variable {α β : Type}

/-- There is no fuel left. -/
def exhausted : CursorParser α := fun _ _ => none

/-- Fails at the cursor. -/
def refuse (refusal : Refusal) : CursorParser α := fun tokens c =>
  some (.error ⟨refusal, tokens.drop c.pos⟩, c)

/-- The next token. -/
def peek : CursorParser (Option Token) := fun tokens c => some (.ok tokens[c.pos]?, c)

/-- Moves behind the next token, if there is one. -/
def advance : CursorParser Unit := fun tokens c =>
  some (.ok (), if c.pos < tokens.length then { c with pos := c.pos + 1 } else c)

/-- One more parser at work, unless there are as many as allowed. -/
def enter (m : CursorParser α) : CursorParser α := fun tokens c =>
  if maxHeight ≤ c.depth then refuse (.unexpected .shallowerExpression) tokens c
  else (m tokens { c with depth := c.depth + 1 }).map fun (answer, c) =>
    (answer, { c with depth := c.depth - 1 })

/-- Takes a token that satisfies `p`, or fails. -/
def token (what : Expectation) (p : Token → Bool) : CursorParser Token := do
  match ← peek with
  | some t => if p t then do advance; return t else refuse (.unexpected what)
  | none => refuse (.unexpected what)

/-- Takes a keyword, or fails. -/
def keyword (word : String) : CursorParser Token := token (.keyword word) (·.isKeyword word)

/-- Whether the next token satisfies `p`. -/
def next (p : Token → Bool) : CursorParser Bool := do
  return (← peek).any p

/-- Takes the next token if it satisfies `p`, and answers whether it does. -/
def accept (p : Token → Bool) : CursorParser Bool := do
  if ← next p then do advance; return true else return false

/-- Runs a parser behind a keyword; answers `none` where the keyword is missing. -/
def clause (word : String) (m : CursorParser α) : CursorParser (Option α) := do
  if ← accept (·.isKeyword word) then return some (← m) else return none

variable {tokens s rest : List Token} {c c' : Cursor} {m : CursorParser α} {a : α} {f : Failure}

theorem bind_of_ok {g : α → CursorParser β} (h : m tokens c = some (.ok a, c')) :
    (m >>= g) tokens c = g a tokens c' := by
  change (m tokens c >>= fun x => ExceptT.bindCont (fun a => g a tokens) x.1 x.2) = _
  rw [h]
  rfl

theorem bind_of_error {g : α → CursorParser β} (h : m tokens c = some (.error f, c')) :
    (m >>= g) tokens c = some (.error f, c') := by
  change (m tokens c >>= fun x => ExceptT.bindCont (fun a => g a tokens) x.1 x.2) = _
  rw [h]
  rfl

end CursorParser

section Tracking

/-- What a parser of lists of tokens answers with, without the tokens that are left. -/
def Parser.outcome {α : Type} : Except Failure (α × List Token) → Except Failure α
  | .ok (a, _) => .ok a
  | .error f => .error f

/-- The tokens that are left, or those at which a parser has failed. -/
def Parser.left {α : Type} : Except Failure (α × List Token) → List Token
  | .ok (_, rest) => rest
  | .error f => f.rest

/-- The cursor at `pos` stands in front of `s`. -/
structure FrontOf (tokens : List Token) (pos : Nat) (s : List Token) : Prop where
  pos_le : pos ≤ tokens.length
  drop_eq : tokens.drop pos = s

/-- From `pos` the parser with a cursor gives the answer of a parser of lists of tokens. Its cursor
does not go back and ends up in front of what is left; it comes back to the depth. -/
def CursorParser.Answers {α : Type} (m : CursorParser α) (tokens : List Token) (depth pos : Nat)
    (answer : Except Failure (α × List Token)) : Prop :=
  ∃ later, pos ≤ later ∧ FrontOf tokens later (left answer) ∧
    m tokens ⟨pos, depth⟩ = some (outcome answer, ⟨later, depth⟩)

/-- The parser with a cursor tracks the parser wherever no more than `size` tokens are left. -/
def CursorParser.Tracks {α : Type} (depth size : Nat) (m : CursorParser α) (p : Parser α) : Prop :=
  ∀ tokens pos s, FrontOf tokens pos s → s.length ≤ size → m.Answers tokens depth pos (p s)

namespace FrontOf

variable {tokens s : List Token} {pos : Nat} {t : Token}

theorem length_eq (h : FrontOf tokens pos s) : pos + s.length = tokens.length := by
  have hlength := congrArg List.length h.drop_eq
  rw [List.length_drop] at hlength
  have := h.pos_le
  omega

theorem getElem?_eq (h : FrontOf tokens pos s) : tokens[pos]? = s.head? := by
  rw [← h.drop_eq, List.head?_drop]

theorem lt (h : FrontOf tokens pos (t :: s)) : pos < tokens.length := by
  have hlength := h.length_eq
  rw [List.length_cons] at hlength
  omega

theorem tail (h : FrontOf tokens pos (t :: s)) : FrontOf tokens (pos + 1) s where
  pos_le := h.lt
  drop_eq := by rw [← List.tail_drop, h.drop_eq, List.tail_cons]

end FrontOf

namespace CursorParser

variable {α β : Type} {depth size pos : Nat} {m : CursorParser α} {p : Parser α}
  {tokens s rest : List Token} {t : Token}

theorem advance_cons (h : FrontOf tokens pos (t :: s)) :
    advance tokens ⟨pos, depth⟩ = some (.ok (), ⟨pos + 1, depth⟩) := by
  rw [advance, if_pos h.lt]

theorem peek_eq (h : FrontOf tokens pos s) :
    peek tokens ⟨pos, depth⟩ = some (.ok s.head?, ⟨pos, depth⟩) := by
  rw [peek, h.getElem?_eq]

theorem refuse_eq (refusal : Refusal) (h : FrontOf tokens pos s) :
    (refuse refusal : CursorParser α) tokens ⟨pos, depth⟩ =
      some (.error ⟨refusal, s⟩, ⟨pos, depth⟩) := by
  rw [refuse, h.drop_eq]

theorem next_eq (q : Token → Bool) (h : FrontOf tokens pos s) :
    next q tokens ⟨pos, depth⟩ = some (.ok (s.head?.any q), ⟨pos, depth⟩) := by
  rw [next, bind_of_ok (peek_eq h)]
  rfl

theorem accept_of {q : Token → Bool} (h : FrontOf tokens pos (t :: s)) (hq : q t = true) :
    accept q tokens ⟨pos, depth⟩ = some (.ok true, ⟨pos + 1, depth⟩) := by
  rw [accept, bind_of_ok (next_eq q h), if_pos (by simpa using hq), bind_of_ok (advance_cons h)]
  rfl

theorem accept_of_not {q : Token → Bool} (h : FrontOf tokens pos s) (hq : s.head?.any q = false) :
    accept q tokens ⟨pos, depth⟩ = some (.ok false, ⟨pos, depth⟩) := by
  rw [accept, bind_of_ok (next_eq q h), hq]
  rfl

/-- A parser that goes on behind another one. -/
theorem Answers.bind {f : α → CursorParser β} {answer : Except Failure (α × List Token)}
    {next : α × List Token → Except Failure (β × List Token)}
    (hm : m.Answers tokens depth pos answer)
    (hf : ∀ a rest later, pos ≤ later → FrontOf tokens later rest →
      (f a).Answers tokens depth later (next (a, rest))) :
    (m >>= f).Answers tokens depth pos (answer >>= next) := by
  obtain ⟨mid, hmid, hfront, hanswer⟩ := hm
  cases answer with
  | error e => exact ⟨mid, hmid, hfront, bind_of_error hanswer⟩
  | ok x =>
      obtain ⟨later, hlater, hrest, hlast⟩ := hf x.1 x.2 mid hmid hfront
      exact ⟨later, Nat.le_trans hmid hlater, hrest, (bind_of_ok hanswer).trans hlast⟩

/-- A parser that goes on behind the token at the cursor. -/
theorem Answers.advance {answer : Except Failure (α × List Token)}
    (h : FrontOf tokens pos (t :: s)) (hm : m.Answers tokens depth (pos + 1) answer) :
    (do CursorParser.advance; m : CursorParser α).Answers tokens depth pos answer := by
  obtain ⟨later, hlater, hfront, hanswer⟩ := hm
  exact ⟨later, Nat.le_of_succ_le hlater, hfront, (bind_of_ok (advance_cons h)).trans hanswer⟩

namespace Tracks

theorem pure (a : α) : Tracks depth size (pure a) (pure a) := fun _ pos _ h _ =>
  ⟨pos, Nat.le_refl _, h, rfl⟩

theorem refuse (refusal : Refusal) :
    Tracks depth size (refuse refusal : CursorParser α) fun s => .error ⟨refusal, s⟩ :=
  fun _ pos _ h _ => ⟨pos, Nat.le_refl _, h, refuse_eq refusal h⟩

theorem bind {f : α → CursorParser β} {g : α → Parser β} (hm : Tracks depth size m p)
    (hf : ∀ a, Tracks depth size (f a) (g a)) : Tracks depth size (m >>= f) (p >>= g) := by
  intro tokens pos s h hsize
  refine (hm tokens pos s h hsize).bind fun a rest later hlater hrest => ?_
  have hlength := h.length_eq
  have hlength' := hrest.length_eq
  exact hf a tokens later rest hrest (by omega)

theorem map (f : α → β) (hm : Tracks depth size m p) : Tracks depth size (f <$> m) (f <$> p) := by
  rw [map_eq_pure_bind, map_eq_pure_bind]
  exact hm.bind fun a => .pure (f a)

theorem ite {b : Prop} [Decidable b] {m' : CursorParser α} {p' : Parser α}
    (hm : Tracks depth size m p) (hm' : Tracks depth size m' p') :
    Tracks depth size (if b then m else m') (if b then p else p') := by
  split
  · exact hm
  · exact hm'

theorem token (what : Expectation) (q : Token → Bool) :
    Tracks depth size (token what q) (Parser.token what q) := by
  intro tokens pos s h hsize
  rw [Answers, CursorParser.token, bind_of_ok (peek_eq h)]
  cases s with
  | nil => exact refuse (.unexpected what) tokens pos [] h hsize
  | cons t s =>
      simp only [List.head?_cons, Parser.token]
      by_cases hq : q t = true
      · rw [if_pos hq, if_pos hq, bind_of_ok (advance_cons h)]
        exact ⟨pos + 1, Nat.le_succ pos, h.tail, rfl⟩
      · rw [if_neg hq, if_neg hq]
        exact refuse (.unexpected what) tokens pos (t :: s) h hsize

theorem keyword (word : String) : Tracks depth size (keyword word) (Parser.keyword word) :=
  token _ _

theorem accept (q : Token → Bool) : Tracks depth size (accept q) (Parser.accept q) := by
  intro tokens pos s h _
  cases s with
  | nil => exact ⟨pos, Nat.le_refl _, h, accept_of_not h rfl⟩
  | cons t s =>
      rw [Answers, Parser.accept]
      by_cases hq : q t = true
      · rw [if_pos hq]
        exact ⟨pos + 1, Nat.le_succ pos, h.tail, accept_of h hq⟩
      · rw [if_neg hq]
        exact ⟨pos, Nat.le_refl _, h, accept_of_not h (by simpa using hq)⟩

theorem atKeyword (word : String) :
    Tracks depth size (next (·.isKeyword word)) (Parser.atKeyword word) := by
  intro tokens pos s h hsize
  rw [Answers, next_eq _ h]
  cases s with
  | nil => exact ⟨pos, Nat.le_refl _, h, rfl⟩
  | cons t s => exact ⟨pos, Nat.le_refl _, h, rfl⟩

theorem clause (word : String) (hm : Tracks depth size m p) :
    Tracks depth size (clause word m) (Parser.clause word p) :=
  (accept _).bind fun _ => .ite (hm.bind fun _ => .pure _) (.pure _)

/-- Below the limit one more parser is at work; it is not any more where it fails. -/
theorem enter (hdepth : depth < maxHeight) (hm : Tracks (depth + 1) size m p) :
    Tracks depth size (enter m) p := by
  intro tokens pos s h hsize
  obtain ⟨later, hlater, hfront, hanswer⟩ := hm tokens pos s h hsize
  refine ⟨later, hlater, hfront, ?_⟩
  rw [CursorParser.enter, if_neg (Nat.not_le.2 hdepth), hanswer]
  rfl

/-- At the limit and beyond it no more parser is let in. -/
theorem enter_at_limit (hdepth : maxHeight ≤ depth) (m : CursorParser α) :
    Tracks depth size (CursorParser.enter m) (expected .shallowerExpression) := by
  intro tokens pos s h hsize
  rw [Answers, CursorParser.enter, if_pos hdepth]
  exact refuse _ tokens pos s h hsize

end Tracks

end CursorParser

end Tracking

end TableQuery
