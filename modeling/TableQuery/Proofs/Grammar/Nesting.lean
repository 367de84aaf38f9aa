import TableQuery.Proofs.Parser.Nesting
import TableQuery.Query.Parser

/-!
# The grammar with its nesting counted

The parsers of expressions and queries once more, now with a record of their nesting. What ends
the descent here is the number of parsers at work: the levels of the recursion are a further
argument, and however many of them there are beyond the nesting limit, the answers are those of the
parsers without a record.
-/

namespace TableQuery

open TableQuery.Parser TableQuery.Expr

namespace Counted

section Expressions

/-- An expression with its height, which must not exceed the limit. -/
def sized (expr : Expr) (height : Nat) : Counted Sized :=
  if maxHeight < height then refuse else pure ⟨expr, height⟩

section Nested

variable (nested : Option Operator → Counted Sized)

/-- The branches of a choice between two keywords. -/
def branch : Counted ((Expr × Expr) × Nat) := do
  let _ ← ofParser (keyword "WHEN")
  let condition ← nested none
  let _ ← ofParser (keyword "THEN")
  let result ← nested none
  return ((condition.expr, result.expr), max condition.height result.height)

/-- The subject of a choice, missing where a branch comes first. -/
def subject : Counted (Option Sized) := do
  if ← ofParser (atKeyword "WHEN") then return none else some <$> nested none

/-- A choice, behind its first keyword. -/
def choice : Counted Sized := do
  let subject ← subject nested
  let branches ← list₁ (branch nested) .nothing
  let otherwise ← clause "ELSE" (nested none)
  let _ ← ofParser (keyword "END")
  let heights := subject.toList.map (·.height) ++ branches.map (·.2) ++
    otherwise.toList.map (·.height)
  sized (case (subject.map (·.expr)) (branches.map (·.1)) (otherwise.map (·.expr)))
    (heights.foldl max 0 + 1)

/-- The arguments of a call, behind the opening parenthesis. -/
def arguments (name : String) : Counted Sized := do
  if countsRows name (← get) then
    let _ ← ofParser (token .expression (·.isKind .star))
    let _ ← ofParser (token .closingParenthesis (·.isKind .closeParenthesis))
    return ⟨ofCall name [star], 2⟩
  else
    let args ← list₀ (nested none) .comma
    let _ ← ofParser (token .closingParenthesis (·.isKind .closeParenthesis))
    sized (ofCall name (args.map (·.expr))) ((args.map (·.height)).foldl max 0 + 1)

/-- An expression between parentheses, behind the opening one. -/
def group : Counted Sized := do
  let inner ← nested none
  let _ ← ofParser (token .closingParenthesis (·.isKind .closeParenthesis))
  return inner

/-- A call or a column, behind its name. -/
def named (name : String) : Counted Sized := do
  if ← ofParser (accept (·.isKind .openParenthesis)) then arguments nested name
  else return ⟨identifier name, 1⟩

/-- An expression that applies no operator outside of parentheses. -/
def atom : Counted Sized
  | [], n => (.error ⟨.unexpected .expression, []⟩, n)
  | t :: rest, n =>
    match t.kind with
    | .openParenthesis => group nested rest n
    | .identifier => named nested t.name rest n
    | .number => (.ok (⟨number (t.number?.getD (Number.ofNat 0)) t.text, 1⟩, rest), n)
    | .string => (.ok (⟨string t.name, 1⟩, rest), n)
    | .keyword =>
      if t.text = "TRUE" then (.ok (⟨bool true, 1⟩, rest), n)
      else if t.text = "FALSE" then (.ok (⟨bool false, 1⟩, rest), n)
      else if t.text = "NULL" then (.ok (⟨null, 1⟩, rest), n)
      else if t.text = "CASE" then choice nested rest n
      else (.error ⟨.unexpected .expression, t :: rest⟩, n)
    | _ => (.error ⟨.unexpected .expression, t :: rest⟩, n)

/-- Applies an operator to a left operand and the one that follows it. -/
def applied (op : Operator) (left : Sized) : Counted Sized := do
  let right ← nested (some op)
  sized (binary op left.expr right.expr) (max left.height right.height + 1)

/-- Applies the operators that follow an operand of `control` to it, as long as they bind
tighter. -/
def operators (control : Option Operator) : (bound : Nat) → Sized → Counted Sized
  | 0, left, s, n => (.ok (left, s), n)
  | bound + 1, left, s, n =>
    match frontOperator? s with
    | .error f => (.error f, n)
    | .ok none => (.ok (left, s), n)
    | .ok (some op) =>
      if !op.bindsTighter control then (.ok (left, s), n)
      else
        match applied nested op left (s.drop 1) n with
        | (.error f, n) => (.error f, n)
        | (.ok (left, rest), n) => operators control bound left rest n

end Nested

/-- Everything that binds tighter than an operator. The answer without levels is none that a parser
of expressions gives. -/
def operand : (levels : Nat) → Option Operator → Counted Sized
  | 0, _ => pure ⟨null, 0⟩
  | levels + 1, control => enter do
    let left ← atom (operand levels)
    fun s => operators (operand levels) control s.length left s

/-- An expression. -/
def expression (levels : Nat) : Counted Expr :=
  (·.expr) <$> operand levels none

end Expressions

section Clauses

variable (expression : Counted Expr)

/-- A column of the result, with a name behind AS or its default name. -/
def outputColumn : Counted OutputColumn := do
  let expr ← expression
  let name ← clause "AS"
    (ofParser (token .columnName fun t => t.isKind .identifier || t.isKind .string))
  return ⟨expr, (name.map (·.name)).getD (OutputColumn.defaultName expr)⟩

/-- The columns of the result: a star, or a list. -/
def selection : Counted Selection := do
  if ← ofParser (accept (·.isKind .star)) then return .all
  else return .columns (← list₁ (outputColumn expression) .comma)

/-- The grouping keys and the condition on groups. -/
def grouping : Counted (Option (List Expr × Option Expr)) :=
  clause "GROUP" do
    let _ ← ofParser (keyword "BY")
    let keys ← list₁ expression .comma
    return (keys, ← clause "HAVING" expression)

/-- A term of an ordering; ascending unless said otherwise. -/
def orderingTerm : Counted OrderingTerm := do
  let expr ← expression
  if ← ofParser (acceptKeyword "ASC") then return ⟨expr, .ascending⟩
  else if ← ofParser (acceptKeyword "DESC") then return ⟨expr, .descending⟩
  else return ⟨expr, .ascending⟩

/-- The terms of an ordering. -/
def ordering : Counted (Option (List OrderingTerm)) :=
  clause "ORDER" do
    let _ ← ofParser (keyword "BY")
    list₁ (orderingTerm expression) .comma

/-- A query, up to its end mark. -/
def clauses : Counted Query := do
  let _ ← ofParser (keyword "SELECT")
  let select ← selection expression
  let _ ← ofParser (keyword "FROM")
  let source ← ofParser Query.tableName
  let condition ← clause "WHERE" expression
  let grouping ← grouping expression
  let orderBy ← ordering expression
  let limit ← clause "LIMIT" (ofParser Query.count)
  let offset ← clause "OFFSET" (ofParser Query.count)
  return {
    select, source, condition, orderBy, limit, offset
    groupBy := grouping.map (·.1)
    having := grouping.bind (·.2) }

end Clauses

/-- A whole query. -/
def query (levels : Nat) : Counted Query := do
  let query ← clauses (expression levels)
  let _ ← ofParser (accept (·.isKind .semicolon))
  ofParser Query.finished
  return query

end Counted

section Unlimited

theorem Expr.raised_frontOperator? {s : List Token} {f : Failure}
    (h : frontOperator? s = .error f) :
    raised (.error f : Except Failure (Sized × List Token)) = [] := by
  cases s with
  | nil => cases h
  | cons t s =>
      rw [frontOperator?] at h
      split at h
      · cases h
      · split at h
        · split at h
          · cases h
          · cases h
            rfl
        · cases h

namespace Query

theorem flat_tableName : tableName.Flat := (flat_token (by simp) _).map _

theorem flat_count : count.Flat := by
  intro s
  have htoken : raised (token .number (·.isKind .number) s) = [] := flat_token (by simp) _ s
  rw [count]
  split
  · next f h =>
    rw [h] at htoken
    exact htoken
  · split
    · rfl
    · rfl

theorem flat_finished : finished.Flat := by
  intro s
  cases s with
  | nil => rfl
  | cons t s => rfl

end Query

end Unlimited

section Answers

namespace Counted

namespace Counts

variable {depth : Nat}

theorem sized (e : Expr) (height : Nat) :
    Counts depth (sized e height) (Expr.sized e height) :=
  .ite .refuse (.pure _)

section Nested

variable {nested : Option Operator → Counted Sized} {plain : OperandParser}
  (h : ∀ control, Counts depth (nested control) (plain control))

include h

theorem branch : Counts depth (branch nested) (Expr.branch plain) :=
  (ofParser (flat_keyword _)).bind fun _ => (h none).bind fun _ =>
    (ofParser (flat_keyword _)).bind fun _ => (h none).bind fun _ => .pure _

theorem subject : Counts depth (subject nested) (Expr.subject plain) :=
  (ofParser (flat_atKeyword _)).bind fun _ => .ite (.pure _) ((h none).map some)

theorem choice : Counts depth (choice nested) (Expr.choice plain) :=
  (subject h).bind fun _ => ((branch h).list₁ _).bind fun _ => ((h none).clause _).bind fun _ =>
    (ofParser (flat_keyword _)).bind fun _ => sized _ _

theorem arguments (name : String) :
    Counts depth (arguments nested name) (Expr.arguments plain name) := by
  let close := token .closingParenthesis (·.isKind .closeParenthesis)
  have hclose : Counts depth (.ofParser close) close := ofParser (flat_token (by simp) _)
  refine get.bind fun s => .ite ?_ ?_
  · exact (ofParser (flat_token (by simp) _)).bind fun _ => hclose.bind fun _ => .pure _
  · exact ((h none).list₀ _).bind fun _ => hclose.bind fun _ => sized _ _

theorem group : Counts depth (group nested) (Expr.group plain) :=
  (h none).bind fun _ => (ofParser (flat_token (by simp) _)).bind fun _ => .pure _

theorem named (name : String) : Counts depth (named nested name) (Expr.named plain name) :=
  (ofParser (flat_accept _)).bind fun _ => .ite (arguments h name) (.pure _)

theorem atom : Counts depth (atom nested) (Expr.atom plain) := by
  intro s n hn
  cases s with
  | nil => exact ⟨n, rfl, hn⟩
  | cons t rest =>
      rw [Counted.atom, Expr.atom]
      cases t.kind with
      | openParenthesis => exact group h rest n hn
      | identifier => exact named h t.name rest n hn
      | keyword =>
          simp only
          split
          · exact ⟨n, rfl, hn⟩
          · split
            · exact ⟨n, rfl, hn⟩
            · split
              · exact ⟨n, rfl, hn⟩
              · split
                · exact choice h rest n hn
                · exact ⟨n, rfl, hn⟩
      | _ => exact ⟨n, rfl, hn⟩

theorem applied (op : Operator) (left : Sized) :
    Counts depth (applied nested op left) (Expr.applied plain op left) :=
  (h _).bind fun _ => sized _ _

theorem operators (control : Option Operator) (bound : Nat) (left : Sized) :
    Counts depth (operators nested control bound left)
      (Expr.operators plain control bound left) := by
  induction bound generalizing left with
  | zero => exact fun _ n hn => ⟨n, rfl, hn⟩
  | succ bound ih =>
      intro s n hn
      rw [Counted.operators, Expr.operators]
      cases hfront : frontOperator? s with
      | error f => exact ⟨n, rfl, raised_frontOperator? hfront ▸ hn⟩
      | ok o =>
          cases o with
          | none => exact ⟨n, rfl, hn⟩
          | some op =>
              simp only
              split
              · exact ⟨n, rfl, hn⟩
              · obtain ⟨later, happlied, hlater⟩ := applied h op left (s.drop 1) n hn
                simp only [happlied]
                cases hlarger : Expr.applied plain op left (s.drop 1) with
                | error f =>
                    rw [hlarger] at hlater
                    exact ⟨later, rfl, hlater⟩
                | ok larger =>
                    rw [hlarger] at hlater
                    exact ih larger.1 larger.2 later hlater

end Nested

/-- With more levels than the limit leaves, the count alone ends the descent: as many parsers are
let in as the parser without a record has room for. Each of them goes one level down, one deeper
and to one room less. -/
theorem operand {levels depth room : Nat} (hroom : depth + room = maxHeight)
    (hlevels : room < levels) (control : Option Operator) :
    Counts depth (operand levels control) (Expr.operand room control) := by
  induction levels generalizing depth room control with
  | zero => exact absurd hlevels (Nat.not_lt_zero room)
  | succ levels ih =>
      cases room with
      | zero =>
          obtain rfl : depth = maxHeight := hroom
          exact enter_at_limit _
      | succ room =>
          have hnested : ∀ control,
              Counts (depth + 1) (Counted.operand levels control) (Expr.operand room control) :=
            fun control => ih (by omega) (by omega) control
          refine enter (by omega) ((atom hnested).bind fun left => ?_)
          exact fun s => operators hnested control s.length left s

theorem expression {levels : Nat} (h : maxHeight < levels) :
    Counts 0 (expression levels) Expr.parser :=
  (operand (Nat.zero_add _) h none).map _

section Clauses

variable {expression : Counted Expr} (h : Counts 0 expression Expr.parser)

include h

theorem outputColumn : Counts 0 (outputColumn expression) Query.outputColumn :=
  h.bind fun _ => ((ofParser (flat_token (by simp) _)).clause _).bind fun _ => .pure _

theorem selection : Counts 0 (selection expression) Query.selection :=
  (ofParser (flat_accept _)).bind fun _ =>
    .ite (.pure _) (((outputColumn h).list₁ _).bind fun _ => .pure _)

theorem grouping : Counts 0 (grouping expression) Query.grouping :=
  clause _ <| (ofParser (flat_keyword _)).bind fun _ => (h.list₁ _).bind fun _ =>
    (h.clause _).bind fun _ => .pure _

theorem orderingTerm : Counts 0 (orderingTerm expression) Query.orderingTerm :=
  h.bind fun _ => (ofParser (flat_accept _)).bind fun _ =>
    .ite (.pure _) ((ofParser (flat_accept _)).bind fun _ => .ite (.pure _) (.pure _))

theorem ordering : Counts 0 (ordering expression) Query.ordering :=
  clause _ <| (ofParser (flat_keyword _)).bind fun _ => (orderingTerm h).list₁ _

theorem clauses : Counts 0 (clauses expression) Query.clauses := by
  have hcount : ∀ word, Counts 0 (Counted.clause word (.ofParser Query.count))
      (Parser.clause word Query.count) := fun word => (ofParser Query.flat_count).clause word
  exact (ofParser (flat_keyword _)).bind fun _ => (selection h).bind fun _ =>
    (ofParser (flat_keyword _)).bind fun _ => (ofParser Query.flat_tableName).bind fun _ =>
    (h.clause _).bind fun _ => (grouping h).bind fun _ => (ordering h).bind fun _ =>
    (hcount _).bind fun _ => (hcount _).bind fun _ => .pure _

end Clauses

theorem query {levels : Nat} (h : maxHeight < levels) : Counts 0 (query levels) Query.parser :=
  (clauses (expression h)).bind fun _ => (ofParser (flat_accept _)).bind fun _ =>
    (ofParser Query.flat_finished).bind fun _ => .pure _

end Counts

end Counted

end Answers

end TableQuery
