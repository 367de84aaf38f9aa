import TableQuery.Proofs.Grammar.Soundness
import TableQuery.Proofs.Parser.CursorLists

/-!
# The grammar with a cursor

The parsers of expressions once more, now with a cursor and with a count of the parsers at work.
Loops and nested expressions share one supply of fuel. It does not run out where it exceeds the
nesting that the limit leaves and the tokens that are left, together: then every parser comes to an
end, at a place that is not before the one where it began, and with its count as it was.
-/

namespace TableQuery

open TableQuery.Parser TableQuery.Expr

namespace CursorParser

section Expressions

/-- An expression with its height, which must not exceed the limit. -/
def sized (expr : Expr) (height : Nat) : CursorParser Sized :=
  if maxHeight < height then refuse (.unexpected .shallowerExpression) else pure ⟨expr, height⟩

/-- The operator at the cursor, if there is one. -/
def peekOperator : CursorParser (Option Operator) := do
  match ← peek with
  | none => return none
  | some t =>
    if t.kind = .star then return some .multiply
    else if t.kind = .operator then
      match Operator.ofSymbol? t.text with
      | some op => return some op
      | none => refuse .unknownOperator
    else return none

section Nested

variable (nested : Option Operator → CursorParser Sized) (fuel : Nat)

/-- The branches of a choice between two keywords. -/
def branch : CursorParser ((Expr × Expr) × Nat) := do
  let _ ← keyword "WHEN"
  let condition ← nested none
  let _ ← keyword "THEN"
  let result ← nested none
  return ((condition.expr, result.expr), max condition.height result.height)

/-- The subject of a choice, missing where a branch comes first. -/
def subject : CursorParser (Option Sized) := do
  if ← next (·.isKeyword "WHEN") then return none else some <$> nested none

/-- A choice, behind its first keyword. -/
def choice : CursorParser Sized := do
  let subject ← subject nested
  let branches ← many (branch nested) .nothing true fuel []
  let otherwise ← clause "ELSE" (nested none)
  let _ ← keyword "END"
  let heights := subject.toList.map (·.height) ++ branches.map (·.2) ++
    otherwise.toList.map (·.height)
  sized (case (subject.map (·.expr)) (branches.map (·.1)) (otherwise.map (·.expr)))
    (heights.foldl max 0 + 1)

/-- The arguments of a call, behind the opening parenthesis. -/
def arguments (name : String) : CursorParser Sized := do
  if Text.asciiUpper name == "COUNT" && (← next (·.isKind .star)) then
    advance
    let _ ← token .closingParenthesis (·.isKind .closeParenthesis)
    return ⟨ofCall name [star], 2⟩
  else
    let args ← many (nested none) .comma false fuel []
    let _ ← token .closingParenthesis (·.isKind .closeParenthesis)
    sized (ofCall name (args.map (·.expr))) ((args.map (·.height)).foldl max 0 + 1)

/-- An expression between parentheses, behind the opening one. -/
def group : CursorParser Sized := do
  let inner ← nested none
  let _ ← token .closingParenthesis (·.isKind .closeParenthesis)
  return inner

/-- A call or a column, behind its name. -/
def named (name : String) : CursorParser Sized := do
  if ← accept (·.isKind .openParenthesis) then arguments nested fuel name
  else return ⟨identifier name, 1⟩

/-- An expression that is a token, which is taken. -/
def leaf (expr : Expr) : CursorParser Sized := do
  advance
  return ⟨expr, 1⟩

/-- An expression that applies no operator outside of parentheses. -/
def atom : CursorParser Sized := do
  match ← peek with
  | none => refuse (.unexpected .expression)
  | some t =>
    match t.kind with
    | .openParenthesis => do advance; group nested
    | .identifier => do advance; named nested fuel t.name
    | .number => leaf (number (t.number?.getD (Number.ofNat 0)) t.text)
    | .string => leaf (string t.name)
    | .keyword =>
      if t.text = "TRUE" then leaf (bool true)
      else if t.text = "FALSE" then leaf (bool false)
      else if t.text = "NULL" then leaf null
      else if t.text = "CASE" then do advance; choice nested fuel
      else refuse (.unexpected .expression)
    | _ => refuse (.unexpected .expression)

/-- Applies an operator to a left operand and the one that follows it. -/
def applied (op : Operator) (left : Sized) : CursorParser Sized := do
  let right ← nested (some op)
  sized (binary op left.expr right.expr) (max left.height right.height + 1)

/-- Applies the operators that follow an operand of `control` to it, as long as they bind
tighter. -/
def operators (control : Option Operator) : (fuel : Nat) → Sized → CursorParser Sized
  | 0, _ => exhausted
  | fuel + 1, left => do
    match ← peekOperator with
    | none => return left
    | some op =>
      if !op.bindsTighter control then return left
      else do
        advance
        let left ← applied nested op left
        operators control fuel left

end Nested

/-- Everything that binds tighter than an operator. -/
def operand : (fuel : Nat) → Option Operator → CursorParser Sized
  | 0, _ => exhausted
  | fuel + 1, control => enter do
    let left ← atom (operand fuel) fuel
    operators (operand fuel) control fuel left

end Expressions

end CursorParser

section Cursorless

namespace Expr

variable {nested : OperandParser} {control : Option Operator} {s : List Token}

theorem operators_nil (bound : Nat) (left : Sized) :
    operators nested control bound left [] = .ok (left, []) := by
  cases bound <;> rfl

theorem operators_of_tighter {op : Operator} (bound : Nat) (left : Sized)
    (hop : frontOperator? s = .ok (some op)) (htight : op.bindsTighter control = true) :
    operators nested control (bound + 1) left s =
      (applied nested op left >>= operators nested control bound) (s.drop 1) := by
  rw [operators, hop]
  simp only [htight, Bool.not_true, Bool.false_eq_true, if_false]
  change _ = (applied nested op left (s.drop 1) >>= fun x => _)
  cases applied nested op left (s.drop 1) <;> rfl

theorem countsRows_eq (name : String) (s : List Token) :
    countsRows name s = (Text.asciiUpper name == "COUNT" && s.head?.any (·.isKind .star)) := by
  cases s with
  | nil => simp [countsRows]
  | cons t s => rfl

theorem arguments_of_star {name : String} {t : Token} (h : countsRows name (t :: s) = true) :
    arguments nested name (t :: s) =
      (do
        let _ ← token .closingParenthesis (·.isKind .closeParenthesis)
        return ⟨ofCall name [star], 2⟩ : Parser Sized) s := by
  have hstar : t.isKind .star = true := by
    rw [countsRows, Bool.and_eq_true] at h
    exact h.2
  change (if countsRows name (t :: s) then _ else _ : Parser Sized) (t :: s) = _
  rw [if_pos h]
  change (token .expression (·.isKind .star) (t :: s) >>= _) = _
  rw [token_cons hstar]
  rfl

theorem arguments_of_list {name : String} (h : countsRows name s = false) :
    arguments nested name s =
      (do
        let args ← list₀ (nested none) .comma
        let _ ← token .closingParenthesis (·.isKind .closeParenthesis)
        sized (ofCall name (args.map (·.expr)))
          ((args.map (·.height)).foldl max 0 + 1) : Parser Sized) s := by
  change (if countsRows name s then _ else _ : Parser Sized) s = _
  rw [if_neg (by simp [h])]

/-- The cursor stays in front of a symbol that no operator has. -/
theorem rest_of_frontOperator? {f : Failure} (h : frontOperator? s = .error f) : f.rest = s := by
  cases s with
  | nil => cases h
  | cons t s =>
      rw [frontOperator?] at h
      split at h
      · cases h
      · split at h
        · split at h
          · cases h
          · cases h
            rfl
        · cases h

open TableQuery.Grammar

theorem length_lt_of_derives {category : Category} {p : Phrase Expr} {rest : List Token}
    (h : Derives category p) : rest.length < (p.tokens ++ rest).length := by
  obtain ⟨t, w, ht, -⟩ := h.exists_starts
  rw [ht, List.length_append, List.length_cons]
  omega

theorem takes_nested (hsound : OperandSound nested) (control : Option Operator) :
    (nested control).Takes := by
  intro s x rest h
  obtain ⟨c, rfl, -, hc⟩ := hsound control s x rest h
  exact length_lt_of_derives (.chain hc.atoms)

theorem takes_atom (hsound : OperandSound nested) : (atom nested).Takes := by
  intro s x rest h
  obtain ⟨p, rfl, ⟨hp, -⟩, -⟩ := atom_sound hsound h
  exact length_lt_of_derives hp

theorem takes_branch (hsound : OperandSound nested) : (branch nested).Takes := by
  intro s x rest h
  obtain ⟨w, rfl, b, -, hb⟩ := branch_yields hsound s x rest h
  obtain ⟨rfl, -⟩ := Phrase.mk.inj hb
  simp only [Branch.phrase, List.length_append, List.length_cons]
  omega

theorem takes_choice (hsound : OperandSound nested) : (choice nested).Takes := by
  intro s x rest h
  obtain ⟨o, s₁, hsubject, h⟩ := bind_eq_ok.mp h
  obtain ⟨branches, s₂, hbranches, h⟩ := bind_eq_ok.mp h
  obtain ⟨otherwise, s₃, hotherwise, h⟩ := bind_eq_ok.mp h
  obtain ⟨finish, s₄, hfinish, hsized⟩ := bind_eq_ok.mp h
  obtain ⟨-, rfl, rfl⟩ := sized_eq_ok.mp hsized
  obtain ⟨p, -, rfl, -⟩ := subject_sound hsound hsubject
  obtain ⟨w, rfl, -⟩ := list₁_yields (branch_yields hsound) _ _ _ _ hbranches
  obtain ⟨p', -, rfl, -⟩ := otherwise_sound hsound hotherwise
  obtain ⟨rfl, -⟩ := keyword_eq_ok.mp hfinish
  simp only [List.length_append, List.length_cons]
  omega

theorem takes_arguments (hsound : OperandSound nested) (name : String) :
    (arguments nested name).Takes := by
  intro s x rest h
  obtain ⟨s', s₁, hget, h⟩ := bind_eq_ok.mp h
  obtain ⟨rfl, rfl⟩ := get_eq_ok.mp hget
  split at h
  · obtain ⟨star, s₂, hstar, h⟩ := bind_eq_ok.mp h
    obtain ⟨close, s₃, hclose, h⟩ := bind_eq_ok.mp h
    obtain ⟨-, rfl⟩ := pure_eq_ok.mp h
    obtain ⟨rfl, -⟩ := token_eq_ok.mp hstar
    obtain ⟨rfl, -⟩ := token_eq_ok.mp hclose
    simp only [List.length_cons]
    omega
  · obtain ⟨args, s₂, hargs, h⟩ := bind_eq_ok.mp h
    obtain ⟨close, s₃, hclose, hsized⟩ := bind_eq_ok.mp h
    obtain ⟨-, rfl, rfl⟩ := sized_eq_ok.mp hsized
    obtain ⟨w, rfl, -⟩ := list₀_yields (nested_yields hsound) _ _ _ _ hargs
    obtain ⟨rfl, -⟩ := token_eq_ok.mp hclose
    simp only [List.length_append, List.length_cons]
    omega

theorem stopsAt_branch : StopsAt (branch nested) .nothing [] :=
  stopsAt_of_error (f := ⟨.unexpected (.keyword "WHEN"), []⟩) rfl rfl

end Expr

end Cursorless

section Answers

namespace CursorParser

variable {depth size fuel pos : Nat} {tokens s : List Token}

theorem peekOperator_eq (depth : Nat) (h : FrontOf tokens pos s) :
    peekOperator tokens ⟨pos, depth⟩ = some (frontOperator? s, ⟨pos, depth⟩) := by
  rw [peekOperator, bind_of_ok (peek_eq h)]
  cases s with
  | nil => rfl
  | cons t s =>
      simp only [List.head?_cons, frontOperator?]
      split
      · rfl
      · split
        · cases Operator.ofSymbol? t.text with
          | some op => rfl
          | none => exact refuse_eq .unknownOperator h
        · rfl

namespace Tracks

theorem sized (e : Expr) (height : Nat) :
    Tracks depth size (sized e height) (Expr.sized e height) :=
  .ite (.refuse _) (.pure _)

section Nested

variable {nested : Option Operator → CursorParser Sized} {plain : OperandParser}
  (h : ∀ control, Tracks depth size (nested control) (plain control))

include h

theorem branch : Tracks depth size (branch nested) (Expr.branch plain) :=
  (keyword _).bind fun _ => (h none).bind fun _ => (keyword _).bind fun _ =>
    (h none).bind fun _ => .pure _

theorem subject : Tracks depth size (subject nested) (Expr.subject plain) :=
  (atKeyword _).bind fun _ => .ite (.pure _) ((h none).map some)

theorem group : Tracks depth size (group nested) (Expr.group plain) :=
  (h none).bind fun _ => (token _ _).bind fun _ => .pure _

theorem applied (op : Operator) (left : Sized) :
    Tracks depth size (applied nested op left) (Expr.applied plain op left) :=
  (h _).bind fun _ => sized _ _

/-- Each turn of the loop takes an operator and its right operand, so that the tokens that are left
are fewer. -/
theorem operators (control : Option Operator) {bound : Nat} (left : Sized)
    (hfront : FrontOf tokens pos s) (hsize : s.length ≤ size) (hfuel : s.length < fuel)
    (hbound : s.length ≤ bound) :
    (operators nested control fuel left).Answers tokens depth pos
      (Expr.operators plain control bound left s) := by
  induction fuel generalizing pos s bound left with
  | zero => omega
  | succ fuel ih =>
      have hlength := hfront.length_eq
      have hpeek := peekOperator_eq depth hfront
      rw [CursorParser.operators]
      cases s with
      | nil =>
          rw [operators_nil, Answers, bind_of_ok hpeek]
          exact ⟨pos, Nat.le_refl _, hfront, rfl⟩
      | cons t s =>
          simp only [List.length_cons] at hlength hsize hfuel hbound
          obtain ⟨bound, rfl⟩ : ∃ n, bound = n + 1 := ⟨bound - 1, by omega⟩
          cases hop : frontOperator? (t :: s) with
          | error f =>
              rw [hop] at hpeek
              rw [Expr.operators, hop]
              exact ⟨pos, Nat.le_refl _, (rest_of_frontOperator? hop).symm ▸ hfront,
                bind_of_error hpeek⟩
          | ok o =>
              rw [hop] at hpeek
              rw [Answers, bind_of_ok hpeek]
              cases o with
              | none =>
                  rw [Expr.operators, hop]
                  exact ⟨pos, Nat.le_refl _, hfront, rfl⟩
              | some op =>
                  by_cases htight : op.bindsTighter control = true
                  · rw [operators_of_tighter bound left hop htight]
                    simp only [htight]
                    refine Answers.advance hfront (Answers.bind
                      (applied h op left tokens (pos + 1) s hfront.tail (by omega))
                      fun larger rest later hlater hrest => ?_)
                    have hlength' := hrest.length_eq
                    exact ih larger hrest (by omega) (by omega) (by omega)
                  · rw [Expr.operators, hop]
                    simp only [htight]
                    exact ⟨pos, Nat.le_refl _, hfront, rfl⟩

variable (hsound : Grammar.OperandSound plain) (hfuel : size < fuel)

include hsound hfuel

theorem choice : Tracks depth size (choice nested fuel) (Expr.choice plain) := by
  have hbranches := list₁ (branch h) (takes_branch hsound) stopsAt_branch hfuel
  exact (subject h).bind fun _ => hbranches.bind fun _ => ((h none).clause _).bind fun _ =>
    (keyword _).bind fun _ => sized _ _

theorem arguments (name : String) :
    Tracks depth size (arguments nested fuel name) (Expr.arguments plain name) := by
  have hstops : StopsAt (plain none) .comma [] := stopsAt_of_skip?_eq_none rfl
  have hargs := list₀ (h none) (takes_nested hsound none) hstops hfuel
  have hclose : Tracks depth size _ _ := token .closingParenthesis (·.isKind .closeParenthesis)
  have hlist := hargs.bind fun args => hclose.bind fun _ =>
    sized (ofCall name (args.map (·.expr))) ((args.map (·.height)).foldl max 0 + 1)
  intro tokens pos s hfront hsize
  rw [Answers, CursorParser.arguments, bind_of_ok (next_eq _ hfront), ← countsRows_eq]
  by_cases hcount : countsRows name s = true
  · rw [if_pos hcount]
    cases s with
    | nil => cases hcount
    | cons t rest =>
        rw [List.length_cons] at hsize
        rw [arguments_of_star hcount]
        exact Answers.advance hfront ((hclose.bind fun _ => .pure _) tokens (pos + 1) rest
          hfront.tail (by omega))
  · rw [if_neg hcount, arguments_of_list (by simpa using hcount)]
    exact hlist tokens pos s hfront hsize

theorem named (name : String) :
    Tracks depth size (named nested fuel name) (Expr.named plain name) :=
  (accept _).bind fun _ => .ite (arguments h hsound hfuel name) (.pure _)

theorem atom : Tracks depth size (atom nested fuel) (Expr.atom plain) := by
  intro tokens pos s hfront hsize
  rw [Answers, CursorParser.atom, bind_of_ok (peek_eq hfront)]
  cases s with
  | nil => exact refuse _ tokens pos [] hfront hsize
  | cons t rest =>
      rw [List.length_cons] at hsize
      have hrest : rest.length ≤ size := by omega
      have hleaf (e : Expr) : (leaf e).Answers tokens depth pos (.ok (⟨e, 1⟩, rest)) :=
        .advance hfront (pure _ tokens (pos + 1) rest hfront.tail hrest)
      have hrefuse : (CursorParser.refuse (.unexpected .expression)).Answers tokens depth pos
          (.error ⟨.unexpected .expression, t :: rest⟩ : Except Failure (Sized × List Token)) :=
        refuse _ tokens pos (t :: rest) hfront hsize
      simp only [List.head?_cons]
      rw [Expr.atom]
      cases t.kind with
      | openParenthesis =>
          exact Answers.advance hfront (group h tokens (pos + 1) rest hfront.tail hrest)
      | identifier =>
          exact Answers.advance hfront
            (named h hsound hfuel t.name tokens (pos + 1) rest hfront.tail hrest)
      | number => exact hleaf _
      | string => exact hleaf _
      | keyword =>
          simp only
          split
          · exact hleaf _
          · split
            · exact hleaf _
            · split
              · exact hleaf _
              · split
                · exact Answers.advance hfront
                    (choice h hsound hfuel tokens (pos + 1) rest hfront.tail hrest)
                · exact hrefuse
      | _ => exact hrefuse

end Nested

/-- Each nested parser goes one level deeper and has less fuel by one, so that the fuel exceeds what
the limit leaves and the tokens that are left on every level. -/
theorem operand {depth fuel : Nat} (hfuel : maxHeight - depth + size < fuel)
    (control : Option Operator) :
    Tracks depth size (operand fuel control) (Expr.operand (maxHeight - depth) control) := by
  induction fuel generalizing depth control with
  | zero => omega
  | succ fuel ih =>
      rw [CursorParser.operand]
      by_cases hdepth : maxHeight ≤ depth
      · rw [Nat.sub_eq_zero_of_le hdepth]
        exact enter_at_limit hdepth _
      have hroom : maxHeight - depth = maxHeight - (depth + 1) + 1 := by omega
      have hnested : ∀ control, Tracks (depth + 1) size (CursorParser.operand fuel control)
          (Expr.operand (maxHeight - (depth + 1)) control) :=
        fun control => ih (by omega) control
      rw [hroom, Expr.operand]
      refine enter (by omega) fun tokens pos s hfront hsize => ?_
      refine (atom hnested (Grammar.operand_sound _) (by omega) tokens pos s hfront hsize).bind
        fun left rest later hlater hrest => ?_
      have hlength := hfront.length_eq
      have hlength' := hrest.length_eq
      exact operators hnested control left hrest (by omega) (by omega) (Nat.le_refl _)

end Tracks

/-- Wherever the cursor is and however many parsers of expressions are at work, each part of the
grammar of expressions comes to an end and answers like the parser without a cursor. The cursor does
not go back, nor beyond the tokens; the count is as it was, also after a failure; a success has
taken a token. A list of such parts, separated or not, leaves the cursor behind its last item. -/
theorem expressions_keepCursor (tokens : List Token) {pos depth fuel : Nat}
    (hpos : pos ≤ tokens.length) (hfuel : maxHeight - depth + (tokens.length - pos) < fuel) :
    (∀ control, KeepsCursor (operand fuel control) (Expr.operand (maxHeight - depth) control) fuel
      tokens depth pos) ∧
    KeepsCursor (atom (operand fuel) fuel) (Expr.atom (Expr.operand (maxHeight - depth))) fuel
      tokens depth pos ∧
    KeepsCursor (branch (operand fuel)) (Expr.branch (Expr.operand (maxHeight - depth))) fuel
      tokens depth pos ∧
    KeepsCursor (choice (operand fuel) fuel) (Expr.choice (Expr.operand (maxHeight - depth))) fuel
      tokens depth pos ∧
    ∀ name, KeepsCursor (arguments (operand fuel) fuel name)
      (Expr.arguments (Expr.operand (maxHeight - depth)) name) fuel tokens depth pos := by
  have h : ∀ control, Tracks depth (tokens.length - pos) (operand fuel control)
      (Expr.operand (maxHeight - depth) control) := Tracks.operand hfuel
  have hsound := Grammar.operand_sound (maxHeight - depth)
  have hsize : tokens.length - pos < fuel := by omega
  refine ⟨fun control => ?_, ?_, ?_, ?_, fun name => ?_⟩
  · exact (h control).keepsCursor (takes_nested hsound control) hpos (Nat.le_refl _) hsize
  · exact (Tracks.atom h hsound hsize).keepsCursor (takes_atom hsound) hpos (Nat.le_refl _) hsize
  · exact (Tracks.branch h).keepsCursor (takes_branch hsound) hpos (Nat.le_refl _) hsize
  · exact (Tracks.choice h hsound hsize).keepsCursor (takes_choice hsound) hpos (Nat.le_refl _)
      hsize
  · exact (Tracks.arguments h hsound hsize name).keepsCursor (takes_arguments hsound name) hpos
      (Nat.le_refl _) hsize

/-- The tokens `NULL, NULL *`: a complete item, and one that ends where an operand is missing. -/
def cutShort : List Token :=
  [⟨.keyword, "NULL", none⟩, ⟨.comma, ",", none⟩, ⟨.keyword, "NULL", none⟩, ⟨.star, "*", none⟩]

/-- The second item fails behind all tokens, and the list ends behind the first one. -/
theorem expressions_keepCursor_cutShort :
    KeepsCursor (operand 300 none) (Expr.operand maxHeight none) 300 cutShort 0 0 ∧
    operand 300 none cutShort ⟨2, 0⟩ =
      some (.error ⟨.unexpected .expression, []⟩, ⟨4, 0⟩) ∧
    many (operand 300 none) .comma false 300 [] cutShort ⟨0, 0⟩ =
      some (.ok [⟨.null, 1⟩], ⟨1, 0⟩) := by
  have hfuel : maxHeight - 0 + (cutShort.length - 0) < 300 := by decide
  exact ⟨(expressions_keepCursor cutShort (Nat.zero_le _) hfuel).1 none, rfl, rfl⟩

end CursorParser

end Answers

end TableQuery
