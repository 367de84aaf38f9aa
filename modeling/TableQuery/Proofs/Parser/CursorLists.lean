import TableQuery.Proofs.Parser.Cursor
import TableQuery.Proofs.Parser.Phrase

/-!
# Lists with a cursor

A list is read in a loop that turns back where an item fails: the cursor then stands behind the last
complete item again. Whether items stand apart by commas or by nothing, the loop comes to an end,
since each item takes a token.
-/

namespace TableQuery

open TableQuery.Parser

namespace CursorParser

variable {α : Type}

/-- Whether the tokens have ended. -/
def atEnd : CursorParser Bool := fun tokens c => some (.ok (decide (tokens.length ≤ c.pos)), c)

/-- The place of the cursor. -/
def position : CursorParser Nat := fun _ c => some (.ok c.pos, c)

/-- Moves the cursor to a place. -/
def moveTo (pos : Nat) : CursorParser Unit := fun _ c => some (.ok (), { c with pos })

/-- Runs a parser and answers with its failure, too. -/
def attempt (m : CursorParser α) : CursorParser (Except Failure α) := fun tokens c =>
  (m tokens c).map fun (answer, c) => (.ok answer, c)

/-- Takes what stands in front of an item, and answers whether there may be one. Nothing stands in
front of the first. -/
def separated (separator : Separator) (isFirst : Bool) : CursorParser Bool :=
  if separator = .comma && !isFirst then accept (·.isKind .comma) else pure true

/-- Items behind those that have been read. Where one fails although there are enough of them, the
cursor goes back behind the last one. No list needs more than one item. -/
def many (item : CursorParser α) (separator : Separator) (required : Bool) :
    (fuel : Nat) → (items : List α) → CursorParser (List α)
  | 0, _ => exhausted
  | fuel + 1, items => do
    let satisfied := !required || !items.isEmpty
    if satisfied && (← atEnd) then return items
    let checkpoint ← position
    if ← separated separator items.isEmpty then
      match ← attempt item with
      | .ok a => many item separator required fuel (items ++ [a])
      | .error f =>
        if satisfied && f.endsList then do moveTo checkpoint; return items
        else throw f
    else return items

end CursorParser

/-- Whatever the parser accepts has a token at least. -/
def Parser.Takes {α : Type} (p : Parser α) : Prop :=
  ∀ s a rest, p s = .ok (a, rest) → rest.length < s.length

namespace Parser

variable {α : Type} {item : Parser α} {separator : Separator} {a : α} {f : Failure}
  {s s' rest : List Token} {bound : Nat}

/-- The answer of a list with further items in front. -/
def after (items : List α) (answer : Except Failure (List α × List Token)) :
    Except Failure (List α × List Token) :=
  answer.map fun x => (items ++ x.1, x.2)

theorem after_ok_nil (items : List α) (s : List Token) :
    after items (.ok ([], s)) = .ok (items, s) := by
  rw [after, Except.map, List.append_nil]

theorem after_after (items items' : List α) (answer : Except Failure (List α × List Token)) :
    after items (after items' answer) = after (items ++ items') answer := by
  cases answer with
  | error f => rfl
  | ok x => simp only [after, Except.map, List.append_assoc]

theorem more_of_ok (hskip : separator.skip? s = some s') (h : item s' = .ok (a, rest)) :
    more item separator (bound + 1) s = after [a] (more item separator bound rest) := by
  simp only [more, hskip, h]
  cases more item separator bound rest <;> rfl

theorem more_of_error (hskip : separator.skip? s = some s') (h : item s' = .error f) :
    more item separator (bound + 1) s = if f.endsList then .ok ([], s) else .error f := by
  simp only [more, hskip, h]

theorem list₁_of_ok (h : item s = .ok (a, rest)) :
    list₁ item separator s = after [a] (more item separator rest.length rest) := by
  rw [list₁]
  change (item s >>= fun x => more item separator x.2.length x.2 >>= fun y =>
    .ok (x.1 :: y.1, y.2)) = _
  rw [h]
  change (more item separator rest.length rest >>= fun y => .ok (a :: y.1, y.2)) = _
  cases more item separator rest.length rest <;> rfl

theorem list₀_cons (t : Token) (s : List Token) :
    list₀ item separator (t :: s) =
      match list₁ item separator (t :: s) with
      | .ok answer => .ok answer
      | .error f => if f.endsList then .ok ([], t :: s) else .error f := rfl

/-- What ends a list does not fail it. -/
theorem not_endsList_of_more (h : more item separator bound s = .error f) : ¬f.endsList := by
  induction bound generalizing s with
  | zero => cases h
  | succ bound ih =>
      rw [more] at h
      split at h
      · cases h
      · split at h
        · split at h
          · cases h
          · next hends =>
            cases h
            exact hends
        · split at h
          · cases h
          · next hmore =>
            cases h
            exact ih hmore

end Parser

namespace CursorParser

variable {α : Type} {depth size pos : Nat} {m : CursorParser α} {p : Parser α}
  {tokens s : List Token}

theorem atEnd_eq (h : FrontOf tokens pos s) :
    atEnd tokens ⟨pos, depth⟩ = some (.ok s.isEmpty, ⟨pos, depth⟩) := by
  have hlength := h.length_eq
  cases s with
  | nil =>
      have hend : tokens.length ≤ pos := Nat.le_of_eq hlength.symm
      rw [atEnd, decide_eq_true hend, List.isEmpty_nil]
  | cons t s => rw [atEnd, decide_eq_false (Nat.not_le.2 h.lt), List.isEmpty_cons]

theorem position_eq (pos : Nat) :
    position tokens ⟨pos, depth⟩ = some (.ok pos, ⟨pos, depth⟩) := rfl

theorem attempt_eq {m : CursorParser α} {answer : Except Failure α} {c c' : Cursor}
    (h : m tokens c = some (answer, c')) : attempt m tokens c = some (.ok answer, c') := by
  rw [attempt, h]
  rfl

section Loop

/-- In front of an item the cursor goes behind the separator, or it stays and there is no item. -/
theorem separated_cases (separator : Separator) (isFirst : Bool) (depth : Nat)
    (h : FrontOf tokens pos s) :
    (separated separator isFirst tokens ⟨pos, depth⟩ = some (.ok false, ⟨pos, depth⟩) ∧
      isFirst = false ∧ separator.skip? s = none) ∨
    ∃ mid s', separated separator isFirst tokens ⟨pos, depth⟩ = some (.ok true, ⟨mid, depth⟩) ∧
      pos ≤ mid ∧ FrontOf tokens mid s' ∧
        if isFirst then s' = s else separator.skip? s = some s' := by
  cases separator with
  | nothing => exact .inr ⟨pos, s, rfl, Nat.le_refl _, h, by split <;> rfl⟩
  | comma =>
      cases isFirst with
      | true => exact .inr ⟨pos, s, rfl, Nat.le_refl _, h, rfl⟩
      | false =>
          cases s with
          | nil => exact .inl ⟨accept_of_not h rfl, rfl, rfl⟩
          | cons t s =>
              by_cases hcomma : t.isKind .comma = true
              · have hskip : t.kind = .comma := by simpa [Token.isKind] using hcomma
                exact .inr ⟨pos + 1, s, accept_of h hcomma, Nat.le_succ pos, h.tail, if_pos hskip⟩
              · have hskip : ¬t.kind = .comma := by simpa [Token.isKind] using hcomma
                exact .inl ⟨accept_of_not h (by simpa using hcomma), rfl, if_neg hskip⟩

theorem separated_first (separator : Separator) :
    separated separator true tokens ⟨pos, depth⟩ = some (.ok true, ⟨pos, depth⟩) := by
  cases separator with
  | comma => rfl
  | nothing => rfl

section Loop

variable {separator : Separator} {required : Bool} {items : List α} {fuel mid later : Nat}

theorem many_at_end (h : FrontOf tokens pos s)
    (hend : ((!required || !items.isEmpty) && s.isEmpty) = true) :
    many m separator required (fuel + 1) items tokens ⟨pos, depth⟩ =
      some (.ok items, ⟨pos, depth⟩) := by
  rw [many, bind_of_ok (atEnd_eq h), if_pos hend]
  rfl

theorem many_unseparated (h : FrontOf tokens pos s)
    (hno : separated separator items.isEmpty tokens ⟨pos, depth⟩ =
      some (.ok false, ⟨pos, depth⟩)) :
    many m separator required (fuel + 1) items tokens ⟨pos, depth⟩ =
      some (.ok items, ⟨pos, depth⟩) := by
  rw [many, bind_of_ok (atEnd_eq h)]
  split
  · rfl
  · exact bind_of_ok hno

/-- The loop goes on behind an item that is read. -/
theorem many_of_ok {a : α} (h : FrontOf tokens pos s)
    (hend : ((!required || !items.isEmpty) && s.isEmpty) = false)
    (hyes : separated separator items.isEmpty tokens ⟨pos, depth⟩ = some (.ok true, ⟨mid, depth⟩))
    (hitem : m tokens ⟨mid, depth⟩ = some (.ok a, ⟨later, depth⟩)) :
    many m separator required (fuel + 1) items tokens ⟨pos, depth⟩ =
      many m separator required fuel (items ++ [a]) tokens ⟨later, depth⟩ := by
  rw [many, bind_of_ok (atEnd_eq h), if_neg (by simp [hend])]
  rw [bind_of_ok (position_eq pos), bind_of_ok hyes, if_pos rfl, bind_of_ok (attempt_eq hitem)]

/-- The list ends in front of an item that fails, or the failure is the list's. -/
theorem many_of_error {f : Failure} (h : FrontOf tokens pos s)
    (hend : ((!required || !items.isEmpty) && s.isEmpty) = false)
    (hyes : separated separator items.isEmpty tokens ⟨pos, depth⟩ = some (.ok true, ⟨mid, depth⟩))
    (hitem : m tokens ⟨mid, depth⟩ = some (.error f, ⟨later, depth⟩)) :
    many m separator required (fuel + 1) items tokens ⟨pos, depth⟩ =
      if (!required || !items.isEmpty) && f.endsList then some (.ok items, ⟨pos, depth⟩)
      else some (.error f, ⟨later, depth⟩) := by
  rw [many, bind_of_ok (atEnd_eq h), if_neg (by simp [hend])]
  rw [bind_of_ok (position_eq pos), bind_of_ok hyes, if_pos rfl, bind_of_ok (attempt_eq hitem)]
  simp only
  split
  · rfl
  · rfl

end Loop

/-- Items read one after another, each behind the last one and what separates them. -/
inductive Items (item : CursorParser α) (separator : Separator) (tokens : List Token)
    (depth start : Nat) : List α → Nat → Prop where
  | nil : Items item separator tokens depth start [] start
  | snoc {items : List α} {a : α} {pos mid later : Nat}
      (h : Items item separator tokens depth start items pos)
      (hseparator : separated separator items.isEmpty tokens ⟨pos, depth⟩ =
        some (.ok true, ⟨mid, depth⟩))
      (hitem : item tokens ⟨mid, depth⟩ = some (.ok a, ⟨later, depth⟩)) :
      Items item separator tokens depth start (items ++ [a]) later

/-- From `pos` the parser comes to an end at a place in the list that is not before `pos`, and back
to the depth; it takes a token where it succeeds. -/
def Steps (m : CursorParser α) (tokens : List Token) (depth pos : Nat) : Prop :=
  ∃ answer later, m tokens ⟨pos, depth⟩ = some (answer, ⟨later, depth⟩) ∧ pos ≤ later ∧
    later ≤ tokens.length ∧ ∀ a, answer = .ok a → pos < later

/-- From `pos` the parser of a list comes to an end at a place in the list of tokens that is not
before `pos`, and back to the depth; where it succeeds, it is behind the items read from `start`. -/
def EndsBehind (m : CursorParser (List α)) (item : CursorParser α) (separator : Separator)
    (tokens : List Token) (depth start pos : Nat) : Prop :=
  ∃ answer later, m tokens ⟨pos, depth⟩ = some (answer, ⟨later, depth⟩) ∧ pos ≤ later ∧
    later ≤ tokens.length ∧ ∀ l, answer = .ok l → Items item separator tokens depth start l later

/-- A list of items that each take a token comes to an end. A success leaves the cursor behind the
last complete item, whatever the failed one behind it has done to the cursor. -/
theorem many_endsBehind {item : CursorParser α} (separator : Separator) (required : Bool)
    (hitem : ∀ pos ≤ tokens.length, tokens.length - pos ≤ size → Steps item tokens depth pos)
    {start fuel : Nat} {items : List α} (hpos : pos ≤ tokens.length)
    (hsize : tokens.length - pos ≤ size) (hfuel : tokens.length - pos < fuel)
    (hread : Items item separator tokens depth start items pos) :
    EndsBehind (many item separator required fuel items) item separator tokens depth start pos := by
  induction fuel generalizing pos items with
  | zero => omega
  | succ fuel ih =>
      have hfront : FrontOf tokens pos (tokens.drop pos) := ⟨hpos, rfl⟩
      have hstays : ∀ l, (.ok items : Except Failure (List α)) = .ok l →
          Items item separator tokens depth start l pos := by
        rintro l ⟨⟩
        exact hread
      by_cases hend : ((!required || !items.isEmpty) && (tokens.drop pos).isEmpty) = true
      · exact ⟨_, pos, many_at_end hfront hend, Nat.le_refl _, hpos, hstays⟩
      rcases separated_cases separator items.isEmpty depth hfront with
        ⟨hno, -, -⟩ | ⟨mid, s', hyes, hmid, hfront', -⟩
      · exact ⟨_, pos, many_unseparated hfront hno, Nat.le_refl _, hpos, hstays⟩
      obtain ⟨answer, later, hanswer, hlater, hlater', htakes⟩ :=
        hitem mid hfront'.pos_le (by omega)
      have hend' := Bool.eq_false_iff.2 hend
      cases answer with
      | ok a =>
          rw [EndsBehind, many_of_ok hfront hend' hyes hanswer]
          have hlt := htakes a rfl
          obtain ⟨answer, last, hmany, hlast, hlist⟩ :=
            ih hlater' (by omega) (by omega) (hread.snoc hyes hanswer)
          exact ⟨answer, last, hmany, by omega, hlist⟩
      | error f =>
          rw [EndsBehind, many_of_error hfront hend' hyes hanswer]
          split
          · exact ⟨_, pos, rfl, Nat.le_refl _, hpos, hstays⟩
          · exact ⟨_, later, rfl, by omega, hlater', nofun⟩

theorem Answers.steps (hanswers : m.Answers tokens depth pos (p s)) (h : FrontOf tokens pos s)
    (hp : p.Takes) : Steps m tokens depth pos := by
  obtain ⟨later, hlater, hfront, hanswer⟩ := hanswers
  refine ⟨_, later, hanswer, hlater, hfront.pos_le, fun a hok => ?_⟩
  cases hanswer : p s with
  | error f => rw [hanswer] at hok; cases hok
  | ok x =>
      have htakes := hp s x.1 x.2 hanswer
      rw [hanswer] at hfront
      have hlength := h.length_eq
      have hlength' : later + x.2.length = tokens.length := hfront.length_eq
      omega

/-- What a parser with a cursor does to it from `pos` on. -/
structure KeepsCursor (m : CursorParser α) (p : Parser α) (fuel : Nat) (tokens : List Token)
    (depth pos : Nat) : Prop where
  /-- It answers like the parser without a cursor. -/
  answers : m.Answers tokens depth pos (p (tokens.drop pos))
  /-- It takes a token where it succeeds. -/
  steps : Steps m tokens depth pos
  /-- A list of it, separated or not, ends behind its last item. -/
  lists : ∀ separator required,
    EndsBehind (many m separator required fuel []) m separator tokens depth pos pos

theorem Tracks.keepsCursor {fuel : Nat} (hm : Tracks depth size m p) (hp : p.Takes)
    (hpos : pos ≤ tokens.length) (hsize : tokens.length - pos ≤ size) (hfuel : size < fuel) :
    KeepsCursor m p fuel tokens depth pos := by
  have hanswers : ∀ pos ≤ tokens.length, tokens.length - pos ≤ size →
      m.Answers tokens depth pos (p (tokens.drop pos)) := fun pos hpos hsize =>
    hm tokens pos _ ⟨hpos, rfl⟩ (by rw [List.length_drop]; exact hsize)
  have hsteps : ∀ pos ≤ tokens.length, tokens.length - pos ≤ size → Steps m tokens depth pos :=
    fun pos hpos hsize => (hanswers pos hpos hsize).steps ⟨hpos, rfl⟩ hp
  exact {
    answers := hanswers pos hpos hsize
    steps := hsteps pos hpos hsize
    lists := fun separator required =>
      many_endsBehind separator required hsteps hpos hsize (by omega) .nil }

section Tracked

variable {separator : Separator} {required : Bool} (hm : Tracks depth size m p) (hp : p.Takes)
  (hend : StopsAt p separator [])

include hm hp hend

/-- Behind items that have been read, the loop reads what further items of the list there are. -/
theorem many_more {items : List α} {fuel bound : Nat} (hitems : items ≠ [])
    (h : FrontOf tokens pos s) (hsize : s.length ≤ size) (hfuel : s.length < fuel)
    (hbound : s.length ≤ bound) :
    (many m separator required fuel items).Answers tokens depth pos
      (after items (more p separator bound s)) := by
  induction fuel generalizing pos s items bound with
  | zero => omega
  | succ fuel ih =>
      have hsatisfied : (!required || !items.isEmpty) = true := by simp [hitems]
      cases s with
      | nil =>
          rw [hend bound, after_ok_nil]
          exact ⟨pos, Nat.le_refl _, h, many_at_end h (by simp [hsatisfied])⟩
      | cons t s =>
          obtain ⟨bound, rfl⟩ : ∃ n, bound = n + 1 :=
            ⟨bound - 1, by simp only [List.length_cons] at hbound; omega⟩
          rcases separated_cases separator items.isEmpty depth h with
            ⟨hno, -, hskip⟩ | ⟨mid, s', hyes, hmid, hfront, hskip⟩
          · rw [stopsAt_of_skip?_eq_none hskip, after_ok_nil]
            exact ⟨pos, Nat.le_refl _, h, many_unseparated h hno⟩
          rw [if_neg (by simpa using hitems)] at hskip
          have hlength := h.length_eq
          have hlength' := hfront.length_eq
          obtain ⟨later, hlater, hfront', hanswer⟩ := hm tokens mid s' hfront (by omega)
          cases hitem : p s' with
          | error f =>
              rw [hitem] at hfront' hanswer
              rw [Answers, many_of_error h (by simp) hyes hanswer, more_of_error hskip hitem,
                hsatisfied, Bool.true_and]
              split
              · rw [after_ok_nil]
                exact ⟨pos, Nat.le_refl _, h, rfl⟩
              · exact ⟨later, by omega, hfront', rfl⟩
          | ok x =>
              obtain ⟨a, rest⟩ := x
              rw [hitem] at hfront' hanswer
              have hfront' : FrontOf tokens later rest := hfront'
              have htakes := hp s' a rest hitem
              obtain ⟨last, hlast, hmany⟩ :=
                ih (List.append_ne_nil_of_right_ne_nil items (List.cons_ne_nil a [])) hfront'
                  (by omega) (by omega) (show rest.length ≤ bound by omega)
              rw [Answers, many_of_ok h (by simp) hyes hanswer, more_of_ok hskip hitem, after_after]
              exact ⟨last, by omega, hmany⟩

/-- Behind a first item that is read, the list is read to its end. -/
theorem many_first {a : α} {rest : List Token} {fuel : Nat} (hfuel : size < fuel + 1)
    (h : FrontOf tokens pos s) (hsize : s.length ≤ size)
    (hstart : ((!required || false) && s.isEmpty) = false) (hitem : p s = .ok (a, rest)) :
    (many m separator required (fuel + 1) []).Answers tokens depth pos
      (after [a] (more p separator rest.length rest)) := by
  obtain ⟨later, hlater, hfront, hanswer⟩ := hm tokens pos s h hsize
  rw [hitem] at hfront hanswer
  have hfront : FrontOf tokens later rest := hfront
  have htakes := hp s a rest hitem
  obtain ⟨last, hlast, hmany⟩ := many_more hm hp hend (List.cons_ne_nil a []) hfront
    (by omega) (show rest.length < fuel by omega) (Nat.le_refl _)
  rw [Answers, many_of_ok h hstart (separated_first separator) hanswer]
  exact ⟨last, by omega, hmany⟩

/-- The loop reads a list that must not be empty. -/
theorem Tracks.list₁ {fuel : Nat} (hfuel : size < fuel) :
    Tracks depth size (many m separator true fuel []) (Parser.list₁ p separator) := by
  intro tokens pos s h hsize
  obtain ⟨fuel, rfl⟩ : ∃ n, fuel = n + 1 := ⟨fuel - 1, by omega⟩
  cases hitem : p s with
  | error f =>
      obtain ⟨later, hlater, hfront, hanswer⟩ := hm tokens pos s h hsize
      rw [hitem] at hfront hanswer
      rw [Answers, many_of_error h rfl (separated_first separator) hanswer, Parser.list₁,
        bind_error hitem]
      exact ⟨later, hlater, hfront, rfl⟩
  | ok x =>
      rw [list₁_of_ok hitem]
      exact many_first hm hp hend hfuel h hsize rfl hitem

/-- The loop reads a list that may be empty. -/
theorem Tracks.list₀ {fuel : Nat} (hfuel : size < fuel) :
    Tracks depth size (many m separator false fuel []) (Parser.list₀ p separator) := by
  intro tokens pos s h hsize
  obtain ⟨fuel, rfl⟩ : ∃ n, fuel = n + 1 := ⟨fuel - 1, by omega⟩
  cases s with
  | nil => exact ⟨pos, Nat.le_refl _, h, many_at_end h rfl⟩
  | cons t s =>
      rw [list₀_cons]
      cases hitem : p (t :: s) with
      | error f =>
          obtain ⟨later, hlater, hfront, hanswer⟩ := hm tokens pos (t :: s) h hsize
          rw [hitem] at hfront hanswer
          rw [Answers, many_of_error h rfl (separated_first separator) hanswer,
            show Parser.list₁ p separator (t :: s) = .error f from bind_error hitem]
          simp only [List.isEmpty_nil, Bool.not_false, Bool.true_or, Bool.true_and]
          split
          · exact ⟨pos, Nat.le_refl _, h, rfl⟩
          · exact ⟨later, hlater, hfront, rfl⟩
      | ok x =>
          have hmany : (many m separator false (fuel + 1) []).Answers tokens depth pos
              (after [x.1] (more p separator x.2.length x.2)) :=
            many_first hm hp hend hfuel h hsize rfl hitem
          rw [list₁_of_ok hitem]
          cases hmore : more p separator x.2.length x.2 with
          | ok y =>
              rw [hmore] at hmany
              exact hmany
          | error f =>
              rw [hmore] at hmany
              simp only [after, Except.map, if_neg (not_endsList_of_more hmore)]
              exact hmany

end Tracked

end Loop

end CursorParser

end TableQuery
