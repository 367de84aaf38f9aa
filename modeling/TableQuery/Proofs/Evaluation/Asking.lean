import Mathlib.Data.Finset.Card
import TableQuery.Proofs.Evaluation.Transparency

/-!
# The patterns that evaluations ask for

Which patterns an evaluation asks for follows from the values of its operands: those of the LIKE
operators it comes to, in order. Each is read the first time it is asked for, so the patterns known
after some evaluations are the ones these asked for, each once. Every pattern compiles here.
-/

namespace TableQuery

namespace Patterns

/-- The patterns known after some texts have been read as patterns. -/
def read (known : Patterns) (texts : List String) : Patterns :=
  texts.foldl (fun known s => known.insert s (Pattern.ofText s)) known

theorem read_append (known : Patterns) (first later : List String) :
    known.read (first ++ later) = (known.read first).read later :=
  List.foldl_append

/-- A match reads its pattern, unless that is known. -/
theorem Sound.isMatch_eq_read {known : Patterns} (h : known.Sound) (pattern text : String) :
    (Patterns.isMatch pattern text known).2 = known.read [pattern] := by
  cases hget : known.get? pattern with
  | some p =>
      obtain rfl : p = Pattern.ofText pattern := (h _ _ hget).1
      simp only [Patterns.isMatch, hget]
      exact (OrderedMap.insert_eq_self hget).symm
  | none =>
      simp only [Patterns.isMatch, hget]
      rfl

/-- Each text is known once, in the order in which the texts first came. -/
theorem keys_read (texts : List String) : (read ∅ texts).keys = texts.eraseDups := by
  have hread : read ∅ texts = .ofList (texts.map fun s => (s, Pattern.ofText s)) := by
    rw [read, OrderedMap.ofList, List.foldl_map]
  rw [hread, OrderedMap.keys_ofList, List.map_map]
  exact congrArg List.eraseDups (List.map_id texts)

/-- As many patterns are known as there are different texts. -/
theorem size_read (texts : List String) : (read ∅ texts).size = texts.toFinset.card := by
  have hsame : texts.toFinset = texts.eraseDups.toFinset := by
    ext s
    rw [List.mem_toFinset, List.mem_toFinset, List.mem_eraseDups]
  calc (read ∅ texts).size = (read ∅ texts).keys.length := (List.length_map _).symm
    _ = texts.eraseDups.length := by rw [keys_read]
    _ = texts.toFinset.card := by rw [hsame, List.toFinset_card_of_nodup (nodup_eraseDups texts)]

end Patterns

namespace Evaluation

variable {α β : Type} {m : Evaluation α} {f : α → Evaluation β}

/-- What is asked for in turn: by a first evaluation and, if that has an answer, by what follows. -/
def inTurn (first : List String) (answer : Except Error α) (later : α → List String) :
    List String :=
  first ++ match answer with
    | .ok a => later a
    | .error _ => []

/-- Whatever sound patterns are known, the evaluation reads just these texts as patterns. -/
def Asks (m : Evaluation α) (texts : List String) : Prop :=
  ∀ known : Patterns, known.Sound → (m known).2 = known.read texts

namespace Asks

theorem pure (a : α) : Asks (pure a : Evaluation α) [] := fun _ _ => rfl

theorem ofOption (e : Error) (o : Option α) : Asks (.ofOption e o) [] := by
  cases o with
  | none => exact fun _ _ => rfl
  | some a => exact fun _ _ => rfl

theorem bind {first : List String} {later : α → List String} (htransparent : m.Transparent)
    (hm : m.Asks first) (hf : ∀ a, (f a).Asks (later a)) :
    (m >>= f).Asks (inTurn first m.value later) := by
  intro known hknown
  obtain ⟨hanswer, hsound⟩ := htransparent known hknown
  cases h : m.value with
  | error e =>
      rw [bind_of_error (hanswer.trans h), inTurn, List.append_nil]
      exact hm known hknown
  | ok a =>
      rw [bind_of_ok (hanswer.trans h), hf a _ hsound, hm known hknown, inTurn,
        Patterns.read_append]

/-- What follows an evaluation without asking for anything adds nothing. -/
theorem bind_nothing {texts : List String} (htransparent : m.Transparent) (hm : m.Asks texts)
    (hf : ∀ a, (f a).Asks []) : (m >>= f).Asks texts := by
  have hbind := bind htransparent hm hf
  have hnone : inTurn texts m.value (fun _ => []) = texts := by
    cases h : m.value <;> simp [inTurn]
  rwa [hnone] at hbind

theorem map {texts : List String} (htransparent : m.Transparent) (hm : m.Asks texts)
    (g : α → β) : (g <$> m).Asks texts := by
  rw [map_eq_bind]
  exact hm.bind_nothing htransparent fun a => .pure (g a)

theorem like (pattern text : String) : Asks (.ofMatch (Patterns.isMatch pattern text)) [pattern] :=
  fun _ hknown => hknown.isMatch_eq_read pattern text

end Asks

end Evaluation

/-- The patterns that an operator asks for: LIKE for its right operand as a text. -/
def Operator.asked (op : Operator) (right : Value) : List String :=
  if op = like then [right.toText] else []

theorem Operator.asks_apply (op : Operator) (left right : Value) :
    (op.apply left right).Asks (op.asked right) := by
  cases op with
  | like =>
      rw [apply_like]
      exact .like _ _
  | _ => exact .pure _

namespace Expr

open Evaluation

mutual

/-- The right operands, as texts, of the LIKE operators that are evaluated with an expression on a
row. What follows a failure is not evaluated, nor are the branches that are not taken. -/
def asked (row : Row) : Expr → List String
  | call _ args => askedAll row args
  | binary op left right =>
    inTurn (left.asked row) (left.value row) fun _ =>
      inTurn (right.asked row) (right.value row) fun w => op.asked w
  | case subject branches otherwise =>
    inTurn (askedOption row subject) (evalOption row subject).value fun subject =>
      inTurn (askedBranches row subject branches) (evalBranches row subject branches).value fun
        | some _ => []
        | none => askedOption row otherwise
  | _ => []
termination_by structural e => e

/-- The same for expressions that are evaluated from left to right. -/
def askedAll (row : Row) : List Expr → List String
  | [] => []
  | e :: rest => inTurn (e.asked row) (e.value row) fun _ => askedAll row rest
termination_by structural l => l

/-- The same for branches, up to the result of the first one that is taken. -/
def askedBranches (row : Row) (subject : Option Value) : List (Expr × Expr) → List String
  | [] => []
  | (condition, result) :: rest =>
    inTurn (condition.asked row) (condition.value row) fun v =>
      if isTaken subject v then result.asked row else askedBranches row subject rest
termination_by structural l => l

/-- The same for an expression that may be missing. -/
def askedOption (row : Row) : Option Expr → List String
  | none => []
  | some e => e.asked row
termination_by structural o => o

end

mutual

theorem asks_eval (row : Row) : ∀ e : Expr, (e.eval row).Asks (e.asked row)
  | null | bool _ | number _ _ | string _ | star => .pure _
  | identifier _ => .ofOption _ _
  | call _ args =>
    (asks_evalAll row args).bind_nothing (transparent_evalAll row args) fun _ => .ofOption _ _
  | aggregate .. => .ofOption _ _
  | binary op left right =>
    (asks_eval row left).bind (transparent_eval row left) fun v =>
      (asks_eval row right).bind (transparent_eval row right) fun w => op.asks_apply v w
  | case subject branches otherwise => by
    apply (asks_evalOption row subject).bind (transparent_evalOption row subject)
    intro v
    apply (asks_evalBranches row v branches).bind (transparent_evalBranches row v branches)
    intro taken
    cases taken with
    | some w => exact .pure w
    | none =>
        exact (asks_evalOption row otherwise).bind_nothing (transparent_evalOption row otherwise)
          fun w => .pure (w.getD .null)

theorem asks_evalAll (row : Row) : ∀ l : List Expr, (evalAll row l).Asks (askedAll row l)
  | [] => .pure _
  | e :: rest =>
    (asks_eval row e).bind (transparent_eval row e) fun v =>
      (asks_evalAll row rest).bind_nothing (transparent_evalAll row rest)
        fun values => .pure (v :: values)

theorem asks_evalBranches (row : Row) (subject : Option Value) :
    ∀ l : List (Expr × Expr), (evalBranches row subject l).Asks (askedBranches row subject l)
  | [] => .pure _
  | (condition, result) :: rest => by
    apply (asks_eval row condition).bind (transparent_eval row condition)
    intro v
    by_cases h : isTaken subject v
    · rw [if_pos h, if_pos h]
      exact (asks_eval row result).map (transparent_eval row result) some
    · rw [if_neg h, if_neg h]
      exact asks_evalBranches row subject rest

theorem asks_evalOption (row : Row) :
    ∀ o : Option Expr, (evalOption row o).Asks (askedOption row o)
  | none => .pure _
  | some e => (asks_eval row e).map (transparent_eval row e) some

end

end Expr

namespace Patterns

/-- The patterns known after expressions have been evaluated, one after another and each on its own
row; also those that failed. -/
def evaluated (earlier : List (Row × Expr)) : Patterns :=
  earlier.foldl (fun known (row, e) => (e.eval row known).2) ∅

/-- After any evaluations the known patterns are those that these have asked for. -/
theorem evaluated_spec (earlier : List (Row × Expr)) : (evaluated earlier).Sound ∧
    evaluated earlier = read ∅ (earlier.flatMap fun (row, e) => e.asked row) := by
  induction earlier using List.reverseRecOn with
  | nil => exact ⟨sound_empty, rfl⟩
  | append_singleton earlier last ih =>
      obtain ⟨hsound, hread⟩ := ih
      obtain ⟨row, e⟩ := last
      have hlast : evaluated (earlier ++ [(row, e)]) = (e.eval row (evaluated earlier)).2 :=
        List.foldl_append
      rw [hlast]
      refine ⟨(e.transparent_eval row _ hsound).2, ?_⟩
      rw [List.flatMap_append, List.flatMap_singleton, read_append, ← hread]
      exact e.asks_eval row _ hsound

end Patterns

end TableQuery
