import TableQuery.Evaluation
import TableQuery.Proofs.OrderedMap

/-! # Remembered patterns change no answer

Evaluations share the patterns read so far. As long as every pattern stands under the text it was
read from, an evaluation answers as if none had been read, and leaves such patterns behind. -/

namespace TableQuery

namespace Evaluation

variable {α β : Type}

theorem bind_of_ok {m : Evaluation α} {f : α → Evaluation β} {known : Patterns} {a : α}
    (h : (m known).1 = .ok a) : (m >>= f) known = f a (m known).2 := by
  change ExceptT.bindCont f (m known).1 (m known).2 = _
  rw [h]
  rfl

theorem bind_of_error {m : Evaluation α} {f : α → Evaluation β} {known : Patterns} {e : Error}
    (h : (m known).1 = .error e) : (m >>= f) known = (.error e, (m known).2) := by
  change ExceptT.bindCont f (m known).1 (m known).2 = _
  rw [h]
  rfl

theorem bind_eq_ok {m : Evaluation α} {f : α → Evaluation β} {known later : Patterns} {b : β} :
    (m >>= f) known = (.ok b, later) ↔
      ∃ a mid, m known = (.ok a, mid) ∧ f a mid = (.ok b, later) := by
  constructor
  · intro h
    cases hfirst : (m known).1 with
    | error e =>
        rw [bind_of_error hfirst] at h
        cases h
    | ok a =>
        rw [bind_of_ok hfirst] at h
        exact ⟨a, (m known).2, Prod.ext hfirst rfl, h⟩
  · rintro ⟨a, mid, hm, hf⟩
    rw [bind_of_ok (congrArg Prod.fst hm), hm]
    exact hf

theorem map_eq_bind (g : α → β) (m : Evaluation α) :
    g <$> m = m >>= fun a => (Pure.pure (g a) : Evaluation β) :=
  map_eq_pure_bind g m

end Evaluation

/-- Where no pattern is refused, LIKE is a match. -/
theorem Operator.apply_like (left right : Value) :
    like.apply left right = .ofMatch (Patterns.isMatch right.toText left.toText) := by
  funext known
  have hcheck : Patterns.check right.toText known = .ok () := ite_self _
  exact Evaluation.bind_of_ok hcheck

variable [PatternEngine]

/-- Every pattern stands under the text it was read from, and that is not refused. -/
def Patterns.Sound (known : Patterns) : Prop :=
  ∀ s p, known.get? s = some p → p = Pattern.ofText s ∧ Pattern.check s = .ok ()

theorem Patterns.sound_empty : Patterns.Sound ∅ := by
  intro s p h
  simp at h

/-- A pattern that is known was not refused when it was read. -/
theorem Patterns.Sound.check {known : Patterns} (h : known.Sound) (pattern : String) :
    Patterns.check pattern known = Pattern.check pattern := by
  rw [Patterns.check]
  cases hget : known.get? pattern with
  | some p => exact (h _ _ hget).2.symm
  | none => rfl

/-- A match answers by the pattern that the text denotes, and a pattern that is read for it is put
under that text. -/
theorem Patterns.Sound.isMatch {known : Patterns} {pattern : String} (h : known.Sound)
    (hcheck : Pattern.check pattern = .ok ()) (text : String) :
    (Patterns.isMatch pattern text known).1 = (Pattern.ofText pattern).isMatch text ∧
      Patterns.Sound (Patterns.isMatch pattern text known).2 := by
  cases hget : known.get? pattern with
  | some p =>
      obtain rfl : p = Pattern.ofText pattern := (h _ _ hget).1
      simp only [Patterns.isMatch, hget]
      exact ⟨trivial, h⟩
  | none =>
      simp only [Patterns.isMatch, hget]
      refine ⟨trivial, fun s p hs => ?_⟩
      rw [OrderedMap.get?_insert] at hs
      split at hs
      · next heq =>
        subst heq
        exact ⟨(Option.some.inj hs).symm, hcheck⟩
      · exact h s p hs

namespace Evaluation

variable {α β : Type}

/-- The answer of an evaluation before any pattern is read. -/
def value (m : Evaluation α) : Except Error α := (m ∅).1

/-- The evaluation answers alike whatever sound patterns are known, and keeps them sound. -/
def Transparent (m : Evaluation α) : Prop :=
  ∀ known : Patterns, known.Sound → (m known).1 = m.value ∧ Patterns.Sound (m known).2

theorem Transparent.pure (a : α) : Transparent (pure a : Evaluation α) :=
  fun _ hknown => ⟨rfl, hknown⟩

theorem Transparent.ofOption (e : Error) (o : Option α) : Transparent (.ofOption e o) := by
  cases o with
  | none => exact fun _ hknown => ⟨rfl, hknown⟩
  | some a => exact fun _ hknown => ⟨rfl, hknown⟩

/-- In sequence, the later evaluation starts from what the earlier one leaves behind. -/
theorem Transparent.value_bind {m : Evaluation α} (f : α → Evaluation β) (hm : m.Transparent)
    (hf : ∀ a, (f a).Transparent) :
    (m >>= f).value = m.value >>= fun a => (f a).value := by
  have hsound := (hm ∅ Patterns.sound_empty).2
  cases h : m.value with
  | error e => exact congrArg Prod.fst (bind_of_error h)
  | ok a =>
      calc (m >>= f).value = (f a (m ∅).2).1 := congrArg Prod.fst (bind_of_ok h)
        _ = (f a).value := (hf a _ hsound).1

theorem Transparent.bind {m : Evaluation α} {f : α → Evaluation β} (hm : m.Transparent)
    (hf : ∀ a, (f a).Transparent) : (m >>= f).Transparent := by
  intro known hknown
  obtain ⟨hanswer, hsound⟩ := hm known hknown
  rw [hm.value_bind f hf]
  cases h : m.value with
  | error e =>
      rw [bind_of_error (hanswer.trans h)]
      exact ⟨rfl, hsound⟩
  | ok a =>
      rw [bind_of_ok (hanswer.trans h)]
      exact hf a _ hsound

theorem Transparent.map {m : Evaluation α} (g : α → β) (hm : m.Transparent) :
    (g <$> m).Transparent := by
  rw [map_eq_bind]
  exact hm.bind fun a => .pure (g a)

/-- A pattern that has been read is the one that its text denotes, so it matches alike. -/
theorem Transparent.like (pattern text : String) :
    Transparent (ofCheck (Patterns.check pattern) >>= fun _ =>
      ofMatch (Patterns.isMatch pattern text)) := by
  intro known hknown
  have hempty := Patterns.sound_empty.check pattern
  cases hcheck : Pattern.check pattern with
  | error e =>
      rw [value, bind_of_error ((hknown.check pattern).trans hcheck),
        bind_of_error (hempty.trans hcheck)]
      exact ⟨rfl, hknown⟩
  | ok _ =>
      rw [value, bind_of_ok ((hknown.check pattern).trans hcheck),
        bind_of_ok (hempty.trans hcheck)]
      obtain ⟨hanswer, hsound⟩ := hknown.isMatch hcheck text
      exact ⟨congrArg (fun holds => Except.ok (Value.bool holds)) hanswer, hsound⟩

end Evaluation

theorem Operator.transparent_apply (op : Operator) (left right : Value) :
    (op.apply left right).Transparent := by
  cases op with
  | like => exact .like _ _
  | _ => exact .pure _

namespace Expr

open Evaluation

mutual

theorem transparent_eval (row : Row) : ∀ e : Expr, (e.eval row).Transparent
  | null | bool _ | number _ _ | string _ | star => .pure _
  | identifier _ => .ofOption _ _
  | call _ args => (transparent_evalAll row args).bind fun _ => .ofOption _ _
  | aggregate .. => .ofOption _ _
  | binary op left right =>
    (transparent_eval row left).bind fun v =>
      (transparent_eval row right).bind fun w => op.transparent_apply v w
  | case subject branches otherwise => by
    apply (transparent_evalOption row subject).bind
    intro v
    apply (transparent_evalBranches row v branches).bind
    intro taken
    cases taken with
    | some w => exact .pure w
    | none => exact (transparent_evalOption row otherwise).bind fun w => .pure (w.getD .null)

theorem transparent_evalAll (row : Row) : ∀ l : List Expr, (evalAll row l).Transparent
  | [] => .pure _
  | e :: rest =>
    (transparent_eval row e).bind fun v =>
      (transparent_evalAll row rest).bind fun values => .pure (v :: values)

theorem transparent_evalBranches (row : Row) (subject : Option Value) :
    ∀ l : List (Expr × Expr), (evalBranches row subject l).Transparent
  | [] => .pure _
  | (condition, result) :: rest => by
    apply (transparent_eval row condition).bind
    intro v
    by_cases h : isTaken subject v
    · rw [if_pos h]
      exact (transparent_eval row result).map some
    · rw [if_neg h]
      exact transparent_evalBranches row subject rest

theorem transparent_evalOption (row : Row) : ∀ o : Option Expr, (evalOption row o).Transparent
  | none => .pure _
  | some e => (transparent_eval row e).map some

end

/-- The value of an expression on a row, whatever has been evaluated before. -/
def value (row : Row) (e : Expr) : Except Error Value := (e.eval row).value

theorem value_evalAll (row : Row) (l : List Expr) :
    (evalAll row l).value = l.mapM (value row) := by
  induction l with
  | nil => rfl
  | cons e rest ih =>
      have hrest := fun v => transparent_evalAll row rest |>.value_bind
        (fun values => (pure (v :: values) : Evaluation _)) fun _ => .pure _
      calc (evalAll row (e :: rest)).value
          = (e.eval row).value >>= fun v =>
              (evalAll row rest >>= fun values => (pure (v :: values) : Evaluation _)).value :=
            (transparent_eval row e).value_bind _ fun v =>
              (transparent_evalAll row rest).bind fun values => .pure (v :: values)
        _ = (e :: rest).mapM (value row) := by
            simp only [hrest, ih, List.mapM_cons]
            rfl

end Expr

end TableQuery
