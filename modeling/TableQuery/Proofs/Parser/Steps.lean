import TableQuery.Parser

/-!
# Steps of a parser

What the elementary parsers do, in two readings. The equations `…_eq_ok` say what tokens a
parser has taken when it succeeds. `Parser.Reads` says that a parser reads a value off given
tokens, with the nesting limit as the only excuse: an item refused for its nesting never ends a
list, so the refusal goes all the way up.
-/

namespace TableQuery.Parser

variable {α β : Type}

section Successes

theorem bind_eq_ok {p : Parser α} {f : α → Parser β} {s rest : List Token} {b : β} :
    (p >>= f) s = .ok (b, rest) ↔ ∃ a mid, p s = .ok (a, mid) ∧ f a mid = .ok (b, rest) := by
  change (p s >>= fun x => f x.1 x.2) = .ok (b, rest) ↔ _
  cases p s with
  | error f => simp [bind, Except.bind]
  | ok x => exact ⟨fun h => ⟨x.1, x.2, rfl, h⟩, by rintro ⟨a, mid, ⟨⟩, h⟩; exact h⟩

theorem bind_error {p : Parser α} {f : α → Parser β} {s : List Token} {e : Failure}
    (h : p s = .error e) : (p >>= f) s = .error e := by
  change (p s >>= fun x => f x.1 x.2) = _
  rw [h]
  rfl

theorem pure_eq_ok {a b : α} {s rest : List Token} :
    (pure a : Parser α) s = .ok (b, rest) ↔ a = b ∧ s = rest := by
  change Except.ok (a, s) = .ok (b, rest) ↔ _
  simp

theorem map_eq_ok {p : Parser α} {f : α → β} {s rest : List Token} {b : β} :
    (f <$> p) s = .ok (b, rest) ↔ ∃ a, p s = .ok (a, rest) ∧ f a = b := by
  change (p s >>= fun x => .ok (f x.1, x.2)) = .ok (b, rest) ↔ _
  cases p s with
  | error f => simp [bind, Except.bind]
  | ok x =>
      constructor
      · rintro ⟨⟩
        exact ⟨x.1, rfl, rfl⟩
      · rintro ⟨a, ⟨⟩, rfl⟩
        rfl

theorem get_eq_ok {s rest mid : List Token} :
    (get : Parser (List Token)) s = .ok (mid, rest) ↔ s = mid ∧ s = rest := by
  change Except.ok (s, s) = .ok (mid, rest) ↔ _
  simp

theorem token_eq_ok {what : Expectation} {p : Token → Bool} {s rest : List Token} {t : Token} :
    token what p s = .ok (t, rest) ↔ s = t :: rest ∧ p t = true := by
  cases s with
  | nil => simp [token]
  | cons u s =>
      by_cases h : p u = true
      · simp only [token, h, if_true, Except.ok.injEq, Prod.mk.injEq, List.cons.injEq]
        constructor
        · rintro ⟨rfl, rfl⟩
          exact ⟨⟨rfl, rfl⟩, h⟩
        · exact fun h => h.1
      · simp only [token, h, Bool.false_eq_true, if_false, reduceCtorEq, List.cons.injEq,
          false_iff, not_and]
        rintro ⟨rfl, -⟩
        exact h

theorem keyword_eq_ok {word : String} {s rest : List Token} {t : Token} :
    keyword word s = .ok (t, rest) ↔ s = t :: rest ∧ t.isKeyword word = true :=
  token_eq_ok

theorem accept_eq_ok {p : Token → Bool} {s rest : List Token} {b : Bool} :
    accept p s = .ok (b, rest) ↔
      b = true ∧ (∃ t, s = t :: rest ∧ p t = true) ∨
      b = false ∧ s = rest ∧ ∀ t ∈ s.head?, p t = false := by
  cases s with
  | nil => cases b <;> simp [accept]
  | cons u s =>
      by_cases h : p u = true <;> cases b <;> simp [accept, h, and_assoc]

theorem acceptKeyword_eq_ok {word : String} {s rest : List Token} {b : Bool} :
    acceptKeyword word s = .ok (b, rest) ↔
      b = true ∧ (∃ t, s = t :: rest ∧ t.isKeyword word = true) ∨
      b = false ∧ s = rest ∧ ∀ t ∈ s.head?, t.isKeyword word = false :=
  accept_eq_ok

theorem atKeyword_eq_ok {word : String} {s rest : List Token} {b : Bool} :
    atKeyword word s = .ok (b, rest) ↔ s = rest ∧ b = s.head?.any (·.isKeyword word) := by
  cases s with
  | nil => simp [atKeyword, eq_comm, and_comm]
  | cons u s => simp [atKeyword, eq_comm, and_comm]

theorem clause_eq_ok {word : String} {p : Parser α} {s rest : List Token} {o : Option α} :
    clause word p s = .ok (o, rest) ↔
      (∃ t s' a, s = t :: s' ∧ t.isKeyword word = true ∧ p s' = .ok (a, rest) ∧ o = some a) ∨
      o = none ∧ s = rest ∧ ∀ t ∈ s.head?, t.isKeyword word = false := by
  rw [clause, bind_eq_ok]
  constructor
  · rintro ⟨b, mid, hb, h⟩
    rcases acceptKeyword_eq_ok.mp hb with ⟨rfl, t, rfl, ht⟩ | ⟨rfl, rfl, hnone⟩
    · obtain ⟨a, rest', ha, h⟩ := bind_eq_ok.mp h
      obtain ⟨rfl, rfl⟩ := pure_eq_ok.mp h
      exact .inl ⟨t, mid, a, rfl, ht, ha, rfl⟩
    · obtain ⟨rfl, rfl⟩ := pure_eq_ok.mp h
      exact .inr ⟨rfl, rfl, hnone⟩
  · rintro (⟨t, s', a, rfl, ht, ha, rfl⟩ | ⟨rfl, rfl, hnone⟩)
    · exact ⟨true, s', acceptKeyword_eq_ok.mpr (.inl ⟨rfl, t, rfl, ht⟩),
        bind_eq_ok.mpr ⟨a, rest, ha, rfl⟩⟩
    · exact ⟨false, s, acceptKeyword_eq_ok.mpr (.inr ⟨rfl, rfl, hnone⟩), rfl⟩

end Successes

section Reading

/-- The parser reads `a` and leaves `rest`. Only where `fits` fails it may instead refuse the
nesting of an expression. -/
def Reads (p : Parser α) (s : List Token) (a : α) (rest : List Token) (fits : Prop) : Prop :=
  p s = .ok (a, rest) ∨
    ¬fits ∧ ∃ f, p s = .error f ∧ f.refusal = .unexpected .shallowerExpression

namespace Reads

variable {p : Parser α} {s mid rest : List Token} {a : α} {b : β} {fits fits' : Prop}

theorem of_eq (h : p s = .ok (a, rest)) : p.Reads s a rest fits := .inl h

theorem eq_ok (h : p.Reads s a rest fits) (hfits : fits) : p s = .ok (a, rest) :=
  h.resolve_right fun h => h.1 hfits

theorem mono (h : p.Reads s a rest fits) (hfits : fits' → fits) : p.Reads s a rest fits' :=
  h.imp_right fun h => ⟨fun h' => h.1 (hfits h'), h.2⟩

/-- Parsers that do the same read the same. -/
theorem congr {q : Parser α} {s' : List Token} (h : q.Reads s' a rest fits)
    (heq : p s = q s') : p.Reads s a rest fits := by
  rw [Reads, heq]
  exact h

/-- A success can only be the one read. -/
theorem eq_of_ok {a' : α} {rest' : List Token} (h : p.Reads s a rest fits)
    (hok : p s = .ok (a', rest')) : a' = a ∧ rest' = rest := by
  rcases h with h | ⟨-, f, h, -⟩
  · have := hok.symm.trans h
    simp only [Except.ok.injEq, Prod.mk.injEq] at this
    exact this
  · cases hok.symm.trans h

theorem bind {f : α → Parser β} (hp : p.Reads s a mid fits) (hf : (f a).Reads mid b rest fits) :
    (p >>= f).Reads s b rest fits := by
  rcases hp with hp | ⟨hno, e, hp, he⟩
  · have hstep : (p >>= f) s = f a mid := by
      change (p s >>= fun x => f x.1 x.2) = _
      rw [hp]
      rfl
    rcases hf with hf | ⟨hno, e, hf, he⟩
    · exact .inl (hstep.trans hf)
    · exact .inr ⟨hno, e, hstep.trans hf, he⟩
  · exact .inr ⟨hno, e, bind_error hp, he⟩

/-- A step that cannot fail before the rest of a reading. -/
theorem bind_eq {f : α → Parser β} (hp : p s = .ok (a, mid))
    (hf : (f a).Reads mid b rest fits) : (p >>= f).Reads s b rest fits :=
  (of_eq hp).bind hf

theorem map {f : α → β} (hp : p.Reads s a rest fits) : (f <$> p).Reads s (f a) rest fits :=
  bind (f := fun a => pure (f a)) hp (of_eq rfl)

end Reads

variable {s rest : List Token} {t : Token} {word : String} {fits : Prop}

theorem token_cons {what : Expectation} {p : Token → Bool} (h : p t = true) :
    token what p (t :: s) = .ok (t, s) :=
  token_eq_ok.mpr ⟨rfl, h⟩

theorem token_error {what : Expectation} {p : Token → Bool} (h : ∀ t ∈ s.head?, p t = false) :
    token what p s = .error ⟨.unexpected what, s⟩ := by
  cases s with
  | nil => rfl
  | cons t s => simp [token, h t rfl]

theorem keyword_cons (h : t.isKeyword word = true) : keyword word (t :: s) = .ok (t, s) :=
  token_cons h

theorem accept_cons {p : Token → Bool} (h : p t = true) : accept p (t :: s) = .ok (true, s) :=
  accept_eq_ok.mpr (.inl ⟨rfl, t, rfl, h⟩)

theorem accept_of_forall {p : Token → Bool} (h : ∀ t ∈ s.head?, p t = false) :
    accept p s = .ok (false, s) :=
  accept_eq_ok.mpr (.inr ⟨rfl, rfl, h⟩)

theorem clause_reads {p : Parser α} {a : α} (ht : t.isKeyword word = true)
    (hp : p.Reads s a rest fits) : (clause word p).Reads (t :: s) (some a) rest fits :=
  .bind_eq (accept_cons ht) (hp.bind (.of_eq rfl))

theorem clause_absent {p : Parser α} (h : ∀ t ∈ s.head?, t.isKeyword word = false) :
    clause word p s = .ok (none, s) :=
  clause_eq_ok.mpr (.inr ⟨rfl, rfl, h⟩)

end Reading

end TableQuery.Parser
