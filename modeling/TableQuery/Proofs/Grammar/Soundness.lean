import TableQuery.Proofs.Expr.Height
import TableQuery.Proofs.Grammar.Expression

/-!
# What the parser of expressions takes is an expression

The tokens that an operand parser takes are a chain of atoms whose operators all bind tighter
than the controlling one, and what it returns is the grouping of that chain. The loop carries
the chain taken so far: its next operator binds no tighter than any operator in it, so it
becomes the root of the longer chain.
-/

namespace TableQuery.Grammar

open TableQuery.Parser TableQuery.Expr

/-- A column's name is not followed by a parenthesis, which would make it a call. -/
def Apart (w rest : List Token) : Prop :=
  ∀ t ∈ w.getLast?, t.kind = .identifier → ∀ u ∈ rest.head?, u.kind ≠ .openParenthesis

theorem apart_append {w w' rest : List Token} (hne : w' ≠ []) :
    Apart (w ++ w') rest ↔ Apart w' rest := by
  rw [Apart, List.getLast?_append_of_ne_nil _ hne, Apart]

theorem apart_of_getLast {w rest : List Token} {t : Token} (ht : t.kind ≠ .identifier) :
    Apart (w ++ [t]) rest := by
  intro u hu hk
  simp only [List.getLast?_append_cons, List.getLast?_singleton, Option.mem_def,
    Option.some.injEq] at hu
  exact absurd hk (hu ▸ ht)

/-- No operator that binds tighter than the controlling one comes next. -/
def Stops (control : Option Operator) (rest : List Token) : Prop :=
  ∃ o, frontOperator? rest = .ok o ∧ ∀ op ∈ o, op.bindsTighter control = false

/-- An expression whose parser has computed its height. -/
def SizedExpression (p : Phrase Sized) : Prop :=
  ∃ e : Phrase Expr, (Derives .expression e ∧ e.value.height ≤ maxHeight) ∧
    p = e.map Sized.ofExpr

/-- A chain that an operand parser has taken, in front of the tokens behind it. -/
structure ChainTaken (control : Option Operator) (c : Chain OperatorToken (Phrase Expr))
    (rest : List Token) : Prop where
  /-- The items are atoms. -/
  atoms : ∀ p ∈ c.items, Derives .atom p
  /-- The operators bind tighter than the controlling one. -/
  tighter : ∀ l ∈ c.links, l.1.op.bindsTighter control = true
  /-- The last atom goes no further. -/
  apart : Apart (Phrase.chainTokens OperatorToken.tokens c) rest
  /-- The tree is no higher than the limit. -/
  height_le : c.toExpr.height ≤ maxHeight

/-- The whole chain of an operand. -/
structure OperandChain (control : Option Operator) (c : Chain OperatorToken (Phrase Expr))
    (rest : List Token) : Prop extends ChainTaken control c rest where
  /-- The chain goes no further. -/
  stops : Stops control rest

/-- What a parser of operands takes is the chain of an operand. -/
def OperandSound (nested : OperandParser) : Prop :=
  ∀ control s x rest, nested control s = .ok (x, rest) →
    ∃ c, s = Phrase.chainTokens OperatorToken.tokens c ++ rest ∧ x = Sized.ofExpr c.toExpr ∧
      OperandChain control c rest

theorem sized_eq_ok {e : Expr} {h : Nat} {s rest : List Token} {x : Sized} :
    sized e h s = .ok (x, rest) ↔ h ≤ maxHeight ∧ x = ⟨e, h⟩ ∧ s = rest := by
  unfold sized
  split
  · next hlt => simp [expected, Nat.not_le.mpr hlt]
  · next hle =>
    rw [pure_eq_ok]
    exact ⟨fun h => ⟨by omega, h.1.symm, h.2⟩, fun h => ⟨h.2.1.symm, h.2.2⟩⟩

theorem frontOperator?_cons_eq_ok {t : Token} {op : Operator} {s : List Token} :
    frontOperator? (t :: s) = .ok (some op) ↔ t.operator? = some op := by
  simp only [frontOperator?, Token.operator?]
  split
  · simp
  · split
    · cases Operator.ofSymbol? t.text <;> simp
    · simp

theorem exists_operatorToken {s : List Token} {op : Operator}
    (h : frontOperator? s = .ok (some op)) :
    ∃ (t : OperatorToken) (s' : List Token), s = t.token :: s' ∧ t.op = op := by
  cases s with
  | nil => simp [frontOperator?] at h
  | cons t s => exact ⟨⟨t, op, frontOperator?_cons_eq_ok.mp h⟩, s, rfl, rfl⟩

section Nested

variable {nested : OperandParser} (hnested : OperandSound nested)

include hnested

theorem nested_yields : (nested none).Yields SizedExpression := by
  intro s x rest h
  obtain ⟨c, rfl, rfl, hc⟩ := hnested _ _ _ _ h
  exact ⟨_, rfl, ⟨_, c.toExpr⟩, ⟨.chain hc.atoms, hc.height_le⟩, rfl⟩

theorem branch_yields :
    (branch nested).Yields fun p => ∃ b : Branch,
      (Derives .expression b.condition ∧ Derives .expression b.result) ∧
        p = b.phrase.map fun x => (x, max x.1.height x.2.height) := by
  intro s x rest h
  obtain ⟨k, s₁, hwhen, h⟩ := bind_eq_ok.mp h
  obtain ⟨condition, s₂, hcondition, h⟩ := bind_eq_ok.mp h
  obtain ⟨k', s₃, hthen, h⟩ := bind_eq_ok.mp h
  obtain ⟨result, s₄, hresult, h⟩ := bind_eq_ok.mp h
  obtain ⟨rfl, rfl⟩ := pure_eq_ok.mp h
  obtain ⟨rfl, hk⟩ := keyword_eq_ok.mp hwhen
  obtain ⟨w, rfl, c, ⟨hc, -⟩, hcp⟩ := nested_yields hnested _ _ _ hcondition
  obtain ⟨rfl, hk'⟩ := keyword_eq_ok.mp hthen
  obtain ⟨w', rfl, r, ⟨hr, -⟩, hrp⟩ := nested_yields hnested _ _ _ hresult
  obtain ⟨rfl, rfl⟩ := Phrase.mk.inj hcp
  obtain ⟨rfl, rfl⟩ := Phrase.mk.inj hrp
  exact ⟨k :: c.tokens ++ k' :: r.tokens, by simp, ⟨⟨k, hk⟩, c, ⟨k', hk'⟩, r⟩, ⟨hc, hr⟩, rfl⟩

/-- An expression that a parser of atoms returns, with the tokens that it has taken. -/
def AtomSound (s : List Token) (x : Sized) (rest : List Token) : Prop :=
  ∃ p : Phrase Expr, s = p.tokens ++ rest ∧ (Derives .atom p ∧ Apart p.tokens rest) ∧
    p.value.height ≤ maxHeight ∧ x = Sized.ofExpr p.value

theorem group_sound {o : TokenOf .openParenthesis} {s rest : List Token} {x : Sized}
    (h : group nested s = .ok (x, rest)) : AtomSound (o.1 :: s) x rest := by
  obtain ⟨inner, s₁, hinner, h⟩ := bind_eq_ok.mp h
  obtain ⟨c, s₂, hclose, h⟩ := bind_eq_ok.mp h
  obtain ⟨rfl, rfl⟩ := pure_eq_ok.mp h
  obtain ⟨w, rfl, e, ⟨he, hheight⟩, hep⟩ := nested_yields hnested _ _ _ hinner
  obtain ⟨rfl, hc⟩ := token_eq_ok.mp hclose
  obtain ⟨rfl, rfl⟩ := Phrase.mk.inj hep
  have hc : c.kind = .closeParenthesis := by simpa [Token.isKind] using hc
  exact ⟨_, by simp, ⟨.parentheses o ⟨c, hc⟩ he, apart_of_getLast (by simp [hc])⟩, hheight, rfl⟩

theorem arguments_sound {t : TokenOf .identifier} {o : TokenOf .openParenthesis}
    {s rest : List Token} {x : Sized} (h : arguments nested t.1.name s = .ok (x, rest)) :
    AtomSound (t.1 :: o.1 :: s) x rest := by
  obtain ⟨s', s₁, hget, h⟩ := bind_eq_ok.mp h
  obtain ⟨rfl, rfl⟩ := get_eq_ok.mp hget
  split at h
  · next hcount =>
    obtain ⟨star, s₂, hstar, h⟩ := bind_eq_ok.mp h
    obtain ⟨c, s₃, hclose, h⟩ := bind_eq_ok.mp h
    obtain ⟨rfl, rfl⟩ := pure_eq_ok.mp h
    obtain ⟨rfl, hs⟩ := token_eq_ok.mp hstar
    obtain ⟨rfl, hc⟩ := token_eq_ok.mp hclose
    have hstar : star.kind = .star := by simpa [Token.isKind] using hs
    have hc : c.kind = .closeParenthesis := by simpa [Token.isKind] using hc
    have hname : Text.asciiUpper t.1.name = "COUNT" := by simpa [countsRows, hstar] using hcount
    exact ⟨_, by simp, ⟨.countRows t o ⟨star, hstar⟩ ⟨c, hc⟩ hname,
      apart_of_getLast (w := [t.1, o.1, star]) (by simp [hc])⟩,
      by simp [ofCall, height_call, height, maxHeight], by
        simp [Sized.ofExpr, ofCall, height_call, height]⟩
  · obtain ⟨args, s₂, hargs, h⟩ := bind_eq_ok.mp h
    obtain ⟨c, s₃, hclose, hsized⟩ := bind_eq_ok.mp h
    obtain ⟨w, rfl, hlist⟩ := list₀_yields (nested_yields hnested) _ _ _ _ hargs
    obtain ⟨rfl, hc⟩ := token_eq_ok.mp hclose
    have hc : c.kind = .closeParenthesis := by simpa [Token.isKind] using hc
    rcases hlist with hlist | hlist
    · obtain ⟨rfl, rfl⟩ := Phrase.mk.inj hlist
      obtain ⟨hheight, rfl, rfl⟩ :=
        sized_eq_ok.mp ((congrFun (sized_call _ []) _).symm.trans hsized)
      exact ⟨_, by simp, ⟨.callNothing t o ⟨c, hc⟩,
        apart_of_getLast (w := [t.1, o.1]) (by simp [hc])⟩, hheight, rfl⟩
    · obtain ⟨chain, hchain, hlist⟩ := hlist.exists_map
      rw [Chain.phrase_map] at hlist
      obtain ⟨rfl, rfl⟩ := Phrase.mk.inj hlist
      obtain ⟨hheight, rfl, rfl⟩ := sized_eq_ok.mp ((congrFun (sized_call _ _) _).symm.trans hsized)
      exact ⟨_, by simp, ⟨.call t o ⟨c, hc⟩ fun p hp => (hchain p hp).1,
        apart_of_getLast (by simp [hc])⟩, hheight, rfl⟩

theorem subject_sound {s rest : List Token} {o : Option Sized}
    (h : subject nested s = .ok (o, rest)) :
    ∃ p : Option (Phrase Expr), (∀ e ∈ p, Derives .expression e) ∧
      s = (Phrase.option p).tokens ++ rest ∧ o = (Phrase.option p).value.map Sized.ofExpr := by
  obtain ⟨b, s', hwhen, h⟩ := bind_eq_ok.mp h
  obtain ⟨rfl, rfl⟩ := atKeyword_eq_ok.mp hwhen
  split at h
  · obtain ⟨rfl, rfl⟩ := pure_eq_ok.mp h
    exact ⟨none, by simp, rfl, rfl⟩
  · obtain ⟨e, he, rfl⟩ := map_eq_ok.mp h
    obtain ⟨w, rfl, p, ⟨hp, -⟩, hpe⟩ := nested_yields hnested _ _ _ he
    obtain ⟨rfl, rfl⟩ := Phrase.mk.inj hpe
    exact ⟨some p, by simpa using hp, rfl, rfl⟩

theorem otherwise_sound {s rest : List Token} {o : Option Sized}
    (h : clause "ELSE" (nested none) s = .ok (o, rest)) :
    ∃ p : Option (Keyword "ELSE" × Phrase Expr), (∀ l ∈ p, Derives .expression l.2) ∧
      s = (Phrase.clause p).tokens ++ rest ∧ o = (Phrase.clause p).value.map Sized.ofExpr := by
  rcases clause_eq_ok.mp h with ⟨t, s', e, rfl, ht, he, rfl⟩ | ⟨rfl, rfl, -⟩
  · obtain ⟨w, rfl, p, ⟨hp, -⟩, hpe⟩ := nested_yields hnested _ _ _ he
    obtain ⟨rfl, rfl⟩ := Phrase.mk.inj hpe
    exact ⟨some (⟨t, ht⟩, p), by simpa using hp, rfl, rfl⟩
  · exact ⟨none, by simp, rfl, rfl⟩

theorem choice_sound (start : Keyword "CASE") {s rest : List Token} {x : Sized}
    (h : choice nested s = .ok (x, rest)) : AtomSound (start.1 :: s) x rest := by
  obtain ⟨subject, s₁, hsubject, h⟩ := bind_eq_ok.mp h
  obtain ⟨branches, s₂, hbranches, h⟩ := bind_eq_ok.mp h
  obtain ⟨otherwise, s₃, hotherwise, h⟩ := bind_eq_ok.mp h
  obtain ⟨finish, s₄, hend, hsized⟩ := bind_eq_ok.mp h
  obtain ⟨subject, hsub, rfl, rfl⟩ := subject_sound hnested hsubject
  obtain ⟨otherwise, hoth, rfl, rfl⟩ := otherwise_sound hnested hotherwise
  obtain ⟨w, rfl, hlist⟩ := list₁_yields (branch_yields hnested) _ _ _ _ hbranches
  obtain ⟨chain, hchain, hlist⟩ := hlist.exists_map
  obtain ⟨rfl, hfinish⟩ := keyword_eq_ok.mp hend
  have hmap : (chain.map id fun b => b.phrase.map fun x => (x, max x.1.height x.2.height)).phrase =
      (chain.map id Branch.phrase).phrase.map
        (List.map fun x => (x, max x.1.height x.2.height)) := by
    rw [← Chain.phrase_map]
    simp [Chain.map, Function.comp_def]
  rw [hmap] at hlist
  obtain ⟨rfl, rfl⟩ := Phrase.mk.inj hlist
  obtain ⟨hheight, rfl, rfl⟩ := sized_eq_ok.mp ((congrFun (sized_case _ _ _) _).symm.trans hsized)
  refine ⟨_, by simp, ⟨.case start ⟨finish, hfinish⟩ hsub (fun b hb => (hchain b hb).1)
    (fun b hb => (hchain b hb).2) hoth, apart_of_getLast ?_⟩, hheight, rfl⟩
  simp [(Token.isKeyword_iff.mp hfinish).1]

theorem named_sound {t : TokenOf .identifier} {s rest : List Token} {x : Sized}
    (h : named nested t.1.name s = .ok (x, rest)) : AtomSound (t.1 :: s) x rest := by
  obtain ⟨b, s₁, haccept, hrest⟩ := bind_eq_ok.mp h
  rcases accept_eq_ok.mp haccept with ⟨rfl, o, rfl, ho⟩ | ⟨rfl, rfl, hnone⟩
  · exact arguments_sound hnested (o := ⟨o, by simpa [Token.isKind] using ho⟩) hrest
  · obtain ⟨rfl, rfl⟩ := pure_eq_ok.mp hrest
    refine ⟨_, rfl, ⟨.column t, ?_⟩, by simp [height, maxHeight], by simp [Sized.ofExpr, height]⟩
    intro u _ _ v hv
    simpa [Token.isKind] using hnone v hv

omit hnested in
theorem leaf_sound {t : Token} {e : Expr} {s rest : List Token} {x : Sized}
    (h : (Except.ok (⟨e, 1⟩, s) : Except Failure (Sized × List Token)) = .ok (x, rest))
    (hd : Derives .atom ⟨[t], e⟩) (hkind : t.kind ≠ .identifier) (hheight : e.height = 1) :
    AtomSound (t :: s) x rest := by
  simp only [Except.ok.injEq, Prod.mk.injEq] at h
  obtain ⟨rfl, rfl⟩ := h
  exact ⟨_, rfl, ⟨hd, apart_of_getLast (w := []) hkind⟩, by simp [hheight, maxHeight],
    by simp [Sized.ofExpr, hheight]⟩

theorem atom_sound {s rest : List Token} {x : Sized} (h : atom nested s = .ok (x, rest)) :
    AtomSound s x rest := by
  cases s with
  | nil => simp [atom] at h
  | cons t s =>
      simp only [atom] at h
      split at h
      · next ht => exact group_sound hnested (o := ⟨t, ht⟩) h
      · next ht => exact named_sound hnested (t := ⟨t, ht⟩) h
      · next ht => exact leaf_sound h (.number ⟨t, ht⟩) (by simp [ht]) rfl
      · next ht => exact leaf_sound h (.string ⟨t, ht⟩) (by simp [ht]) rfl
      · next ht =>
        have hword {word : String} (hw : t.text = word) : t.isKeyword word = true :=
          Token.isKeyword_iff.mpr ⟨ht, hw⟩
        split at h
        · next hw => exact leaf_sound h (.bool true ⟨t, hword hw⟩) (by simp [ht]) rfl
        split at h
        · next hw => exact leaf_sound h (.bool false ⟨t, hword hw⟩) (by simp [ht]) rfl
        split at h
        · next hw => exact leaf_sound h (.null ⟨t, hword hw⟩) (by simp [ht]) rfl
        split at h
        · next hw => exact choice_sound hnested ⟨t, hword hw⟩ h
        · cases h
      · cases h

omit hnested in
theorem chainTokens_ne_nil {c : Chain OperatorToken (Phrase Expr)}
    (h : ∀ p ∈ c.items, Derives .atom p) :
    Phrase.chainTokens OperatorToken.tokens c ≠ [] := by
  obtain ⟨t, w, ht, -⟩ := (Derives.chain h).exists_starts
  exact fun hnil => List.cons_ne_nil t w (ht.symm.trans hnil)

omit hnested in
/-- A chain followed by an operator and its right operand is a longer chain. -/
theorem ChainTaken.extend {control : Option Operator} {first : Phrase Expr}
    {before : List (OperatorToken × Phrase Expr)} {s mid : List Token} {t : OperatorToken}
    {c : Chain OperatorToken (Phrase Expr)} (hbefore : ChainTaken control ⟨first, before⟩ s)
    (htight : t.op.bindsTighter control = true) (hc : ChainTaken (some t.op) c mid)
    (hheight : (Chain.toExpr ⟨first, before ++ (t, c.first) :: c.links⟩).height ≤ maxHeight) :
    ChainTaken control ⟨first, before ++ (t, c.first) :: c.links⟩ mid where
  atoms := by
    obtain ⟨hfirst, hlinks⟩ := Chain.forall_mem_items.mp hbefore.atoms
    obtain ⟨hfirst', hlinks'⟩ := Chain.forall_mem_items.mp hc.atoms
    refine Chain.forall_mem_items.mpr ⟨hfirst, ?_⟩
    exact List.forall_mem_append.mpr ⟨hlinks, List.forall_mem_cons.mpr ⟨hfirst', hlinks'⟩⟩
  tighter := by
    refine List.forall_mem_append.mpr ⟨hbefore.tighter, List.forall_mem_cons.mpr ⟨htight, ?_⟩⟩
    exact fun l hl => Operator.bindsTighter_trans (hc.tighter l hl) htight
  apart := by
    have hlast := (apart_append (w := first.tokens ++ Phrase.spell OperatorToken.tokens before ++
      t.tokens) (chainTokens_ne_nil hc.atoms)).mpr hc.apart
    simpa [Phrase.chainTokens] using hlast
  height_le := hheight

/-- An operator that binds no tighter than what stands before it becomes the root. -/
theorem applied_sound {t : OperatorToken} {first : Phrase Expr}
    {before : List (OperatorToken × Phrase Expr)} {s mid : List Token} {x : Sized}
    (hloose : ∀ l ∈ before, t.op.bindsTighter (some l.1.op) = false)
    (h : applied nested t.op (.ofExpr (Chain.toExpr ⟨first, before⟩)) s = .ok (x, mid)) :
    ∃ c, s = Phrase.chainTokens OperatorToken.tokens c ++ mid ∧
      OperandChain (some t.op) c mid ∧
      x = .ofExpr (Chain.toExpr ⟨first, before ++ (t, c.first) :: c.links⟩) ∧
      (Chain.toExpr ⟨first, before ++ (t, c.first) :: c.links⟩).height ≤ maxHeight := by
  obtain ⟨right, mid', hright, hsized⟩ := bind_eq_ok.mp h
  obtain ⟨hheight, rfl, rfl⟩ := sized_eq_ok.mp hsized
  obtain ⟨c, rfl, rfl, hc⟩ := hnested _ _ _ _ hright
  have hroot : Chain.toExpr ⟨first, before ++ (t, c.first) :: c.links⟩ =
      .binary t.op (Chain.toExpr ⟨first, before⟩) c.toExpr :=
    Chain.toExpr_root hloose hc.tighter
  exact ⟨c, rfl, hc, by rw [hroot]; rfl, by rw [hroot]; exact hheight⟩

/-- The loop lengthens a chain whose operators all bind no looser than the next one. -/
theorem operators_sound {control : Option Operator} {first : Phrase Expr} {bound : Nat}
    {before : List (OperatorToken × Phrase Expr)} {s rest : List Token} {x : Sized}
    (hbefore : ChainTaken control ⟨first, before⟩ s)
    (hnext : ∀ op, frontOperator? s = .ok (some op) →
      ∀ l ∈ before, op.bindsTighter (some l.1.op) = false) (hbound : s.length ≤ bound)
    (h : operators nested control bound (.ofExpr (Chain.toExpr ⟨first, before⟩)) s =
      .ok (x, rest)) :
    ∃ links : List (OperatorToken × Phrase Expr),
      s = Phrase.spell OperatorToken.tokens links ++ rest ∧
      x = .ofExpr (Chain.toExpr ⟨first, before ++ links⟩) ∧
      OperandChain control ⟨first, before ++ links⟩ rest := by
  induction bound generalizing s before with
  | zero =>
      obtain rfl : s = [] := List.length_eq_zero_iff.mp (by omega)
      simp only [operators, Except.ok.injEq, Prod.mk.injEq] at h
      obtain ⟨rfl, rfl⟩ := h
      exact ⟨[], rfl, by simp, by simpa using ⟨hbefore, none, rfl, by simp⟩⟩
  | succ bound ih =>
      rw [operators] at h
      split at h
      · cases h
      · next hfront =>
        simp only [Except.ok.injEq, Prod.mk.injEq] at h
        obtain ⟨rfl, rfl⟩ := h
        exact ⟨[], rfl, by simp, by simpa using ⟨hbefore, none, hfront, by simp⟩⟩
      · next op hfront =>
        split at h
        · next hloose =>
          simp only [Except.ok.injEq, Prod.mk.injEq] at h
          obtain ⟨rfl, rfl⟩ := h
          exact ⟨[], rfl, by simp,
            by simpa using ⟨hbefore, some op, hfront, by simpa using hloose⟩⟩
        · next htight =>
          have htight : op.bindsTighter control = true := by simpa using htight
          obtain ⟨t, s', rfl, rfl⟩ := exists_operatorToken hfront
          split at h
          · cases h
          · next left mid happlied =>
            have hloose := hnext t.op hfront
            obtain ⟨c, hs', hc, rfl, hheight⟩ := applied_sound hnested hloose happlied
            simp only [List.drop_one, List.tail_cons] at hs'
            subst hs'
            have hmid : mid.length ≤ bound := by
              simp only [List.length_cons, List.length_append] at hbound
              omega
            have hnext' : ∀ op, frontOperator? mid = .ok (some op) →
                ∀ l ∈ before ++ (t, c.first) :: c.links, op.bindsTighter (some l.1.op) = false := by
              intro op hop
              obtain ⟨o, ho, hstop⟩ := hc.stops
              rw [hop, Except.ok.injEq] at ho
              exact Chain.not_bindsTighter_of_root hloose hc.tighter (hstop op (by simp [← ho]))
            obtain ⟨links, rfl, rfl, hrest⟩ :=
              ih (hbefore.extend htight hc.toChainTaken hheight) hnext' hmid h
            refine ⟨(t, c.first) :: c.links ++ links, ?_, by simp, by simpa using hrest⟩
            simp [Phrase.chainTokens, OperatorToken.tokens]

end Nested

/-- The operand parsers take chains of operands. -/
theorem operand_sound (room : Nat) : OperandSound (operand room) := by
  induction room with
  | zero =>
      intro control s x rest h
      simp [operand, expected] at h
  | succ room ih =>
      intro control s x rest h
      obtain ⟨left, s', hatom, h⟩ := bind_eq_ok.mp h
      obtain ⟨p, rfl, ⟨hp, happart⟩, hheight, rfl⟩ := atom_sound ih hatom
      have hfirst : ChainTaken control ⟨p, []⟩ s' :=
        ⟨by simpa [Chain.items] using hp, by simp, by simpa [Phrase.chainTokens] using happart,
          by simpa using hheight⟩
      obtain ⟨links, rfl, rfl, hc⟩ :=
        operators_sound ih hfirst (by simp) (Nat.le_refl _) (by simpa using h)
      exact ⟨⟨p, links⟩, by simp [Phrase.chainTokens], by simp, by simpa using hc⟩

end TableQuery.Grammar
