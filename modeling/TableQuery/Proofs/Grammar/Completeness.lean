import Mathlib.Data.List.TakeWhile
import TableQuery.Proofs.Grammar.Soundness

/-!
# Every expression is accepted, up to the nesting limit

In front of a token that cannot go on, the parser reads every phrase of the grammar with the
value that it denotes, or refuses its nesting. There is one lemma for each rule of the grammar.
Each says how much room the parser needs, so that a phrase as long as the limit always fits.
-/

namespace TableQuery

namespace OperatorTree

theorem height_le_of_mem_items {t : OperatorTree Expr} {e : Expr} (h : e ∈ t.inorder.items) :
    e.height ≤ t.toExpr.height := by
  induction t with
  | leaf a =>
      obtain rfl : e = a := by simpa [inorder, Chain.items] using h
      exact Nat.le_refl _
  | node op left right ihl ihr =>
      rw [items_inorder_node, List.mem_append] at h
      simp only [toExpr, Expr.height]
      rcases h with h | h
      · have := ihl h
        omega
      · have := ihr h
        omega

/-- Every operator adds at most one to the height. -/
theorem height_toExpr_le {t : OperatorTree Expr} {n : Nat}
    (h : ∀ e ∈ t.inorder.items, e.height ≤ n) :
    t.toExpr.height ≤ n + t.inorder.links.length := by
  induction t with
  | leaf a => exact h a List.mem_cons_self
  | node op left right ihl ihr =>
      rw [items_inorder_node, List.forall_mem_append] at h
      have hleft := ihl h.1
      have hright := ihr h.2
      simp only [toExpr, Expr.height, inorder, List.length_append, List.length_cons]
      omega

end OperatorTree

namespace Chain

variable {c : Chain OperatorToken (Phrase Expr)}

theorem height_le_of_mem {p : Phrase Expr} (h : p ∈ c.items) :
    p.value.height ≤ c.toExpr.height := by
  refine OperatorTree.height_le_of_mem_items ?_
  rw [inorder_arrange, items_map]
  exact List.mem_map_of_mem h

theorem height_toExpr_le {n : Nat} (h : ∀ p ∈ c.items, p.value.height ≤ n) :
    c.toExpr.height ≤ n + c.links.length := by
  have hitems : ∀ e ∈ (c.map OperatorToken.op Phrase.value).arrange.inorder.items,
      e.height ≤ n := by
    rw [inorder_arrange, items_map]
    exact List.forall_mem_map.mpr h
  have hheight := OperatorTree.height_toExpr_le hitems
  rw [inorder_arrange] at hheight
  simpa only [toExpr, map, List.length_map] using hheight

end Chain

namespace Grammar

open TableQuery.Parser TableQuery.Expr

variable {first p : Phrase Expr} {t : OperatorToken} {control : Option Operator}
  {before inner outer links : List (OperatorToken × Phrase Expr)} {rest : List Token} {n : Nat}

/-- The next operator binds no tighter than any operator before it. -/
def Loose (before links : List (OperatorToken × Phrase Expr)) : Prop :=
  ∀ l ∈ links.head?, ∀ l' ∈ before, l.1.op.bindsTighter (some l'.1.op) = false

/-- The operators that bind tighter than the one in front of them make its right operand. -/
theorem exists_right_operand (op : Operator) (links : List (OperatorToken × Phrase Expr)) :
    ∃ inner outer, links = inner ++ outer ∧
      (∀ l ∈ inner, l.1.op.bindsTighter (some op) = true) ∧
      ∀ l ∈ outer.head?, l.1.op.bindsTighter (some op) = false := by
  refine ⟨links.takeWhile fun l => l.1.op.bindsTighter (some op),
    links.dropWhile fun l => l.1.op.bindsTighter (some op),
    List.takeWhile_append_dropWhile.symm, ?_, ?_⟩ <;> intro l hl
  · simpa using List.mem_takeWhile_imp hl
  · have hnot := List.head?_dropWhile_not (fun l => l.1.op.bindsTighter (some op)) links
    rw [Option.mem_def.mp hl] at hnot
    simpa using hnot

theorem Loose.extend (hloose : Loose before ((t, p) :: inner ++ outer))
    (hinner : ∀ l ∈ inner, l.1.op.bindsTighter (some t.op) = true)
    (houter : ∀ l ∈ outer.head?, l.1.op.bindsTighter (some t.op) = false) :
    Loose (before ++ (t, p) :: inner) outer := fun l hl =>
  Chain.not_bindsTighter_of_root (hloose (t, p) (by simp)) hinner (houter l hl)

/-- A chain is as high as the part of it before a loose operator. -/
theorem height_le_of_loose (first : Phrase Expr) (hloose : Loose before links) :
    (Chain.toExpr ⟨first, before⟩).height ≤ (Chain.toExpr ⟨first, before ++ links⟩).height := by
  induction hn : links.length using Nat.strongRecOn generalizing before links with
  | ind n ih =>
      cases links with
      | nil => simp
      | cons l links =>
          obtain ⟨t, p⟩ := l
          obtain ⟨inner, outer, rfl, hinner, houter⟩ := exists_right_operand t.op links
          have hroot : (Chain.toExpr ⟨first, before⟩).height ≤
              (Chain.toExpr ⟨first, before ++ (t, p) :: inner⟩).height := by
            rw [Chain.toExpr_root (hloose (t, p) (by simp)) hinner, height]
            omega
          have hlength : outer.length < n := by
            simp only [← hn, List.length_cons, List.length_append]
            omega
          have hrest := ih _ hlength (hloose.extend hinner houter) rfl
          refine hroot.trans ?_
          simpa using hrest

section Operands

/-- The parser of atoms reads the phrase when it has room for `n` levels of nesting. -/
structure AcceptsAtom (n : Nat) (p : Phrase Expr) : Prop where
  /-- The phrase takes a token. -/
  ne_nil : p.tokens ≠ []
  /-- It is read wherever its last token goes no further. -/
  reads : ∀ room rest, Apart p.tokens rest →
    (atom (operand room)).Reads (p.tokens ++ rest) (.ofExpr p.value) rest
      (n ≤ room ∧ p.value.height ≤ maxHeight)

theorem AcceptsAtom.mono {n' : Nat} (h : AcceptsAtom n p) (hn : n ≤ n') : AcceptsAtom n' p :=
  ⟨h.ne_nil, fun room rest hrest => (h.reads room rest hrest).mono fun h => ⟨by omega, h.2⟩⟩

/-- An operator keeps a phrase apart from what follows. -/
theorem apart_spell {w : List Token} (h : links = [] → Apart w rest) :
    Apart w (Phrase.spell OperatorToken.tokens links ++ rest) := by
  cases links with
  | nil => exact h rfl
  | cons l links =>
      intro _ _ _ v hv
      obtain rfl : l.1.token = v := by simpa [OperatorToken.tokens] using hv
      exact l.1.kind_ne_openParenthesis

/-- The right operand of an operator ends in front of the first operator that does not bind
tighter. -/
theorem stops_spell {op : Operator} (htight : op.bindsTighter control = true)
    (houter : ∀ l ∈ outer.head?, l.1.op.bindsTighter (some op) = false)
    (hrest : Stops control rest) :
    Stops (some op) (Phrase.spell OperatorToken.tokens outer ++ rest) := by
  cases outer with
  | nil =>
      obtain ⟨o, ho, hstop⟩ := hrest
      refine ⟨o, ho, fun op' hop' => ?_⟩
      have hnot := hstop op' hop'
      rw [Bool.eq_false_iff] at hnot ⊢
      exact fun htight' => hnot (Operator.bindsTighter_trans htight' htight)
  | cons l outer =>
      refine ⟨some l.1.op, frontOperator?_cons_eq_ok.mpr l.1.denotes, ?_⟩
      simpa using houter

/-- An operand reads a chain of atoms when it has room for each behind the others. -/
def ReadsChains (n room : Nat) : Prop :=
  ∀ (control : Option Operator) (c : Chain OperatorToken (Phrase Expr)) (rest : List Token),
    (∀ p ∈ c.items, AcceptsAtom n p) →
    (∀ l ∈ c.links, l.1.op.bindsTighter control = true) →
    Apart (Phrase.chainTokens OperatorToken.tokens c) rest → Stops control rest →
    (operand room control).Reads (Phrase.chainTokens OperatorToken.tokens c ++ rest)
      (.ofExpr c.toExpr) rest (n + c.links.length < room ∧ c.toExpr.height ≤ maxHeight)

theorem sized_reads {e : Expr} {s : List Token} {fits : Prop} (h : fits → e.height ≤ maxHeight) :
    (sized e e.height).Reads s (.ofExpr e) s fits := by
  by_cases hheight : e.height ≤ maxHeight
  · exact .of_eq (sized_eq_ok.mpr ⟨hheight, rfl, rfl⟩)
  · refine .inr ⟨fun hfits => hheight (h hfits), ⟨.unexpected .shallowerExpression, s⟩, ?_, rfl⟩
    simp [sized, Nat.not_le.mp hheight, expected]

/-- An operator reads its right operand, a chain of tighter operators. -/
theorem applied_reads {room : Nat} (first : Phrase Expr) (hroom : ReadsChains n room)
    (hloose : ∀ l ∈ before, t.op.bindsTighter (some l.1.op) = false)
    (hinner : ∀ l ∈ inner, l.1.op.bindsTighter (some t.op) = true)
    (hp : AcceptsAtom n p) (hatoms : ∀ l ∈ inner, AcceptsAtom n l.2)
    (hapart : Apart (Phrase.chainTokens OperatorToken.tokens ⟨p, inner⟩) rest)
    (hstop : Stops (some t.op) rest) :
    (applied (operand room) t.op (.ofExpr (Chain.toExpr ⟨first, before⟩))).Reads
      (Phrase.chainTokens OperatorToken.tokens ⟨p, inner⟩ ++ rest)
      (.ofExpr (Chain.toExpr ⟨first, before ++ (t, p) :: inner⟩)) rest
      (n + inner.length < room ∧
        (Chain.toExpr ⟨first, before ++ (t, p) :: inner⟩).height ≤ maxHeight) := by
  rw [Chain.toExpr_root hloose hinner]
  have hright := hroom (some t.op) ⟨p, inner⟩ rest (Chain.forall_mem_items.mpr ⟨hp, hatoms⟩)
    hinner hapart hstop
  refine (hright.mono fun h => ⟨h.1, ?_⟩).bind (sized_reads fun h => h.2)
  have := h.2
  simp only [height] at this
  omega

theorem operators_cons {room bound : Nat} {left : Sized} {s : List Token}
    (htight : t.op.bindsTighter control = true) :
    operators (operand room) control (bound + 1) left (t.token :: s) =
      (applied (operand room) t.op left >>= operators (operand room) control bound) s := by
  rw [operators, frontOperator?_cons_eq_ok.mpr t.denotes]
  simp only [htight, Bool.not_true, Bool.false_eq_true, if_false, List.drop_one, List.tail_cons]
  change _ = (applied (operand room) t.op left s >>= fun x => _)
  cases applied (operand room) t.op left s <;> rfl

/-- The loop over operators reads all of them that bind tighter than the controlling one. -/
theorem operators_reads {room : Nat} (first : Phrase Expr)
    (before : List (OperatorToken × Phrase Expr)) (hroom : ReadsChains n room) {bound : Nat}
    (hloose : Loose before links) (hatoms : ∀ l ∈ links, AcceptsAtom n l.2)
    (htight : ∀ l ∈ links, l.1.op.bindsTighter control = true)
    (hapart : links ≠ [] → Apart (Phrase.spell OperatorToken.tokens links) rest)
    (hstop : Stops control rest) (hbound : links.length ≤ bound) :
    (operators (operand room) control bound (.ofExpr (Chain.toExpr ⟨first, before⟩))).Reads
      (Phrase.spell OperatorToken.tokens links ++ rest)
      (.ofExpr (Chain.toExpr ⟨first, before ++ links⟩)) rest
      (n + links.length ≤ room ∧
        (Chain.toExpr ⟨first, before ++ links⟩).height ≤ maxHeight) := by
  induction bound generalizing before links with
  | zero =>
      obtain rfl : links = [] := List.length_eq_zero_iff.mp (by omega)
      exact .of_eq (by simp [operators])
  | succ bound ih =>
      cases links with
      | nil =>
          obtain ⟨o, ho, hloose'⟩ := hstop
          refine .of_eq ?_
          cases o with
          | none => simp [operators, ho]
          | some op => simp [operators, ho, hloose' op rfl]
      | cons l links =>
          obtain ⟨t, p⟩ := l
          obtain ⟨inner, outer, rfl, hinner, houter⟩ := exists_right_operand t.op links
          obtain ⟨hp, hatoms⟩ := List.forall_mem_cons.mp hatoms
          obtain ⟨hatomsInner, hatomsOuter⟩ := List.forall_mem_append.mp hatoms
          obtain ⟨ht, htight⟩ := List.forall_mem_cons.mp htight
          obtain ⟨-, htightOuter⟩ := List.forall_mem_append.mp htight
          have hfirst : Apart (Phrase.chainTokens OperatorToken.tokens ⟨p, inner⟩)
              (Phrase.spell OperatorToken.tokens outer ++ rest) := by
            refine apart_spell fun hnil => ?_
            have hlast := hapart (by simp)
            have hne : Phrase.chainTokens OperatorToken.tokens ⟨p, inner⟩ ≠ [] := by
              simp [Phrase.chainTokens, hp.ne_nil]
            refine (apart_append (w := t.tokens) hne).mp ?_
            simpa [Phrase.chainTokens, hnil] using hlast
          have hothers : outer ≠ [] → Apart (Phrase.spell OperatorToken.tokens outer) rest := by
            intro hne
            have hlast := hapart (by simp)
            rw [← List.cons_append, Phrase.spell_append] at hlast
            refine (apart_append ?_).mp hlast
            obtain ⟨l, outer, rfl⟩ := List.exists_cons_of_ne_nil hne
            simp [OperatorToken.tokens]
          have hleft := applied_reads first hroom (hloose (t, p) (by simp)) hinner hp
            hatomsInner hfirst (stops_spell ht houter hstop)
          have hnext := hloose.extend hinner houter
          have hloop := ih _ hnext hatomsOuter htightOuter hothers
            (by simp only [List.length_cons, List.length_append] at hbound; omega)
          have hheight := height_le_of_loose first hnext
          simp only [List.append_assoc, List.cons_append, List.length_cons, List.length_append]
            at hloop hheight ⊢
          refine Reads.congr ((hleft.mono ?_).bind (hloop.mono ?_))
            ((congrArg _ ?_).trans (operators_cons ht))
          · exact fun h => ⟨by omega, hheight.trans h.2⟩
          · exact fun h => ⟨by omega, h.2⟩
          · simp [Phrase.chainTokens, OperatorToken.tokens]

/-- Operands read chains of atoms. -/
theorem readsChains (n room : Nat) : ReadsChains n room := by
  induction room with
  | zero =>
      intro control c rest hatoms htight hapart hstop
      exact .inr ⟨by omega, _, rfl, rfl⟩
  | succ room ih =>
      intro control c rest hatoms htight hapart hstop
      obtain ⟨hfirst, hlinks⟩ := Chain.forall_mem_items.mp hatoms
      have hatom := hfirst.reads room (Phrase.spell OperatorToken.tokens c.links ++ rest)
        (apart_spell fun hnil => by simpa [Phrase.chainTokens, hnil] using hapart)
      have hothers : c.links ≠ [] →
          Apart (Phrase.spell OperatorToken.tokens c.links) rest := by
        intro hne
        refine (apart_append ?_).mp hapart
        obtain ⟨l, links, hl⟩ := List.exists_cons_of_ne_nil hne
        simp [hl, OperatorToken.tokens]
      have hbound : c.links.length ≤
          (Phrase.spell OperatorToken.tokens c.links ++ rest).length := by
        have hlength : 1 * c.links.length ≤ (Phrase.spell OperatorToken.tokens c.links).length :=
          Phrase.length_spell fun l _ => by simp [OperatorToken.tokens]
        rw [List.length_append]
        omega
      have hloop := operators_reads c.first [] ih (by simp [Loose]) hlinks htight
        hothers hstop hbound
      have hheight : c.first.value.height ≤ c.toExpr.height :=
        c.height_le_of_mem List.mem_cons_self
      rw [Phrase.chainTokens, List.append_assoc]
      exact (hatom.mono fun h => ⟨by omega, by omega⟩).bind (hloop.mono fun h => ⟨by omega, h.2⟩)

end Operands

section Rules

/-- An expression cannot go on in front of these tokens. -/
def Closing (rest : List Token) : Prop :=
  ∀ t ∈ rest.head?, t.kind ∈ [.keyword, .comma, .semicolon, .closeParenthesis]

theorem Closing.stops (h : Closing rest) : Stops none rest := by
  refine ⟨none, ?_, by simp⟩
  cases rest with
  | nil => rfl
  | cons t rest =>
      have hkind := h t rfl
      have hstar : t.kind ≠ .star := fun hk => by simp [hk] at hkind
      have hop : t.kind ≠ .operator := fun hk => by simp [hk] at hkind
      simp [frontOperator?, hstar, hop]

theorem Closing.apart (h : Closing rest) (w : List Token) : Apart w rest := by
  intro _ _ _ t ht hk
  simpa [hk] using h t ht

theorem closing_keyword {word : String} (k : Keyword word) (s : List Token) :
    Closing (k.1 :: s) := by
  intro t ht
  obtain rfl : k.1 = t := by simpa using ht
  simp [(Token.isKeyword_iff.mp k.2).1]

theorem closing_closeParenthesis (c : TokenOf .closeParenthesis) (s : List Token) :
    Closing (c.1 :: s) := by
  intro t ht
  obtain rfl : c.1 = t := by simpa using ht
  simp [c.2]

theorem closing_gap (g : Gap .comma) (s : List Token) : Closing (g.tokens ++ s) := by
  obtain ⟨t, ht, hkind⟩ := g.valid
  intro u hu
  obtain rfl : t = u := by simpa [ht] using hu
  simp [hkind]

/-- The parser of expressions reads the phrase when it has room for `n` levels of nesting. -/
structure AcceptsExpression (n : Nat) (p : Phrase Expr) : Prop where
  /-- The phrase starts like an expression. -/
  starts : ∃ t w, p.tokens = t :: w ∧ Starts t
  /-- It is read wherever an expression cannot go on. -/
  reads : ∀ room rest, Closing rest →
    (operand room none).Reads (p.tokens ++ rest) (.ofExpr p.value) rest
      (n ≤ room ∧ p.value.height ≤ maxHeight)

theorem AcceptsExpression.mono {n' : Nat} (h : AcceptsExpression n p) (hn : n ≤ n') :
    AcceptsExpression n' p :=
  ⟨h.starts, fun room rest hrest => (h.reads room rest hrest).mono fun h => ⟨by omega, h.2⟩⟩

theorem acceptsExpression_chain {c : Chain OperatorToken (Phrase Expr)}
    (h : ∀ p ∈ c.items, Derives .atom p) (hatoms : ∀ p ∈ c.items, AcceptsAtom n p) :
    AcceptsExpression (n + c.links.length + 1)
      ⟨Phrase.chainTokens OperatorToken.tokens c, c.toExpr⟩ where
  starts := (Derives.chain h).exists_starts
  reads room rest hrest :=
    (readsChains n room none c rest hatoms (fun _ _ => rfl) (hrest.apart _) hrest.stops).mono
      fun h => ⟨by omega, h.2⟩

theorem acceptsAtom_leaf {t : Token} {e : Expr} (hheight : e.height = 1)
    (h : ∀ nested s, atom nested (t :: s) = .ok (⟨e, 1⟩, s)) : AcceptsAtom 0 ⟨[t], e⟩ where
  ne_nil := List.cons_ne_nil t []
  reads room rest _ := .of_eq (by simp [h, Sized.ofExpr, hheight])

theorem atom_identifier {nested : OperandParser} (t : TokenOf .identifier) (s : List Token) :
    atom nested (t.1 :: s) = named nested t.1.name s := by
  simp [atom, t.2]

theorem acceptsAtom_column (t : TokenOf .identifier) :
    AcceptsAtom 0 ⟨[t.1], .identifier t.1.name⟩ where
  ne_nil := List.cons_ne_nil t.1 []
  reads room rest hrest := by
    have hnone : ∀ u ∈ rest.head?, u.isKind .openParenthesis = false := fun u hu => by
      simpa [Token.isKind] using hrest t.1 rfl t.2 u hu
    exact .congr (.bind_eq (accept_of_forall hnone) (.of_eq rfl)) (atom_identifier t rest)

theorem token_isKind_cons {kind : Token.Kind} {what : Expectation} (t : TokenOf kind)
    (s : List Token) : token what (·.isKind kind) (t.1 :: s) = .ok (t.1, s) :=
  token_cons (by simp [Token.isKind, t.2])

theorem acceptsAtom_parentheses (o : TokenOf .openParenthesis) (c : TokenOf .closeParenthesis)
    (h : AcceptsExpression n p) : AcceptsAtom n ⟨o.1 :: p.tokens ++ [c.1], p.value⟩ where
  ne_nil := by simp
  reads room rest _ := by
    have hinner := h.reads room (c.1 :: rest) (closing_closeParenthesis c rest)
    have hgroup : (group (operand room)).Reads (p.tokens ++ c.1 :: rest) (.ofExpr p.value) rest
        (n ≤ room ∧ p.value.height ≤ maxHeight) :=
      hinner.bind (.bind_eq (token_isKind_cons c rest) (.of_eq rfl))
    exact hgroup.congr (by simp [atom, o.2])

/-- A name in front of an opening parenthesis is a call. -/
theorem atom_call {nested : OperandParser} (t : TokenOf .identifier)
    (o : TokenOf .openParenthesis) {s rest : List Token} {x : Sized} {fits : Prop}
    (h : (arguments nested t.1.name).Reads s x rest fits) :
    (atom nested).Reads (t.1 :: o.1 :: s) x rest fits :=
  .congr (.bind_eq (accept_cons (by simp [Token.isKind, o.2])) h) (atom_identifier t _)

theorem acceptsAtom_countRows (t : TokenOf .identifier) (o : TokenOf .openParenthesis)
    (star : TokenOf .star) (c : TokenOf .closeParenthesis)
    (h : Text.asciiUpper t.1.name = "COUNT") :
    AcceptsAtom 0 ⟨[t.1, o.1, star.1, c.1], .ofCall t.1.name [.star]⟩ where
  ne_nil := by simp
  reads room rest _ := by
    have hcount : countsRows t.1.name (star.1 :: c.1 :: rest) = true := by
      simp [countsRows, h, star.2]
    refine atom_call t o (.bind_eq (a := star.1 :: c.1 :: rest) rfl ?_)
    rw [if_pos hcount]
    refine .bind_eq (token_isKind_cons star _) (.bind_eq (token_isKind_cons c _) (.of_eq ?_))
    simp [Sized.ofExpr, ofCall, height_call, height]
    rfl

theorem acceptsAtom_callNothing (t : TokenOf .identifier) (o : TokenOf .openParenthesis)
    (c : TokenOf .closeParenthesis) : AcceptsAtom 1 ⟨[t.1, o.1, c.1], .ofCall t.1.name []⟩ where
  ne_nil := by simp
  reads room rest _ := by
    have hcount : countsRows t.1.name (c.1 :: rest) = false := by simp [countsRows, c.2]
    have hargs : (list₀ (operand room none) .comma).Reads (c.1 :: rest) [] (c.1 :: rest)
        (1 ≤ room ∧ (Expr.ofCall t.1.name []).height ≤ maxHeight) := by
      cases room with
      | zero => exact list₀_reads_nil (by simp) rfl (.inr ⟨by omega, rfl⟩)
      | succ room =>
          have hatom : atom (operand room) (c.1 :: rest) =
              .error ⟨.unexpected .expression, c.1 :: rest⟩ := by simp [atom, c.2]
          exact list₀_reads_nil (by simp) (bind_error hatom) (.inl rfl)
    refine atom_call t o (.bind_eq (a := c.1 :: rest) rfl ?_)
    rw [hcount]
    exact hargs.bind (.bind_eq (token_isKind_cons c _) ((sized_reads fun h => h.2).congr
      (congrFun (sized_call _ []) _)))

/-- The arguments of a call do not start with a star. -/
theorem countsRows_of_starts {name : String} {u : Token} {s : List Token} (h : Starts u) :
    countsRows name (u :: s) = false := by
  have hstar : u.kind ≠ .star := by
    intro hk
    simp [Starts, hk, Token.isKeyword] at h
  simp [countsRows, hstar]

theorem exists_starts_phrase {args : Chain (Gap .comma) (Phrase Expr)}
    (h : ∀ p ∈ args.items, AcceptsExpression n p) :
    ∃ t w, args.phrase.tokens = t :: w ∧ Starts t := by
  obtain ⟨t, w, ht, hstarts⟩ := (Chain.forall_mem_items.mp h).1.starts
  exact ⟨t, _, by simp [Chain.phrase, Phrase.chainTokens, ht]; rfl, hstarts⟩

/-- The arguments of a call, one or more. -/
theorem arguments_reads {args : Chain (Gap .comma) (Phrase Expr)} {room : Nat} {fits : Prop}
    (c : TokenOf .closeParenthesis) (h : ∀ p ∈ args.items, AcceptsExpression n p)
    (hfits : fits → n ≤ room ∧ ∀ p ∈ args.items, p.value.height ≤ maxHeight) :
    (list₀ (operand room none) .comma).Reads (args.phrase.tokens ++ c.1 :: rest)
      (args.phrase.value.map Sized.ofExpr) (c.1 :: rest) fits := by
  obtain ⟨u, w, hu, -⟩ := exists_starts_phrase h
  have hitem : ∀ p ∈ (args.map id (Phrase.map Sized.ofExpr)).items, ∀ s, Closing s →
      (operand room none).Reads (p.tokens ++ s) p.value s fits := by
    rw [Chain.items_map]
    refine List.forall_mem_map.mpr fun p hp s hs => ((h p hp).reads room s hs).mono fun hf => ?_
    exact ⟨(hfits hf).1, (hfits hf).2 p hp⟩
  have hlist := list₁_reads Closing hitem
    (fun l _ s => by rw [List.append_assoc]; exact closing_gap l.1 _)
    (fun l _ => by
      obtain ⟨t, ht, -⟩ := l.1.valid
      simp [ht])
    (closing_closeParenthesis c rest)
    (stopsAt_of_skip?_eq_none (by simp [Separator.skip?, c.2]))
  rw [Chain.phrase_map] at hlist
  exact list₀_reads (by simp [hu]) hlist

theorem acceptsAtom_call (t : TokenOf .identifier) (o : TokenOf .openParenthesis)
    (c : TokenOf .closeParenthesis) {args : Chain (Gap .comma) (Phrase Expr)}
    (h : ∀ p ∈ args.items, AcceptsExpression n p) :
    AcceptsAtom n
      ⟨t.1 :: o.1 :: args.phrase.tokens ++ [c.1], .ofCall t.1.name args.phrase.value⟩ where
  ne_nil := by simp
  reads room rest _ := by
    obtain ⟨u, w, hu, hstarts⟩ := exists_starts_phrase h
    have hcount : countsRows t.1.name (args.phrase.tokens ++ c.1 :: rest) = false := by
      rw [hu]
      exact countsRows_of_starts hstarts
    have hheight : ∀ p ∈ args.items,
        p.value.height ≤ (Expr.ofCall t.1.name args.phrase.value).height :=
      fun p hp => Nat.le_of_lt (lt_height_call (List.mem_map_of_mem hp))
    have hargs : (list₀ (operand room none) .comma).Reads (args.phrase.tokens ++ c.1 :: rest)
        (args.phrase.value.map Sized.ofExpr) (c.1 :: rest)
        (n ≤ room ∧ (Expr.ofCall t.1.name args.phrase.value).height ≤ maxHeight) :=
      arguments_reads c h fun hf => ⟨hf.1, fun p hp => (hheight p hp).trans hf.2⟩
    simp only [List.cons_append, List.append_assoc]
    refine atom_call t o (.bind_eq (a := args.phrase.tokens ++ c.1 :: rest) rfl ?_)
    rw [hcount]
    exact hargs.bind (.bind_eq (token_isKind_cons c _) ((sized_reads fun h => h.2).congr
      (congrFun (sized_call _ _) _)))

theorem branch_reads {b : Branch} {room : Nat} {fits : Prop}
    (hcondition : AcceptsExpression n b.condition) (hresult : AcceptsExpression n b.result)
    (hfits : fits → n ≤ room ∧ b.condition.value.height ≤ maxHeight ∧
      b.result.value.height ≤ maxHeight) (hrest : Closing rest) :
    (branch (operand room)).Reads (b.phrase.tokens ++ rest)
      (b.phrase.value, max b.condition.value.height b.result.value.height) rest fits := by
  have hcond := hcondition.reads room (b.thenWord.1 :: b.result.tokens ++ rest)
    (closing_keyword b.thenWord _)
  have hres := hresult.reads room rest hrest
  simp only [Branch.phrase, List.append_assoc, List.cons_append] at hcond ⊢
  exact .bind_eq (keyword_cons b.whenWord.2)
    ((hcond.mono fun h => ⟨(hfits h).1, (hfits h).2.1⟩).bind
      (.bind_eq (keyword_cons b.thenWord.2)
        ((hres.mono fun h => ⟨(hfits h).1, (hfits h).2.2⟩).bind (.of_eq rfl))))

/-- The branches of a choice, up to a token that starts no further one. -/
theorem branches_reads {branches : Chain (Gap .nothing) Branch} {room : Nat} {fits : Prop}
    (hcondition : ∀ b ∈ branches.items, AcceptsExpression n b.condition)
    (hresult : ∀ b ∈ branches.items, AcceptsExpression n b.result)
    (hfits : fits → n ≤ room ∧ ∀ b ∈ branches.items,
      b.condition.value.height ≤ maxHeight ∧ b.result.value.height ≤ maxHeight)
    (hrest : Closing rest) (hnone : ∀ t ∈ rest.head?, t.isKeyword "WHEN" = false) :
    (list₁ (branch (operand room)) .nothing).Reads
      ((branches.map id Branch.phrase).phrase.tokens ++ rest)
      ((branches.map id Branch.phrase).phrase.value.map
        fun b => (b, max b.1.height b.2.height)) rest fits := by
  have hitem : ∀ p ∈ ((branches.map id Branch.phrase).map id
        (Phrase.map fun b => (b, max b.1.height b.2.height))).items, ∀ s, Closing s →
      (branch (operand room)).Reads (p.tokens ++ s) p.value s fits := by
    rw [Chain.items_map, Chain.items_map, List.map_map]
    refine List.forall_mem_map.mpr fun b hb s hs => ?_
    exact branch_reads (hcondition b hb) (hresult b hb)
      (fun h => ⟨(hfits h).1, (hfits h).2 b hb⟩) hs
  have hlinks : ∀ l ∈ ((branches.map id Branch.phrase).map id
      (Phrase.map fun b => (b, max b.1.height b.2.height))).links,
      ∃ (k : Keyword "WHEN") (w : List Token), l.1.tokens ++ l.2.tokens = k.1 :: w := by
    simp only [Chain.map, List.map_map, List.forall_mem_map]
    intro l _
    have hgap : l.1.tokens = [] := l.1.valid
    exact ⟨l.2.whenWord, l.2.phrase.tokens.tail, (congrArg (· ++ _) hgap).trans rfl⟩
  have hstop : StopsAt (branch (operand room)) .nothing rest :=
    stopsAt_of_error (bind_error (token_error hnone)) rfl
  have hlist := list₁_reads Closing hitem
    (fun l hl s => by
      obtain ⟨k, w, hk⟩ := hlinks l hl
      rw [hk]
      exact closing_keyword k _)
    (fun l hl => by
      obtain ⟨k, w, hk⟩ := hlinks l hl
      simp [hk]) hrest hstop
  rw [Chain.phrase_map] at hlist
  exact hlist

/-- The subject of a choice, in front of its first branch. -/
theorem subject_reads {o : Option (Phrase Expr)} {room : Nat} {fits : Prop}
    (hrest : ∃ (k : Keyword "WHEN") (w : List Token), rest = k.1 :: w)
    (h : ∀ p ∈ o, AcceptsExpression n p)
    (hfits : fits → n ≤ room ∧ ∀ p ∈ o, p.value.height ≤ maxHeight) :
    (subject (operand room)).Reads ((Phrase.option o).tokens ++ rest)
      ((Phrase.option o).value.map Sized.ofExpr) rest fits := by
  obtain ⟨k, rest, rfl⟩ := hrest
  cases o with
  | none =>
      have hat : atKeyword "WHEN" (k.1 :: rest) = .ok (true, k.1 :: rest) :=
        atKeyword_eq_ok.mpr ⟨rfl, by simp [k.2]⟩
      exact .bind_eq hat (.of_eq rfl)
  | some p =>
      have hp := h p rfl
      obtain ⟨t, w, ht, hstarts⟩ := hp.starts
      have hnot : t.isKeyword "WHEN" = false := by
        rw [Bool.eq_false_iff, ne_eq, Token.isKeyword_iff]
        rintro ⟨hkind, htext⟩
        simp [Starts, hkind, Token.isKeyword_iff, htext] at hstarts
      have hat : atKeyword "WHEN" (p.tokens ++ k.1 :: rest) =
          .ok (false, p.tokens ++ k.1 :: rest) :=
        atKeyword_eq_ok.mpr ⟨rfl, by simp [ht, hnot]⟩
      refine .bind_eq hat (Reads.map ((hp.reads room _ (closing_keyword k rest)).mono fun hf => ?_))
      exact ⟨(hfits hf).1, (hfits hf).2 p rfl⟩

/-- The last part of a choice, which may be missing. -/
theorem otherwise_reads {o : Option (Keyword "ELSE" × Phrase Expr)} {k : Keyword "END"}
    {room : Nat} {fits : Prop} (h : ∀ l ∈ o, AcceptsExpression n l.2)
    (hfits : fits → n ≤ room ∧ ∀ l ∈ o, l.2.value.height ≤ maxHeight) :
    (clause "ELSE" (operand room none)).Reads ((Phrase.clause o).tokens ++ k.1 :: rest)
      ((Phrase.clause o).value.map Sized.ofExpr) (k.1 :: rest) fits := by
  cases o with
  | none =>
      have hnot : ∀ t ∈ (k.1 :: rest).head?, t.isKeyword "ELSE" = false :=
        k.not_keyword rest (by decide)
      exact .of_eq (clause_absent hnot)
  | some l =>
      have hreads := (h l rfl).reads room _ (closing_keyword k rest)
      apply clause_reads l.1.2 (hreads.mono _)
      intro hf
      exact ⟨(hfits hf).1, (hfits hf).2 l rfl⟩

/-- Behind the branches of a choice comes another keyword than the one of a branch. -/
theorem closing_otherwise (o : Option (Keyword "ELSE" × Phrase Expr)) (k : Keyword "END")
    (rest : List Token) : Closing ((Phrase.clause o).tokens ++ k.1 :: rest) ∧
      ∀ t ∈ ((Phrase.clause o).tokens ++ k.1 :: rest).head?, t.isKeyword "WHEN" = false := by
  cases o with
  | none => exact ⟨closing_keyword k rest, k.not_keyword rest (by decide)⟩
  | some l => exact ⟨closing_keyword l.1 _, l.1.not_keyword _ (by decide)⟩

section Choice

variable {subject : Option (Phrase Expr)} {branches : Chain (Gap .nothing) Branch}
  {otherwise : Option (Keyword "ELSE" × Phrase Expr)}
  (hsubject : ∀ p ∈ subject, AcceptsExpression n p)
  (hcondition : ∀ b ∈ branches.items, AcceptsExpression n b.condition)
  (hresult : ∀ b ∈ branches.items, AcceptsExpression n b.result)
  (hotherwise : ∀ l ∈ otherwise, AcceptsExpression n l.2)

include hsubject hcondition hresult hotherwise

theorem choice_reads {e : Expr} {room : Nat} (finish : Keyword "END") (rest : List Token)
    (he : e = .case (Phrase.option subject).value (branches.map id Branch.phrase).phrase.value
      (Phrase.clause otherwise).value) :
    (choice (operand room)).Reads
      ((Phrase.option subject).tokens ++ ((branches.map id Branch.phrase).phrase.tokens ++
        ((Phrase.clause otherwise).tokens ++ finish.1 :: rest)))
      (.ofExpr e) rest (n ≤ room ∧ e.height ≤ maxHeight) := by
  obtain ⟨hsub, hbranch, hoth⟩ := lt_height_case (Phrase.option subject).value
    (branches.map id Branch.phrase).phrase.value (Phrase.clause otherwise).value
  rw [← he] at hsub hbranch hoth
  obtain ⟨hclosing, hnot⟩ := closing_otherwise otherwise finish rest
  refine Reads.bind (subject_reads ?_ hsubject fun hf => ⟨hf.1, ?_⟩)
    (.bind (branches_reads hcondition hresult (fun hf => ⟨hf.1, ?_⟩) hclosing hnot)
      (.bind (otherwise_reads hotherwise fun hf => ⟨hf.1, ?_⟩)
        (.bind_eq (keyword_cons finish.2) ((sized_reads fun hf => hf.2).congr ?_))))
  · exact ⟨branches.first.whenWord, _, rfl⟩
  · rintro p rfl
    exact (Nat.le_of_lt (hsub _ rfl)).trans hf.2
  · intro b hb
    have hlt := hbranch b.phrase.value
      (List.mem_map_of_mem (Chain.items_map id Branch.phrase branches ▸ List.mem_map_of_mem hb))
    have hle := hf.2
    simp only [Branch.phrase] at hlt
    omega
  · rintro l rfl
    exact (Nat.le_of_lt (hoth _ rfl)).trans hf.2
  · rw [he]
    exact congrFun (sized_case _ _ _) _

theorem acceptsAtom_case (start : Keyword "CASE") (finish : Keyword "END") :
    AcceptsAtom n
      ⟨start.1 :: (Phrase.option subject).tokens ++
          (branches.map id Branch.phrase).phrase.tokens ++
          (Phrase.clause otherwise).tokens ++ [finish.1],
        .case (Phrase.option subject).value (branches.map id Branch.phrase).phrase.value
          (Phrase.clause otherwise).value⟩ where
  ne_nil := by simp
  reads room rest _ := by
    refine (choice_reads hsubject hcondition hresult hotherwise finish rest rfl).congr ?_
    simp [atom, Token.isKeyword_iff.mp start.2]

end Choice

end Rules

section Phrases

/-- What the parser makes of a phrase of a category: it needs no more room than the phrase has
tokens, and the value is no higher than that. -/
def Accepts : Category → Phrase Expr → Prop
  | .atom, p => AcceptsAtom (p.tokens.length - 1) p ∧ p.value.height ≤ p.tokens.length
  | .expression, p => AcceptsExpression p.tokens.length p ∧ p.value.height ≤ p.tokens.length

theorem accepts_call (t : TokenOf .identifier) (o : TokenOf .openParenthesis)
    (c : TokenOf .closeParenthesis) {args : Chain (Gap .comma) (Phrase Expr)}
    (h : ∀ p ∈ args.items, Accepts .expression p) :
    Accepts .atom
      ⟨t.1 :: o.1 :: args.phrase.tokens ++ [c.1], .ofCall t.1.name args.phrase.value⟩ := by
  refine ⟨(acceptsAtom_call t o c fun p hp => (h p hp).1.mono (Chain.length_le_phrase hp)).mono ?_,
    ?_⟩
  · simp only [List.length_append, List.length_cons]
    omega
  · have hheight : ((args.phrase.value).map height).foldl max 0 ≤ args.phrase.tokens.length :=
      foldl_max_le <| List.forall_mem_map.mpr <| List.forall_mem_map.mpr fun p hp =>
        (h p hp).2.trans (Chain.length_le_phrase hp)
    simp only [ofCall, height_call, List.length_append, List.length_cons]
    omega

theorem accepts_chain {c : Chain OperatorToken (Phrase Expr)}
    (h : ∀ p ∈ c.items, Derives .atom p) (haccepts : ∀ p ∈ c.items, Accepts .atom p) :
    Accepts .expression ⟨Phrase.chainTokens OperatorToken.tokens c, c.toExpr⟩ := by
  have hlength : ∀ p ∈ c.items, p.tokens.length + 1 * c.links.length ≤
      (Phrase.chainTokens OperatorToken.tokens c).length := fun p hp =>
    Phrase.length_chainTokens 1 (fun l _ => by simp [OperatorToken.tokens]) hp
  have hfirst := hlength c.first List.mem_cons_self
  have hpos := List.length_pos_iff.mpr (haccepts c.first List.mem_cons_self).1.ne_nil
  have hatoms : ∀ p ∈ c.items,
      AcceptsAtom ((Phrase.chainTokens OperatorToken.tokens c).length - c.links.length - 1) p := by
    intro p hp
    have := hlength p hp
    exact (haccepts p hp).1.mono (by omega)
  refine ⟨(acceptsExpression_chain h hatoms).mono ?_, ?_⟩
  · simp only
    omega
  · have hheight : c.toExpr.height ≤
        (Phrase.chainTokens OperatorToken.tokens c).length - c.links.length + c.links.length :=
      c.height_toExpr_le fun p hp => by
        have := hlength p hp
        have := (haccepts p hp).2
        omega
    simp only
    omega

theorem accepts_case (start : Keyword "CASE") (finish : Keyword "END")
    {subject : Option (Phrase Expr)} {branches : Chain (Gap .nothing) Branch}
    {otherwise : Option (Keyword "ELSE" × Phrase Expr)}
    (hsubject : ∀ p ∈ subject, Accepts .expression p)
    (hcondition : ∀ b ∈ branches.items, Accepts .expression b.condition)
    (hresult : ∀ b ∈ branches.items, Accepts .expression b.result)
    (hotherwise : ∀ l ∈ otherwise, Accepts .expression l.2) :
    Accepts .atom
      ⟨start.1 :: (Phrase.option subject).tokens ++
          (branches.map id Branch.phrase).phrase.tokens ++
          (Phrase.clause otherwise).tokens ++ [finish.1],
        .case (Phrase.option subject).value (branches.map id Branch.phrase).phrase.value
          (Phrase.clause otherwise).value⟩ := by
  let n := (Phrase.option subject).tokens.length +
    (branches.map id Branch.phrase).phrase.tokens.length + (Phrase.clause otherwise).tokens.length
  have hsub : ∀ p ∈ subject, p.tokens.length ≤ n := by
    rintro p rfl
    simp only [n, Phrase.option]
    omega
  have hbranch : ∀ b ∈ branches.items,
      b.condition.tokens.length ≤ n ∧ b.result.tokens.length ≤ n := by
    intro b hb
    have := Chain.length_le_phrase (c := branches.map id Branch.phrase) (p := b.phrase)
      (Chain.items_map id Branch.phrase branches ▸ List.mem_map_of_mem hb)
    simp only [Branch.phrase, List.length_cons, List.length_append] at this
    omega
  have hoth : ∀ l ∈ otherwise, l.2.tokens.length ≤ n := by
    rintro l rfl
    simp only [n, Phrase.clause, List.length_cons]
    omega
  refine ⟨(acceptsAtom_case (n := n) (fun p hp => (hsubject p hp).1.mono (hsub p hp))
    (fun b hb => (hcondition b hb).1.mono (hbranch b hb).1)
    (fun b hb => (hresult b hb).1.mono (hbranch b hb).2)
    (fun l hl => (hotherwise l hl).1.mono (hoth l hl)) start finish).mono ?_, ?_⟩
  · simp only [n, List.length_append, List.length_cons]
    omega
  · have hheight : (Expr.case (Phrase.option subject).value
        (branches.map id Branch.phrase).phrase.value (Phrase.clause otherwise).value).height ≤
          n + 1 := by
      rw [height_case]
      refine Nat.succ_le_succ (foldl_max_le ?_)
      simp only [List.forall_mem_append, List.forall_mem_map]
      refine ⟨⟨fun e he => ?_, fun b hb => ?_⟩, fun e he => ?_⟩
      · obtain ⟨p, rfl, rfl⟩ := Phrase.exists_of_mem_option (Option.mem_toList.mp he)
        exact (hsubject p rfl).2.trans (hsub p rfl)
      · simp only [Chain.phrase, Chain.items_map, List.mem_map] at hb
        obtain ⟨_, ⟨b, hb, rfl⟩, rfl⟩ := hb
        exact Nat.max_le.mpr ⟨(hcondition b hb).2.trans (hbranch b hb).1,
          (hresult b hb).2.trans (hbranch b hb).2⟩
      · obtain ⟨l, rfl, rfl⟩ := Phrase.exists_of_mem_clause (Option.mem_toList.mp he)
        exact (hotherwise l rfl).2.trans (hoth l rfl)
    simp only [n, List.length_append, List.length_cons] at hheight ⊢
    omega

/-- Every phrase of the grammar is accepted. -/
theorem Derives.accepts {category : Category} (h : Derives category p) : Accepts category p := by
  induction h with
  | null t =>
      exact ⟨acceptsAtom_leaf rfl fun _ _ => by simp [atom, Token.isKeyword_iff.mp t.2], by
        simp [height]⟩
  | bool b t =>
      refine ⟨acceptsAtom_leaf rfl fun _ _ => ?_, by simp [height]⟩
      cases b <;> simp [atom, Token.isKeyword_iff.mp t.2]
  | number t => exact ⟨acceptsAtom_leaf rfl fun _ _ => by simp [atom, t.2], by simp [height]⟩
  | string t => exact ⟨acceptsAtom_leaf rfl fun _ _ => by simp [atom, t.2], by simp [height]⟩
  | column t => exact ⟨acceptsAtom_column t, by simp [height]⟩
  | parentheses o c h ih =>
      refine ⟨(acceptsAtom_parentheses o c ih.1).mono ?_, ih.2.trans ?_⟩
      · simp only [List.length_append, List.length_cons]
        omega
      · simp only [List.length_append, List.length_cons]
        omega
  | countRows t o star c h =>
      exact ⟨(acceptsAtom_countRows t o star c h).mono (Nat.zero_le _), by
        simp [ofCall, height_call, height]⟩
  | callNothing t o c =>
      exact ⟨(acceptsAtom_callNothing t o c).mono (by simp), by simp [ofCall, height_call]⟩
  | call t o c h ih => exact accepts_call t o c ih
  | case start finish hsubject hcondition hresult hotherwise ihs ihc ihr iho =>
      exact accepts_case start finish ihs ihc ihr iho
  | chain h ih => exact accepts_chain h ih

/-- The parser reads every expression in front of a token that ends it, up to the nesting
limit. -/
theorem Derives.reads (h : Derives .expression p) (hrest : Closing rest) :
    Expr.parser.Reads (p.tokens ++ rest) p.value rest (p.tokens.length ≤ maxHeight) := by
  obtain ⟨haccepts, hheight⟩ := h.accepts
  exact ((haccepts.reads maxHeight rest hrest).mono fun h => ⟨h, hheight.trans h⟩).map

end Phrases

end Grammar

end TableQuery
