import TableQuery.Proofs.Grammar.Completeness

/-!
# Precedence climbing groups by levels

Whatever atoms stand between whatever operators, the parser groups them by the levels of the
language. The grammar decides which chain the parser has taken: the tokens determine the chain,
since both readings start with the same atoms.
-/

namespace TableQuery.Grammar

open TableQuery.Parser TableQuery.Expr

/-- A phrase that a parser of atoms takes. -/
def AtomRead (p : Phrase Expr) : Prop :=
  ∃ (room height : Nat) (rest : List Token),
    atom (operand room) (p.tokens ++ rest) = .ok (⟨p.value, height⟩, rest)

theorem AtomRead.derives {p : Phrase Expr} (h : AtomRead p) : Derives .atom p := by
  obtain ⟨room, height, rest, h⟩ := h
  obtain ⟨q, hs, ⟨hq, -⟩, -, hx⟩ := atom_sound (operand_sound room) h
  have htokens : p.tokens = q.tokens := List.append_cancel_right hs
  have hvalue : p.value = q.value := congrArg Sized.expr hx
  obtain ⟨w, e⟩ := p
  obtain ⟨w', e'⟩ := q
  obtain rfl : w = w' := htokens
  obtain rfl : e = e' := hvalue
  exact hq

/-- The parser's answer on a chain of atoms is the grouping of the chain by levels, in which
every atom and every operator keeps its place. -/
theorem parser_groups_by_levels (c : Chain OperatorToken (Phrase Expr)) (rest : List Token)
    (e : Expr) (hatoms : ∀ p ∈ c.items, AtomRead p)
    (h : Expr.parser (Phrase.chainTokens OperatorToken.tokens c ++ rest) = .ok (e, rest)) :
    ∃ tree : OperatorTree Expr,
      tree = OperatorLevel.group OperatorLevel.all (c.map OperatorToken.op Phrase.value) ∧
        e = tree.toExpr ∧ tree.inorder = c.map OperatorToken.op Phrase.value := by
  obtain ⟨x, hx, rfl⟩ := map_eq_ok.mp h
  obtain ⟨c', hs, -, hc'⟩ := operand_sound maxHeight _ _ _ _ hx
  have hderives : ∀ p ∈ c.items, Derives .atom p := fun p hp => (hatoms p hp).derives
  have htokens : Phrase.chainTokens OperatorToken.tokens c =
      Phrase.chainTokens OperatorToken.tokens c' := List.append_cancel_right hs
  have haccepts : ∀ p ∈ c.items,
      AcceptsAtom (Phrase.chainTokens OperatorToken.tokens c).length p := by
    intro p hp
    have hlength : p.tokens.length + 0 * c.links.length ≤
        (Phrase.chainTokens OperatorToken.tokens c).length :=
      Phrase.length_chainTokens 0 (fun _ _ => Nat.zero_le _) hp
    exact (hderives p hp).accepts.1.mono (by omega)
  have hapart : Apart (Phrase.chainTokens OperatorToken.tokens c) rest := htokens ▸ hc'.apart
  have hreads := readsChains _ maxHeight none c rest haccepts (fun _ _ => rfl) hapart hc'.stops
  obtain ⟨rfl, -⟩ := hreads.eq_of_ok hx
  exact ⟨_, rfl, rfl, Chain.inorder_arrange _⟩

/-- `a < b = c`, with the comparison before the equation on the left of it. -/
theorem parser_groups_comparison_before_equation :
    ∃ tree : OperatorTree Expr,
      tree = .node .equal (.node .less (.leaf (.identifier "a")) (.leaf (.identifier "b")))
        (.leaf (.identifier "c")) ∧
      .binary .equal (.binary .less (.identifier "a") (.identifier "b")) (.identifier "c") =
        tree.toExpr ∧
      tree.inorder = ⟨.identifier "a", [(.less, .identifier "b"), (.equal, .identifier "c")]⟩ :=
  parser_groups_by_levels
    ⟨⟨[.identifier "a"], .identifier "a"⟩,
      [(⟨.operator "<", .less, rfl⟩, ⟨[.identifier "b"], .identifier "b"⟩),
        (⟨.operator "=", .equal, rfl⟩, ⟨[.identifier "c"], .identifier "c"⟩)]⟩ [] _
    (Chain.forall_mem_items.mpr ⟨⟨0, 1, [], rfl⟩, by
      simp only [List.forall_mem_cons]
      exact ⟨⟨0, 1, [], rfl⟩, ⟨0, 1, [], rfl⟩, by simp⟩⟩)
    rfl

end TableQuery.Grammar
