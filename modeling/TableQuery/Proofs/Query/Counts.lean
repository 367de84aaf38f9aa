import TableQuery.Proofs.Grammar.Acceptance
import TableQuery.Proofs.Number.Nearest
import TableQuery.Proofs.Token.Written

/-!
# Counts of rows

The count behind LIMIT and OFFSET is a literal, and a literal denotes the number nearest to its
decimal. So a count is exact up to this rounding: it is stored as the whole number that the literal
denotes, and refused where the literal denotes none. A decimal that is itself the value of a number
is not rounded.
-/

namespace TableQuery.Query

open TableQuery.Parser

variable {n : Nat} {r : Number} {t : Token} {s after tokens : List Token}

section Counts

/-- A number that is a count of rows is finite. -/
theorem magnitude_lt_of_units (hnan : r.isNan = false) (hn : n ≤ maxCount)
    (h : r.units = n * Number.unitsPerOne) : r.magnitude < Number.infiniteMagnitude := by
  refine Nat.lt_of_le_of_ne (Number.magnitude_le hnan) fun hinfinite => ?_
  have hlt : n < 2 ^ 64 := Nat.lt_succ_of_le hn
  have hfinite : (1022 + 64 + 1) * Number.leadingBit < Number.infiniteMagnitude := by decide
  have hunits := Number.unitsOfMagnitude_strictMono hfinite
  rw [Number.unitsOfMagnitude_two_pow, ← hinfinite, ← Number.units, h] at hunits
  exact Nat.lt_asymm hlt (Nat.lt_of_mul_lt_mul_right hunits)

/-- A number other than `2 ^ 64` is a count of rows iff it is a natural number that is not larger
than the greatest count, and it is this count. -/
theorem count?_eq_some_iff (hsign : r.isNegative = false) (hnan : r.isNan = false)
    (hne : r.toRat ≠ 2 ^ 64) : count? r = some n ↔ n ≤ maxCount ∧ r.toRat = n := by
  have hone := Number.unitsPerOne_pos
  have hvalue : 0 ≤ r.value := by
    rw [Number.value, hsign]
    exact Int.natCast_nonneg _
  have hpart : r.wholePart = r.units / Number.unitsPerOne := by
    rw [Number.wholePart, hsign]
    rfl
  rw [count?, Option.ite_none_right_eq_some]
  simp only [Number.isWhole, hpart, hvalue, Bool.and_eq_true, decide_eq_true_eq, beq_iff_eq,
    and_true, Option.some.injEq]
  constructor
  · rintro ⟨⟨⟨hfinite, hwhole⟩, hle⟩, rfl⟩
    have hunits := (Nat.div_mul_cancel (Nat.dvd_of_mod_eq_zero hwhole)).symm
    have hcount := (Number.toRat_eq_natCast_iff hsign).2 hunits
    have hlt : r.units / Number.unitsPerOne ≠ maxCount + 1 := by
      intro hequal
      rw [hcount, hequal] at hne
      exact hne (by norm_num [maxCount])
    rw [Nat.min_eq_left (by omega)]
    exact ⟨by omega, hcount⟩
  · rintro ⟨hle, hcount⟩
    have hunits := (Number.toRat_eq_natCast_iff hsign).1 hcount
    rw [hunits, Nat.mul_mod_left, Nat.mul_div_cancel _ hone, Nat.min_eq_left hle]
    exact ⟨⟨⟨magnitude_lt_of_units hnan hle hunits, rfl⟩, Nat.le_succ_of_le hle⟩, rfl⟩

end Counts

section Literals

theorem kind_ne_of_ofChar? {c : Char} {kind : Token.Kind} (h : Token.ofChar? c = some kind) :
    kind ≠ .number := by
  rintro rfl
  unfold Token.ofChar? at h
  split at h <;> cases h

theorem kind_ne_of_literalKind? {c : Char} {kind : Token.Kind}
    (h : Token.literalKind? c = some kind) : kind ≠ .number := by
  rintro rfl
  unfold Token.literalKind? at h
  split at h <;> cases h

/-- A literal is a decimal, and it denotes the number nearest to it. -/
theorem exists_decimal_of_next {text : List Char}
    (h : (Token.next text).answer = .ok (some t)) (hkind : t.kind = .number) :
    ∃ x r, Number.IsDecimal t.text.toList x ∧ t.number? = some r ∧ r.isNegative = false ∧
      r.IsNearest x.toRat := by
  have hnumeral : ∃ w x, t = Token.ofNumeral w ∧ Number.IsDecimal w x := by
    rcases Token.next_eq_ok h with ⟨hnone, -⟩ | ⟨b, w, t', -, -, hlexeme, ht⟩
    · cases hnone
    · obtain rfl := Option.some.inj ht
      cases hlexeme with
      | word hc hw hrest => exact absurd hkind (Token.kind_ofWord_ne _ (by decide))
      | @whole w _ hne hw =>
          have hdecimal := Number.IsDecimal.mk .none (by rwa [List.append_nil])
            (Number.denotes_ten_iff.2 ⟨by rwa [List.append_nil], rfl⟩) .none
          rw [List.append_nil, List.append_nil] at hdecimal
          exact ⟨w, _, rfl, hdecimal⟩
      | @decimal w f _ hne hw hne' hf =>
          have hdecimal := Number.IsDecimal.mk (.point f)
            (List.append_ne_nil_of_left_ne_nil hne f)
            (Number.denotes_ten_iff.2 ⟨List.forall_mem_append.2 ⟨hw, hf⟩, rfl⟩) .none
          rw [List.append_nil] at hdecimal
          exact ⟨w ++ '.' :: f, _, rfl, hdecimal⟩
      | char hc => exact absurd hkind (kind_ne_of_ofChar? hc)
      | literal hc hw => exact absurd hkind (kind_ne_of_literalKind? hc)
      | symbol h => cases hkind
  obtain ⟨w, x, rfl, hdecimal⟩ := hnumeral
  refine ⟨x, .ofMagnitude false x.nearest, ?_, ?_, ?_, x.isNearest⟩
  · rwa [Token.ofNumeral, String.toList_ofList]
  · rw [← Number.ofDecimalText_decimal .none hdecimal]
    rfl
  · exact Number.isNegative_ofMagnitude false (Number.nearest_le x)

/-- A clause takes the number behind its keyword for a count, or refuses it. -/
theorem clause_count {word : String} (k : Keyword word) (hkind : t.kind = .number)
    (hr : t.number? = some r) :
    clause word count (k.1 :: t :: after) =
      (count? r).elim (.error ⟨.unexpected .integer, t :: after⟩) fun n => .ok (some n, after) := by
  have htoken : token .number (·.isKind .number) (t :: after) = .ok (t, after) :=
    token_cons (by simpa [Token.isKind] using hkind)
  have hcount : count (t :: after) =
      (count? r).elim (.error ⟨.unexpected .integer, t :: after⟩) fun n => .ok (n, after) := by
    simp only [count, htoken, hr, Option.bind_some]
    cases count? r <;> rfl
  rw [clause]
  simp only [bind, StateT.bind, Except.bind, acceptKeyword, accept_cons k.2, if_true, hcount]
  cases count? r <;> rfl

end Literals

section Clauses

theorem clause_of_phrase {word : String} {p : Phrase (Option Nat)}
    (h : Grammar.Clause word Grammar.Count p)
    (hafter : ∀ t ∈ after.head?, t.isKeyword word = false) :
    clause word count (p.tokens ++ after) = .ok (p.value, after) := by
  obtain ⟨o, ho, rfl⟩ := h
  cases o with
  | none => exact clause_absent hafter
  | some l =>
      obtain ⟨k, p⟩ := l
      obtain ⟨t, hn⟩ : Grammar.Count p := ho _ rfl
      exact clause_eq_ok.2 (.inl ⟨k.1, _, _, rfl, k.2,
        Grammar.count_eq_ok.2 ⟨t.1, rfl, t.2, hn⟩, rfl⟩)

/-- A query ends with its two counts and perhaps a semicolon, and it holds what the clauses of the
counts are read as. -/
theorem exists_counts {q : Query} (h : ofTokens tokens = .ok q) :
    ∃ before limit offset last, tokens = before ++ limit ∧
      clause "LIMIT" count limit = .ok (q.limit, offset) ∧
      clause "OFFSET" count offset = .ok (q.offset, last) ∧ ∀ t ∈ last, t.kind = .semicolon := by
  obtain ⟨rest, hparser⟩ := ofTokens_eq_ok.1 h
  obtain ⟨hclauses, semicolon⟩ : Grammar.Sentence ⟨tokens, q⟩ := Grammar.parser_sound hparser
  obtain @⟨select, condition, grouping, ordering, limit, offset, selectWord, -, fromWord, source,
    -, -, -, hlimit, hoffset⟩ := hclauses
  have hkinds : ∀ t ∈ semicolon.toList.map Subtype.val, t.kind = .semicolon := by
    intro t ht
    obtain ⟨t, -, rfl⟩ := List.mem_map.1 ht
    exact t.2
  have hlast : Grammar.Leads [] (semicolon.toList.map Subtype.val) := by
    intro t ht
    exact .inl (hkinds t (List.mem_of_head? ht))
  refine ⟨selectWord.1 :: (select.tokens ++ fromWord.1 :: source.1 ::
      (condition.tokens ++ (grouping.tokens ++ ordering.tokens))),
    limit.tokens ++ (offset.tokens ++ semicolon.toList.map Subtype.val), _, _, by simp,
    clause_of_phrase hlimit ((hoffset.leads hlast).follows.not_keyword (by decide)),
    clause_of_phrase hoffset (hlast.follows.not_keyword (by decide)), hkinds⟩

/-- The number of a literal is the one nearest to its decimal. Unless this number is `2 ^ 64`, a
clause takes it for a count iff it is a natural number below, and the query holds this count. -/
theorem counts_exact_up_to_rounding :
    (∀ (text : List Char) (t : Token), (Token.next text).answer = .ok (some t) →
      t.kind = .number →
      ∃ x r, Number.IsDecimal t.text.toList x ∧ t.number? = some r ∧ r.IsNearest x.toRat ∧
        (∀ y : Number, y.isNan = false → x.toRat = y.toRat → r.toRat = x.toRat) ∧
        (∀ n ≤ 2 ^ 53, x.toRat = (n : Nat) → r.toRat = n) ∧
        (r.toRat ≠ 2 ^ 64 → ∀ (word : String) (k : Keyword word) (after : List Token),
          (∀ n, clause word count (k.1 :: t :: after) = .ok (some n, after) ↔
            n ≤ maxCount ∧ r.toRat = n) ∧
          ((∃ n ≤ maxCount, r.toRat = n) ∨
            clause word count (k.1 :: t :: after) = .error ⟨.unexpected .integer, t :: after⟩))) ∧
    ∀ tokens q, ofTokens tokens = .ok q →
      ∃ before limit offset last, tokens = before ++ limit ∧
        clause "LIMIT" count limit = .ok (q.limit, offset) ∧
        clause "OFFSET" count offset = .ok (q.offset, last) ∧
        ∀ t ∈ last, t.kind = .semicolon := by
  refine ⟨fun text t hnext hkind => ?_, fun tokens q => exists_counts⟩
  obtain ⟨x, r, hdecimal, hr, hsign, hnearest⟩ := exists_decimal_of_next hnext hkind
  have hexact : ∀ y : Number, y.isNan = false → x.toRat = y.toRat → r.toRat = x.toRat := by
    intro y hy hxy
    rw [hxy] at hnearest ⊢
    exact hnearest.toRat_eq hy
  refine ⟨x, r, hdecimal, hr, hnearest, hexact, fun n hn hx => ?_, fun hne word k after => ?_⟩
  · obtain ⟨y, hy, hyn⟩ := Number.exists_number hn
    rw [← hx]
    exact hexact y hy (hx.trans hyn.symm)
  · have hcount := fun n => count?_eq_some_iff (n := n) hsign hnearest.isNan_eq_false hne
    rw [clause_count k hkind hr]
    cases hc : count? r with
    | none =>
        refine ⟨fun n => ?_, .inr rfl⟩
        rw [← hcount, hc]
        simp
    | some m =>
        refine ⟨fun n => ?_, .inl ⟨m, (hcount m).1 hc⟩⟩
        rw [← hcount, hc]
        simp

/-- `25` is its own nearest number, and the count behind OFFSET. -/
theorem counts_exact_up_to_rounding_whole :
    clause "OFFSET" count [.keyword "OFFSET", Token.ofNumeral ['2', '5']] = .ok (some 25, []) := by
  obtain ⟨hliteral, -⟩ := counts_exact_up_to_rounding
  obtain ⟨x, r, hdecimal, -, -, -, hexact, hclause⟩ :=
    hliteral ['2', '5'] (Token.ofNumeral ['2', '5']) rfl rfl
  have hx : x = ⟨25, 0⟩ := Option.some.inj ((Number.decimal?_eq_some_iff.2 hdecimal).symm.trans rfl)
  have hr : r.toRat = (25 : Nat) :=
    hexact 25 (by decide) (by rw [hx]; norm_num [Number.Decimal.toRat])
  refine ((hclause ?_ "OFFSET" ⟨.keyword "OFFSET", rfl⟩ []).1 25).2 ⟨by decide, hr⟩
  rw [hr]
  norm_num

/-- `9007199254740993` is no number: the query holds the even one of its two neighbours. A decimal
that is so close to one that it is read as one is taken for a count. -/
theorem count_rounded :
    Number.IsDecimal "9007199254740993".toList ⟨9007199254740993, 0⟩ ∧
      (ofText "SELECT * FROM 't' LIMIT 9007199254740993").toOption.map Query.limit =
        some (some 9007199254740992) ∧
      Number.IsDecimal "1.00000000000000000001".toList ⟨100000000000000000001, -20⟩ ∧
      (ofText "SELECT * FROM 't' LIMIT 1.00000000000000000001").toOption.map Query.limit =
        some (some 1) := by
  refine ⟨Number.decimal?_eq_some_iff.1 (by decide +kernel), ?_,
    Number.decimal?_eq_some_iff.1 (by decide +kernel), ?_⟩
  · decide +kernel
  · decide +kernel

end Clauses

end TableQuery.Query
