import TableQuery.Proofs.Grammar.Completeness
import TableQuery.Proofs.Grammar.Query

/-!
# The parser of queries accepts its grammar

Each part of a query is read in front of the keywords that can follow it. A keyword that may
follow never opens the part it follows, so the parser neither stops early nor reads on.
-/

namespace TableQuery.Grammar

open TableQuery.Parser TableQuery.Expr

variable {α : Type} {rest : List Token} {words words' : List String} {word : String}

/-- The tokens are over, or a semicolon or one of the keywords comes next. -/
def Leads (words : List String) (rest : List Token) : Prop :=
  ∀ t ∈ rest.head?, t.kind = .semicolon ∨ t.kind = .keyword ∧ t.text ∈ words

/-- What may follow an item of a list: a comma, or what may follow the list. -/
def Follows (words : List String) (rest : List Token) : Prop :=
  ∀ t ∈ rest.head?, t.kind = .comma ∨ t.kind = .semicolon ∨ t.kind = .keyword ∧ t.text ∈ words

theorem Leads.follows (h : Leads words rest) : Follows words rest := fun t ht => .inr (h t ht)

theorem Leads.mono (h : Leads words rest) (hwords : words ⊆ words') : Leads words' rest :=
  fun t ht => (h t ht).imp_right fun h => ⟨h.1, hwords h.2⟩

theorem leads_nil : Leads words [] := by simp [Leads]

theorem leads_keyword (k : Keyword word) (s : List Token) : Leads [word] (k.1 :: s) := by
  intro t ht
  obtain rfl : k.1 = t := Option.some.inj ht
  obtain ⟨hkind, htext⟩ := Token.isKeyword_iff.mp k.2
  exact .inr ⟨hkind, by simp [htext]⟩

theorem follows_gap (g : Gap .comma) (s : List Token) : Follows words (g.tokens ++ s) := by
  obtain ⟨t, ht, hkind⟩ := g.valid
  intro u hu
  obtain rfl : t = u := by simpa [ht] using hu
  exact .inl hkind

theorem Follows.closing (h : Follows words rest) : Closing rest := by
  intro t ht
  rcases h t ht with h | h | h
  · simp [h]
  · simp [h]
  · simp [h.1]

theorem Follows.not_keyword (h : Follows words rest) (hword : word ∉ words) :
    ∀ t ∈ rest.head?, t.isKeyword word = false := by
  intro t ht
  rw [Bool.eq_false_iff, ne_eq, Token.isKeyword_iff]
  rintro ⟨hkind, htext⟩
  rcases h t ht with h | h | h
  · simp [hkind] at h
  · simp [hkind] at h
  · exact hword (htext ▸ h.2)

theorem Leads.stopsAt {item : Parser α} (h : Leads words rest) : StopsAt item .comma rest := by
  refine stopsAt_of_skip?_eq_none ?_
  cases rest with
  | nil => rfl
  | cons t rest =>
      have hcomma : t.kind ≠ .comma := by
        intro hkind
        have := h t rfl
        simp [hkind] at this
      simp [Separator.skip?, hcomma]

/-- What a clause leads to: its keyword, or what comes behind it. -/
theorem Clause.leads {P : Phrase α → Prop} {p : Phrase (Option α)} (hp : Clause word P p)
    (h : Leads words rest) : Leads (word :: words) (p.tokens ++ rest) := by
  obtain ⟨o, -, rfl⟩ := hp
  cases o with
  | none => exact h.mono (List.subset_cons_self word words)
  | some l =>
      intro t ht
      obtain rfl : l.1.1 = t := Option.some.inj ht
      obtain ⟨hkind, htext⟩ := Token.isKeyword_iff.mp l.1.2
      exact .inr ⟨hkind, by simp [htext]⟩

/-- The parser reads every phrase of a grammar where one of the given tokens follows, up to the
nesting limit. -/
def ReadsAll (p : Parser α) (P : Phrase α → Prop) (follow : List Token → Prop) : Prop :=
  ∀ q, P q → ∀ rest, follow rest →
    p.Reads (q.tokens ++ rest) q.value rest (q.tokens.length ≤ maxHeight)

theorem expression_readsAll : ReadsAll Expr.parser (Derives .expression) Closing :=
  fun _ h _ hrest => h.reads hrest

theorem clause_readsAll {p : Parser α} {P : Phrase α → Prop} {follow : List Token → Prop}
    (h : ReadsAll p P follow)
    (hword : ∀ s, follow s → ∀ t ∈ s.head?, t.isKeyword word = false) :
    ReadsAll (clause word p) (Clause word P) follow := by
  rintro _ ⟨o, ho, rfl⟩ rest hrest
  cases o with
  | none => exact .of_eq (clause_absent (hword rest hrest))
  | some l =>
      refine clause_reads l.1.2 ((h l.2 (ho l rfl) rest hrest).mono fun hfits => ?_)
      simp only [Phrase.clause, List.length_cons] at hfits
      omega

theorem list₁_readsAll {item : Parser α} {P : Phrase α → Prop}
    (h : ReadsAll item P (Follows words)) :
    ReadsAll (list₁ item .comma) (Separated .comma P) (Leads words) := by
  rintro _ ⟨c, hc, rfl⟩ rest hrest
  refine list₁_reads (Follows words) (fun p hp s hs => ?_)
    (fun l _ s => by rw [List.append_assoc]; exact follows_gap l.1 _) (fun l _ => ?_) hrest.follows
    hrest.stopsAt
  · exact (h p (hc p hp) s hs).mono (Chain.length_le_phrase hp).trans
  · obtain ⟨t, ht, -⟩ := l.1.valid
    simp [ht]

theorem columnName_readsAll {follow : List Token → Prop} :
    ReadsAll (token .columnName fun t => t.isKind .identifier || t.isKind .string) ColumnName
      follow := by
  rintro _ ⟨t, ht⟩ rest -
  exact .of_eq (token_cons (by simpa [Token.isKind] using ht))

/-- A clause may come where an expression has to end. -/
theorem Clause.closing {P : Phrase α → Prop} {p : Phrase (Option α)} (hp : Clause word P p)
    (h : Closing rest) : Closing (p.tokens ++ rest) := by
  obtain ⟨o, -, rfl⟩ := hp
  cases o with
  | none => exact h
  | some l => exact closing_keyword l.1 _

theorem outputColumn_readsAll : ReadsAll Query.outputColumn Column (Follows ["FROM"]) := by
  rintro _ ⟨h, hname⟩ rest hrest
  rename_i p name
  have hexpr := h.reads (hname.closing hrest.closing)
  have hclause := clause_readsAll columnName_readsAll
    (fun s hs => Follows.not_keyword hs (by decide)) name hname rest hrest
  simp only [List.append_assoc, List.length_append]
  exact (hexpr.mono (by omega)).bind ((hclause.mono (by omega)).bind (.of_eq rfl))

theorem Column.exists_starts {p : Phrase OutputColumn} (h : Column p) :
    ∃ t w, p.tokens = t :: w ∧ Starts t := by
  obtain ⟨h, -⟩ := h
  obtain ⟨t, w, ht, hstarts⟩ := h.exists_starts
  exact ⟨t, _, by rw [ht]; rfl, hstarts⟩

theorem Starts.not_isKind_star {t : Token} (h : Starts t) : t.isKind .star = false := by
  rw [Bool.eq_false_iff]
  intro hkind
  simp only [Token.isKind, beq_iff_eq] at hkind
  simp [Starts, hkind, Token.isKeyword] at h

theorem selection_readsAll : ReadsAll Query.selection Selects (Leads ["FROM"]) := by
  intro _ h rest hrest
  cases h with
  | all t => exact .bind_eq (accept_cons (by simp [Token.isKind, t.2])) (.of_eq rfl)
  | columns h =>
      have hlist := list₁_readsAll outputColumn_readsAll _ h rest hrest
      obtain ⟨c, hc, rfl⟩ := h
      obtain ⟨t, w, ht, hstarts⟩ := (hc c.first List.mem_cons_self).exists_starts
      refine .bind_eq (accept_of_forall fun u hu => ?_) (hlist.bind (.of_eq rfl))
      obtain rfl : t = u := by simpa [Chain.phrase, Phrase.chainTokens, ht] using hu
      exact hstarts.not_isKind_star

theorem grouping_readsAll :
    ReadsAll Query.grouping (Clause "GROUP" Groups) (Leads ["ORDER", "LIMIT", "OFFSET"]) := by
  refine clause_readsAll ?_ fun s hs => hs.follows.not_keyword (by decide)
  rintro _ ⟨k, hkeys, hhaving⟩ rest hrest
  rename_i keys having
  have hlist := list₁_readsAll (fun p hp s hs => expression_readsAll p hp s (Follows.closing hs))
    keys hkeys _ (hhaving.leads hrest)
  have hclause := clause_readsAll
    (fun p hp s hs => expression_readsAll p hp s (Leads.follows hs).closing)
    (fun s hs => (Leads.follows hs).not_keyword (by decide)) having hhaving rest hrest
  simp only [List.append_assoc, List.length_append, List.length_cons, List.cons_append]
  exact .bind_eq (keyword_cons k.2)
    ((hlist.mono (by omega)).bind ((hclause.mono (by omega)).bind (.of_eq rfl)))

theorem orderingTerm_readsAll :
    ReadsAll Query.orderingTerm Term (Follows ["LIMIT", "OFFSET"]) := by
  intro _ h rest hrest
  cases h with
  | unmarked h =>
      have hasc := accept_of_forall (hrest.not_keyword (show "ASC" ∉ _ by decide))
      have hdesc := accept_of_forall (hrest.not_keyword (show "DESC" ∉ _ by decide))
      exact (h.reads hrest.closing).bind (.bind_eq hasc (.bind_eq hdesc (.of_eq rfl)))
  | ascending h k =>
      have hexpr := h.reads (closing_keyword k rest)
      simp only [List.append_assoc, List.length_append]
      exact (hexpr.mono (by omega)).bind (.bind_eq (accept_cons k.2) (.of_eq rfl))
  | descending h k =>
      have hexpr := h.reads (closing_keyword k rest)
      have hasc : acceptKeyword "ASC" (k.1 :: rest) = .ok (false, k.1 :: rest) :=
        accept_of_forall (k.not_keyword rest (by decide))
      simp only [List.append_assoc, List.length_append]
      exact (hexpr.mono (by omega)).bind
        (.bind_eq hasc (.bind_eq (accept_cons k.2) (.of_eq rfl)))

theorem ordering_readsAll :
    ReadsAll Query.ordering (Clause "ORDER" Orders) (Leads ["LIMIT", "OFFSET"]) := by
  refine clause_readsAll ?_ fun s hs => hs.follows.not_keyword (by decide)
  rintro _ ⟨k, hterms⟩ rest hrest
  rename_i terms
  have hlist := list₁_readsAll orderingTerm_readsAll terms hterms rest hrest
  simp only [List.length_cons]
  exact .bind_eq (keyword_cons k.2) (hlist.mono (by omega))

theorem count_readsAll {follow : List Token → Prop} : ReadsAll Query.count Count follow := by
  rintro _ ⟨t, hn⟩ rest -
  exact .of_eq (count_eq_ok.mpr ⟨t.1, rfl, t.2, hn⟩)

theorem clauses_readsAll : ReadsAll Query.clauses Clauses (Leads []) := by
  rintro _ ⟨selectWord, hselect, fromWord, source, hcondition, hgrouping, hordering, hlimit,
    hoffset⟩ rest hrest
  rename_i select condition grouping ordering limit offset
  have hleadOffset := hoffset.leads hrest
  have hleadLimit := hlimit.leads hleadOffset
  have hleadOrder := hordering.leads hleadLimit
  have hleadGroup := hgrouping.leads hleadOrder
  have hrOffset := clause_readsAll count_readsAll
    (fun s hs => (Leads.follows hs).not_keyword (by decide)) offset hoffset rest hrest
  have hrLimit := clause_readsAll count_readsAll
    (fun s hs => (Leads.follows hs).not_keyword (by decide)) limit hlimit _ hleadOffset
  have hrOrdering := ordering_readsAll ordering hordering _ hleadLimit
  have hrGrouping := grouping_readsAll grouping hgrouping _ hleadOrder
  have hrCondition := clause_readsAll
    (fun p hp s hs => expression_readsAll p hp s (Leads.follows hs).closing)
    (fun s hs => (Leads.follows hs).not_keyword (by decide)) condition hcondition _ hleadGroup
  have hrSelect := selection_readsAll select hselect _ (leads_keyword fromWord (source.1 ::
    (condition.tokens ++ (grouping.tokens ++ (ordering.tokens ++ (limit.tokens ++
      (offset.tokens ++ rest)))))))
  have hsource : Query.tableName (source.1 :: (condition.tokens ++ (grouping.tokens ++
      (ordering.tokens ++ (limit.tokens ++ (offset.tokens ++ rest)))))) =
      .ok (source.1.name, _) :=
    map_eq_ok.mpr ⟨source.1, token_cons (by simp [Token.isKind, source.2]), rfl⟩
  simp only [List.append_assoc, List.length_append, List.length_cons, List.cons_append]
  exact .bind_eq (keyword_cons selectWord.2)
    ((hrSelect.mono (by omega)).bind (.bind_eq (keyword_cons fromWord.2) (.bind_eq hsource
      ((hrCondition.mono (by omega)).bind ((hrGrouping.mono (by omega)).bind
        ((hrOrdering.mono (by omega)).bind ((hrLimit.mono (by omega)).bind
          ((hrOffset.mono (by omega)).bind (.of_eq rfl)))))))))

theorem parser_readsAll : ReadsAll Query.parser Sentence (· = []) := by
  rintro _ ⟨h, semicolon⟩ rest rfl
  rename_i q
  cases semicolon with
  | none =>
      have hreads := clauses_readsAll q h [] leads_nil
      simp only [Option.toList_none, List.map_nil, List.append_nil] at hreads ⊢
      exact hreads.bind (.of_eq rfl)
  | some t =>
      have hreads := clauses_readsAll q h [t.1] fun u hu => .inl (by
        obtain rfl : t.1 = u := Option.some.inj hu
        exact t.2)
      have haccept : accept (·.isKind .semicolon) [t.1] = .ok (true, []) :=
        accept_cons (by simp [Token.isKind, t.2])
      simp only [Option.toList_some, List.map_cons, List.map_nil, List.append_nil,
        List.length_append] at hreads ⊢
      exact (hreads.mono (by omega)).bind (.bind_eq haccept (.of_eq rfl))

/-- The parser of queries accepts exactly its grammar, up to the nesting limit, which no list of
at most 256 tokens exceeds. -/
theorem ofTokens_accepts_sentences (tokens : List Token) :
    (∀ q, Query.ofTokens tokens = .ok q → Sentence ⟨tokens, q⟩) ∧
      (∀ q, Sentence ⟨tokens, q⟩ → Query.ofTokens tokens = .ok q ∨
        ∃ found, Query.ofTokens tokens = .error (.unexpected .shallowerExpression found)) ∧
      ∀ q, Sentence ⟨tokens, q⟩ → tokens.length ≤ 256 → Query.ofTokens tokens = .ok q := by
  refine ⟨fun q h => ?_, fun q h => ?_, fun q h hlength => ?_⟩
  · rw [Query.ofTokens] at h
    split at h
    · next q' rest hparser =>
      obtain rfl : q' = q := Except.ok.inj h
      exact parser_sound hparser
    · cases h
  · rcases parser_readsAll _ h [] rfl with hok | ⟨-, f, herror, hf⟩
    · left
      rw [List.append_nil] at hok
      simp [Query.ofTokens, hok]
    · right
      rw [List.append_nil] at herror
      exact ⟨f.found, by simp [Query.ofTokens, herror, Failure.toError, hf]⟩
  · have hok := (parser_readsAll _ h [] rfl).eq_ok hlength
    rw [List.append_nil] at hok
    simp [Query.ofTokens, hok]

/-- `SELECT a FROM 't' ORDER BY a DESC;` is a query, and accepted. -/
theorem ofTokens_accepts_ordered_selection :
    let tokens : List Token :=
      [.keyword "SELECT", .identifier "a", .keyword "FROM", ⟨.string, "'t'", some (.text "t")⟩,
        .keyword "ORDER", .keyword "BY", .identifier "a", .keyword "DESC", ⟨.semicolon, ";", none⟩]
    let q : Query :=
      { select := .columns [⟨.identifier "a", "a"⟩], source := "t",
        orderBy := some [⟨.identifier "a", .descending⟩] }
    Sentence ⟨tokens, q⟩ ∧ Query.ofTokens tokens = .ok q := by
  intro tokens q
  obtain ⟨hsound, -, hcomplete⟩ := ofTokens_accepts_sentences tokens
  have hsentence : Sentence ⟨tokens, q⟩ := hsound q rfl
  exact ⟨hsentence, hcomplete q hsentence (by decide)⟩

end TableQuery.Grammar
