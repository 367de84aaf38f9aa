import TableQuery.Proofs.Operator.Chain
import TableQuery.Proofs.Parser.Steps

/-!
# Phrases and lists of phrases

A phrase is a list of tokens with what it denotes. A grammar is a predicate on phrases, and a
parser yields only phrases of a grammar when whatever it takes is one. A list of phrases ends
where a further item does not parse; which tokens the failed item has looked at leaves no trace.
-/

namespace TableQuery

open TableQuery.Parser

/-- Tokens with what they denote. -/
structure Phrase (α : Type) where
  /-- The tokens. -/
  tokens : List Token
  /-- What they denote. -/
  value : α

namespace Phrase

variable {κ α β : Type}

/-- The same tokens, denoting the image of the value. -/
def map (f : α → β) (p : Phrase α) : Phrase β := ⟨p.tokens, f p.value⟩

/-- The tokens of phrases with the tokens of a label in front of each. -/
def spell (label : κ → List Token) (links : List (κ × Phrase α)) : List Token :=
  links.flatMap fun l => label l.1 ++ l.2.tokens

@[simp] theorem spell_nil (label : κ → List Token) :
    spell label ([] : List (κ × Phrase α)) = [] := rfl

@[simp] theorem spell_cons (label : κ → List Token) (l : κ × Phrase α)
    (links : List (κ × Phrase α)) :
    spell label (l :: links) = label l.1 ++ l.2.tokens ++ spell label links := rfl

@[simp] theorem spell_append (label : κ → List Token) (l l' : List (κ × Phrase α)) :
    spell label (l ++ l') = spell label l ++ spell label l' := by
  simp [spell]

theorem length_spell {label : κ → List Token} {links : List (κ × Phrase α)} {n : Nat}
    (h : ∀ l ∈ links, n ≤ (label l.1 ++ l.2.tokens).length) :
    n * links.length ≤ (spell label links).length := by
  induction links with
  | nil => simp
  | cons l links ih =>
      have hl := h l List.mem_cons_self
      have hrest := ih fun l hl => h l (List.mem_cons_of_mem _ hl)
      rw [spell_cons, List.length_append, List.length_cons, Nat.mul_succ]
      omega

/-- The tokens of a chain of phrases. -/
def chainTokens (label : κ → List Token) (c : Chain κ (Phrase α)) : List Token :=
  c.first.tokens ++ spell label c.links

theorem mem_chainTokens {label : κ → List Token} {c : Chain κ (Phrase α)} {p : Phrase α}
    (hp : p ∈ c.items) {t : Token} (ht : t ∈ p.tokens) : t ∈ chainTokens label c := by
  rcases List.mem_cons.mp hp with rfl | hp
  · exact List.mem_append_left _ ht
  · obtain ⟨l, hl, rfl⟩ := List.mem_map.mp hp
    exact List.mem_append_right _
      (List.mem_flatMap.mpr ⟨l, hl, List.mem_append_right _ ht⟩)

/-- A chain is no shorter than any item of it together with the labels. -/
theorem length_chainTokens {label : κ → List Token} (n : Nat) {c : Chain κ (Phrase α)}
    (h : ∀ l ∈ c.links, n ≤ (label l.1).length) {p : Phrase α} (hp : p ∈ c.items) :
    p.tokens.length + n * c.links.length ≤ (chainTokens label c).length := by
  have hlabel : ∀ l ∈ c.links, n ≤ (label l.1 ++ l.2.tokens).length := fun l hl => by
    have := h l hl
    rw [List.length_append]
    omega
  rw [chainTokens, List.length_append]
  rcases List.mem_cons.mp hp with rfl | hp
  · have := length_spell hlabel
    omega
  · obtain ⟨l, hl, rfl⟩ := List.mem_map.mp hp
    obtain ⟨before, behind, hlinks⟩ := List.append_of_mem hl
    rw [hlinks] at h hlabel ⊢
    have hbefore := length_spell fun l hl => hlabel l (List.mem_append_left _ hl)
    have hself := h l (by simp)
    have hbehind := length_spell fun l hl =>
      hlabel l (List.mem_append_right _ (List.mem_cons_of_mem _ hl))
    simp only [spell_append, spell_cons, List.length_append, List.length_cons, Nat.mul_add,
      Nat.mul_one]
    omega

end Phrase

/-- What stands between two items of a list. -/
structure Gap (sep : Separator) where
  /-- The tokens. -/
  tokens : List Token
  /-- A single comma, or nothing. -/
  valid : match sep with
    | .comma => ∃ t : Token, tokens = [t] ∧ t.kind = .comma
    | .nothing => tokens = []

namespace Gap

/-- The gap that is a comma. -/
def comma (t : Token) (h : t.kind = .comma) : Gap .comma := ⟨[t], t, rfl, h⟩

/-- The gap that is nothing. -/
def nothing : Gap .nothing := ⟨[], rfl⟩

theorem exists_of_skip?_eq {sep : Separator} {s s' : List Token} (h : sep.skip? s = some s') :
    ∃ g : Gap sep, s = g.tokens ++ s' := by
  cases sep with
  | comma =>
      cases s with
      | nil => cases h
      | cons t s =>
          simp only [Separator.skip?, Option.ite_none_right_eq_some, Option.some.injEq] at h
          exact ⟨comma t h.1, by simp [comma, h.2]⟩
  | nothing => exact ⟨nothing, by simpa [Separator.skip?, nothing] using h⟩

theorem skip?_append {sep : Separator} (g : Gap sep) (s : List Token) :
    sep.skip? (g.tokens ++ s) = some s := by
  obtain ⟨w, h⟩ := g
  cases sep with
  | comma =>
      obtain ⟨t, rfl, ht⟩ := h
      simp [Separator.skip?, ht]
  | nothing =>
      subst h
      rfl

end Gap

/-- A list of one phrase or more, as one phrase. -/
def Chain.phrase {α : Type} {sep : Separator} (c : Chain (Gap sep) (Phrase α)) :
    Phrase (List α) :=
  ⟨Phrase.chainTokens Gap.tokens c, c.items.map Phrase.value⟩

theorem Chain.phrase_map {α β : Type} {sep : Separator} (f : α → β)
    (c : Chain (Gap sep) (Phrase α)) :
    (c.map id (Phrase.map f)).phrase = c.phrase.map (List.map f) := by
  simp [Chain.phrase, Chain.items, Chain.map, Phrase.map, Phrase.chainTokens, Phrase.spell,
    List.flatMap_map]

theorem Chain.length_le_phrase {α : Type} {sep : Separator} {c : Chain (Gap sep) (Phrase α)}
    {p : Phrase α} (hp : p ∈ c.items) : p.tokens.length ≤ c.phrase.tokens.length := by
  have h : p.tokens.length + 0 * c.links.length ≤ c.phrase.tokens.length :=
    Phrase.length_chainTokens 0 (fun _ _ => Nat.zero_le _) hp
  omega

/-- A list of phrases of one grammar. -/
def Separated {α : Type} (sep : Separator) (P : Phrase α → Prop) (p : Phrase (List α)) : Prop :=
  ∃ c : Chain (Gap sep) (Phrase α), (∀ x ∈ c.items, P x) ∧ p = c.phrase

/-- A list of images of phrases is the image of a list. -/
theorem Separated.exists_map {α β : Type} {sep : Separator} {P : β → Prop} {f : β → Phrase α}
    {p : Phrase (List α)} (h : Separated sep (fun p => ∃ b, P b ∧ p = f b) p) :
    ∃ c : Chain (Gap sep) β, (∀ b ∈ c.items, P b) ∧ p = (c.map id f).phrase := by
  obtain ⟨⟨first, links⟩, hc, rfl⟩ := h
  obtain ⟨⟨b, hb, rfl⟩, hlinks⟩ := Chain.forall_mem_items.mp hc
  suffices ∃ links' : List (Gap sep × β), (∀ l ∈ links', P l.2) ∧
      links = links'.map fun l => (l.1, f l.2) by
    obtain ⟨links', hP, rfl⟩ := this
    exact ⟨⟨b, links'⟩, Chain.forall_mem_items.mpr ⟨hb, hP⟩, rfl⟩
  clear hc
  induction links with
  | nil => exact ⟨[], by simp, rfl⟩
  | cons l links ih =>
      obtain ⟨g, x⟩ := l
      obtain ⟨b', hb', rfl⟩ := hlinks _ List.mem_cons_self
      obtain ⟨links', hP, rfl⟩ := ih fun l hl => hlinks l (List.mem_cons_of_mem _ hl)
      exact ⟨(g, b') :: links', List.forall_mem_cons.mpr ⟨hb', hP⟩, rfl⟩

namespace Parser

variable {α β : Type}

/-- What the parser takes is a phrase of the grammar. -/
def Yields (p : Parser α) (P : Phrase α → Prop) : Prop :=
  ∀ s a rest, p s = .ok (a, rest) → ∃ w, s = w ++ rest ∧ P ⟨w, a⟩

section Taken

theorem more_yields {item : Parser α} {sep : Separator} {P : Phrase α → Prop}
    (hitem : item.Yields P) {bound : Nat} {s rest : List Token} {as : List α}
    (h : more item sep bound s = .ok (as, rest)) :
    ∃ links : List (Gap sep × Phrase α), s = Phrase.spell Gap.tokens links ++ rest ∧
      as = links.map (·.2.value) ∧ ∀ l ∈ links, P l.2 := by
  induction bound generalizing s as with
  | zero =>
      simp only [more, Except.ok.injEq, Prod.mk.injEq] at h
      exact ⟨[], by simp [h.2], by simp [← h.1], by simp⟩
  | succ bound ih =>
      rw [more] at h
      split at h
      · simp only [Except.ok.injEq, Prod.mk.injEq] at h
        exact ⟨[], by simp [h.2], by simp [← h.1], by simp⟩
      · next s' hskip =>
        obtain ⟨g, rfl⟩ := Gap.exists_of_skip?_eq hskip
        split at h
        · split at h
          · simp only [Except.ok.injEq, Prod.mk.injEq] at h
            exact ⟨[], by simp [h.2], by simp [← h.1], by simp⟩
          · cases h
        · next a mid hfirst =>
          split at h
          · next others rest' hrest =>
            simp only [Except.ok.injEq, Prod.mk.injEq] at h
            obtain ⟨rfl, rfl⟩ := h
            obtain ⟨w, rfl, hw⟩ := hitem _ _ _ hfirst
            obtain ⟨links, rfl, rfl, hl⟩ := ih hrest
            exact ⟨(g, ⟨w, a⟩) :: links, by simp, by simp, List.forall_mem_cons.mpr ⟨hw, hl⟩⟩
          · cases h

theorem list₁_yields {item : Parser α} {P : Phrase α → Prop} (hitem : item.Yields P)
    (sep : Separator) : (list₁ item sep).Yields (Separated sep P) := by
  intro s as rest h
  obtain ⟨a, mid, hfirst, h⟩ := bind_eq_ok.mp h
  obtain ⟨others, rest', hmore, h⟩ := bind_eq_ok.mp h
  obtain ⟨rfl, rfl⟩ := pure_eq_ok.mp h
  obtain ⟨w, rfl, hw⟩ := hitem _ _ _ hfirst
  obtain ⟨links, rfl, rfl, hl⟩ := more_yields hitem hmore
  refine ⟨w ++ Phrase.spell Gap.tokens links, by simp, ⟨⟨w, a⟩, links⟩, ?_, ?_⟩
  · exact Chain.forall_mem_items.mpr ⟨hw, hl⟩
  · simp [Chain.phrase, Chain.items, Phrase.chainTokens, Function.comp_def]

theorem list₀_yields {item : Parser α} {P : Phrase α → Prop} (hitem : item.Yields P)
    (sep : Separator) :
    (list₀ item sep).Yields fun p => p = ⟨[], []⟩ ∨ Separated sep P p := by
  intro s as rest h
  cases s with
  | nil =>
      simp only [list₀, Except.ok.injEq, Prod.mk.injEq] at h
      exact ⟨[], by simp [h.2], .inl (by simp [h.1])⟩
  | cons t s =>
      rw [list₀] at h
      split at h
      · next answer hlist =>
        rw [h] at hlist
        obtain ⟨w, hs, hw⟩ := list₁_yields hitem sep _ _ _ hlist
        exact ⟨w, hs, .inr hw⟩
      · split at h
        · simp only [Except.ok.injEq, Prod.mk.injEq] at h
          exact ⟨[], by simp [h.2], .inl (by simp [h.1])⟩
        · cases h
      · simp

end Taken

section Reading

variable {item : Parser α} {sep : Separator} {rest : List Token} {fits : Prop}

/-- The list ends in front of these tokens. -/
def StopsAt (item : Parser α) (sep : Separator) (s : List Token) : Prop :=
  ∀ bound, more item sep bound s = .ok ([], s)

theorem stopsAt_of_skip?_eq_none {s : List Token} (h : sep.skip? s = none) :
    StopsAt item sep s := by
  intro bound
  cases bound with
  | zero => rfl
  | succ bound => rw [more, h]

theorem stopsAt_of_error {s : List Token} {f : Failure} (h : item s = .error f)
    (hends : f.endsList = true) : StopsAt item .nothing s := by
  intro bound
  cases bound with
  | zero => rfl
  | succ bound => simp [more, Separator.skip?, h, hends]

/-- A loop over items reads them all when each item reads in front of the next one. -/
theorem more_reads {links : List (Gap sep × Phrase α)} (follow : List Token → Prop)
    (hitem : ∀ l ∈ links, ∀ s, follow s → item.Reads (l.2.tokens ++ s) l.2.value s fits)
    (hfollow : ∀ l ∈ links, ∀ s, follow (l.1.tokens ++ l.2.tokens ++ s)) (hrest : follow rest)
    (hstop : StopsAt item sep rest) {bound : Nat} (hbound : links.length ≤ bound) :
    (more item sep bound).Reads (Phrase.spell Gap.tokens links ++ rest)
      (links.map (·.2.value)) rest fits := by
  induction links generalizing bound with
  | nil => exact .of_eq (hstop bound)
  | cons l links ih =>
      obtain ⟨bound, rfl⟩ : ∃ n, bound = n + 1 :=
        ⟨bound - 1, by simp only [List.length_cons] at hbound; omega⟩
      have hnext : follow (Phrase.spell Gap.tokens links ++ rest) := by
        cases links with
        | nil => exact hrest
        | cons l' links =>
            simpa using hfollow l' (by simp) (Phrase.spell Gap.tokens links ++ rest)
      have hrestReads := ih (fun l hl => hitem l (List.mem_cons_of_mem _ hl))
        (fun l hl => hfollow l (List.mem_cons_of_mem _ hl))
        (Nat.le_of_succ_le_succ hbound)
      have hskip := l.1.skip?_append (l.2.tokens ++ (Phrase.spell Gap.tokens links ++ rest))
      simp only [Phrase.spell_cons, List.append_assoc, Reads, more, hskip]
      rcases hitem l List.mem_cons_self _ hnext with h | ⟨hno, f, h, hf⟩
      · rcases hrestReads with hr | ⟨hno, f, hr, hf⟩
        · left
          simp [h, hr]
        · right
          exact ⟨hno, f, by simp [h, hr], hf⟩
      · right
        exact ⟨hno, f, by simp [h, Failure.endsList, hf], hf⟩

/-- A list reads all items of a chain when each item reads in front of the next one. -/
theorem list₁_reads {c : Chain (Gap sep) (Phrase α)} (follow : List Token → Prop)
    (hitem : ∀ p ∈ c.items, ∀ s, follow s → item.Reads (p.tokens ++ s) p.value s fits)
    (hfollow : ∀ l ∈ c.links, ∀ s, follow (l.1.tokens ++ l.2.tokens ++ s))
    (hne : ∀ l ∈ c.links, 1 ≤ (l.1.tokens ++ l.2.tokens).length) (hrest : follow rest)
    (hstop : StopsAt item sep rest) :
    (list₁ item sep).Reads (c.phrase.tokens ++ rest) c.phrase.value rest fits := by
  obtain ⟨hfirst, hlinks⟩ := Chain.forall_mem_items.mp hitem
  have hnext : follow (Phrase.spell Gap.tokens c.links ++ rest) := by
    cases h : c.links with
    | nil => exact hrest
    | cons l links =>
        simpa using hfollow l (by simp [h]) (Phrase.spell Gap.tokens links ++ rest)
  have hbound : c.links.length ≤ (Phrase.spell Gap.tokens c.links ++ rest).length := by
    have := Phrase.length_spell hne
    rw [List.length_append]
    omega
  have hmore := more_reads follow hlinks hfollow hrest hstop hbound
  simp only [Chain.phrase, Phrase.chainTokens, Chain.items, List.map_cons, List.map_map,
    List.append_assoc]
  exact (hfirst _ hnext).bind (Reads.bind hmore (.of_eq rfl))

/-- A list that may be empty reads what a list of one item or more reads. -/
theorem list₀_reads {s : List Token} {as : List α} (hne : s ≠ [])
    (h : (list₁ item sep).Reads s as rest fits) : (list₀ item sep).Reads s as rest fits := by
  obtain ⟨t, s, rfl⟩ := List.exists_cons_of_ne_nil hne
  simp only [Reads, list₀]
  rcases h with h | ⟨hno, f, h, hf⟩
  · exact .inl (by rw [h])
  · exact .inr ⟨hno, f, by simp [h, Failure.endsList, hf], hf⟩

/-- A list that may be empty is empty where an item does not parse. -/
theorem list₀_reads_nil {s : List Token} {f : Failure} (hne : s ≠ []) (h : item s = .error f)
    (hf : f.endsList = true ∨ ¬fits ∧ f.refusal = .unexpected .shallowerExpression) :
    (list₀ item sep).Reads s [] s fits := by
  obtain ⟨t, s, rfl⟩ := List.exists_cons_of_ne_nil hne
  have hlist : list₁ item sep (t :: s) = .error f := bind_error h
  simp only [Reads, list₀, hlist]
  rcases hf with hf | ⟨hno, hf⟩
  · exact .inl (by simp [hf])
  · exact .inr ⟨hno, f, by simp [Failure.endsList, hf], hf⟩

end Reading

end Parser

end TableQuery
