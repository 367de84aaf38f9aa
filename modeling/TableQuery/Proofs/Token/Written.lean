import TableQuery.Proofs.Failure
import TableQuery.Proofs.Text.Trimming
import TableQuery.Proofs.Token.Lexeme

/-!
# How a text of tokens is written

A text has certain tokens just when it is written token by token, with any white space between
them. White space at its ends can be taken away, and its numbers are what their numerals say.
-/

namespace TableQuery.Token

variable {s b w rest : List Char} {t : Token} {ts : List Token}

/-- The text is written token by token, with white space between the tokens or none. -/
inductive Writes : List Char → List Token → Prop where
  | blank {s : List Char} (hs : ∀ c ∈ s, Text.isBlank c = true) : Writes s []
  | token {b w rest : List Char} {t : Token} {ts : List Token}
      (hb : ∀ c ∈ b, Text.isBlank c = true) (hw : Lexeme w rest t) (hrest : Writes rest ts) :
      Writes (b ++ (w ++ rest)) (t :: ts)

theorem Lexeme.ne_nil (h : Lexeme w rest t) : w ≠ [] := by
  obtain ⟨c, u, rfl, -, -⟩ := h.readToken
  exact List.cons_ne_nil c u

theorem next_eq_token (hb : ∀ c ∈ b, Text.isBlank c = true) (h : Lexeme w rest t) :
    next (b ++ (w ++ rest)) = .token t rest := by
  obtain ⟨c, u, rfl, hc, hread⟩ := h.readToken
  rw [next, List.dropWhile_append_of_pos hb, List.cons_append,
    List.dropWhile_cons_of_neg (by simp [hc])]
  exact hread

/-- White space, or a token behind white space. -/
theorem next_eq_ok {found : Option Token} (h : (next s).answer = .ok found) :
    (found = none ∧ ∀ c ∈ s, Text.isBlank c = true) ∨
      ∃ b w t, s = b ++ (w ++ (next s).rest) ∧ (∀ c ∈ b, Text.isBlank c = true) ∧
        Lexeme w (next s).rest t ∧ found = some t := by
  have hs : s = s.takeWhile Text.isBlank ++ s.dropWhile Text.isBlank :=
    List.takeWhile_append_dropWhile.symm
  have hblank : ∀ c ∈ s.takeWhile Text.isBlank, Text.isBlank c = true :=
    fun c hc => List.mem_takeWhile_imp hc
  rw [next] at h ⊢
  split at h
  · next hdrop =>
    cases h
    exact .inl ⟨rfl, List.dropWhile_eq_nil_iff.1 hdrop⟩
  · next c tail hdrop =>
    cases found with
    | none => exact absurd h answer_readToken
    | some t =>
        obtain ⟨w, hw, hlexeme⟩ := exists_lexeme (t := t)
          (show readToken c tail = ⟨_, (readToken c tail).rest⟩ by rw [← h])
        refine .inr ⟨_, w, t, ?_, hblank, hlexeme, rfl⟩
        rw [← hw, ← hdrop, ← hs]

theorem Writes.cuts (h : Writes s ts) : Cuts s ts := by
  induction h with
  | blank hs =>
      intro bound _
      cases bound with
      | zero => rfl
      | succ bound => rw [readAll, next, List.dropWhile_eq_nil_iff.2 hs]
  | token hb hw _ ih =>
      refine ih.token (next_eq_token hb hw) ?_
      have hpos := List.length_pos_iff.2 hw.ne_nil
      rw [List.length_append, List.length_append]
      omega

theorem Writes.unique {ts' : List Token} (h : Writes s ts) (h' : Writes s ts') : ts = ts' :=
  Except.ok.inj ((h.cuts _ (Nat.le_refl _)).symm.trans (h'.cuts _ (Nat.le_refl _)))

theorem writes_of_readAll {bound : Nat} (h : readAll bound s = .ok ts)
    (hbound : s.length ≤ bound) : Writes s ts := by
  induction bound generalizing s ts with
  | zero =>
      obtain rfl := List.length_eq_zero_iff.1 (Nat.le_zero.1 hbound)
      cases h
      exact .blank nofun
  | succ bound ih =>
      rw [readAll] at h
      cases hanswer : (next s).answer with
      | error e =>
          simp only [hanswer] at h
          cases h
      | ok found =>
          simp only [hanswer] at h
          rcases next_eq_ok hanswer with ⟨rfl, hblank⟩ | ⟨b, w, t, hs, hb, hlexeme, rfl⟩
          · cases h
            exact .blank hblank
          · obtain ⟨ts, hts, rfl⟩ := except_map_eq_ok.1 h
            have hpos := List.length_pos_iff.2 hlexeme.ne_nil
            have hlength := congrArg List.length hs
            rw [List.length_append, List.length_append] at hlength
            rw [hs]
            exact .token hb hlexeme (ih hts (by omega))

theorem Writes.eq_nil_iff (h : Writes s ts) : ts = [] ↔ ∀ c ∈ s, Text.isBlank c = true := by
  cases h with
  | blank hs => simpa using hs
  | token hb hw =>
      obtain ⟨c, u, rfl, hc, -⟩ := hw.readToken
      refine iff_of_false (List.cons_ne_nil _ _) fun hall => ?_
      rw [hall c (by simp)] at hc
      cases hc

/-- The texts of certain tokens. -/
theorem ofText_eq_ok_iff {text : String} :
    ofText text = .ok ts ↔ ts ≠ [] ∧ Writes text.toList ts := by
  constructor
  · intro h
    rw [ofText] at h
    split at h
    · cases h
    · next hblank =>
      have hwrites := writes_of_readAll h (Nat.le_refl _)
      refine ⟨fun hnil => hblank ?_, hwrites⟩
      exact List.all_eq_true.2 (hwrites.eq_nil_iff.1 hnil)
  · rintro ⟨hne, hwrites⟩
    obtain ⟨t, ts, rfl⟩ := List.exists_cons_of_ne_nil hne
    exact hwrites.cuts.ofText_eq

section Trimming

theorem Writes.trimStart (h : Writes s ts) : Writes (Text.trimStart Text.isBlank s) ts := by
  cases h with
  | blank hs => exact .blank fun c hc => hs c (List.dropWhile_sublist _ |>.subset hc)
  | token hb hw hrest =>
      obtain ⟨c, u, rfl, hc, -⟩ := hw.readToken
      rw [Text.trimStart_append hb, List.cons_append, Text.trimStart_cons hc]
      exact .token (b := []) nofun hw hrest

theorem Writes.trimEnd (h : Writes s ts) : Writes (Text.trimEnd Text.isBlank s) ts := by
  induction h with
  | blank hs =>
      rw [Text.trimEnd_eq_nil_iff.2 hs]
      exact .blank nofun
  | @token b w rest t ts hb hw _ ih =>
      obtain ⟨c, hlast, hc⟩ := hw.exists_getLast?
      have hkeep : ∃ c ∈ (b ++ w).getLast?, Text.isBlank c = false :=
        ⟨c, by simp [List.getLast?_append, Option.mem_def.1 hlast], hc⟩
      obtain ⟨tail, htail, -⟩ := Text.exists_trimEnd_append Text.isBlank rest
      rw [← List.append_assoc, Text.trimEnd_append hkeep, List.append_assoc]
      rw [htail] at hw
      exact .token hb hw.of_append ih

theorem Writes.trimBy (h : Writes s ts) : Writes (Text.trimBy Text.isBlank s) ts :=
  h.trimStart.trimEnd

end Trimming

section Numerals

theorem Lexeme.exists_numeral (h : Lexeme w rest t) (hkind : t.kind = .number) :
    ∃ s, Numeral s ∧ t = ofNumeral s := by
  cases h with
  | word => exact absurd hkind (kind_ofWord_ne _ (by decide))
  | whole hne hw => exact ⟨_, .whole hne hw, rfl⟩
  | decimal hne hw hne' hf => exact ⟨_, .decimal hne hw hne' hf, rfl⟩
  | char hc =>
      unfold ofChar? at hc
      split at hc <;> cases hc <;> cases hkind
  | literal hc =>
      unfold literalKind? at hc
      split at hc <;> cases hc <;> cases hkind
  | symbol => cases hkind

theorem Writes.numeralsRead (h : Writes s ts) : NumeralsRead ts := by
  induction h with
  | blank => nofun
  | token _ hw _ ih => exact List.forall_mem_cons.2 ⟨hw.exists_numeral, ih⟩

theorem ofText_numeralsRead {text : String} (h : ofText text = .ok ts) : NumeralsRead ts :=
  (ofText_eq_ok_iff.1 h).2.numeralsRead

end Numerals

end TableQuery.Token
