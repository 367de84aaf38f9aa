import Mathlib.Data.List.TakeWhile
import TableQuery.Text.Blank

/-! # What trimming takes away -/

namespace TableQuery.Text

variable {p : Char → Bool} {s u b : List Char} {c : Char}

theorem trimStart_append (h : ∀ c ∈ b, p c = true) (s : List Char) :
    trimStart p (b ++ s) = trimStart p s :=
  List.dropWhile_append_of_pos h

theorem trimBy_append (h : ∀ c ∈ b, p c = true) (s : List Char) :
    trimBy p (b ++ s) = trimBy p s := by
  rw [trimBy, trimStart_append h, trimBy]

theorem trimStart_cons (h : p c = false) : trimStart p (c :: s) = c :: s := by
  simp [trimStart, h]

/-- Nothing is trimmed off a text without such characters. -/
theorem trimBy_of_forall (h : ∀ c ∈ s, p c = false) : trimBy p s = s := by
  have hself : ∀ t : List Char, (∀ c ∈ t, p c = false) → t.dropWhile p = t := fun t ht =>
    List.dropWhile_eq_self_iff.2 fun hpos => by simp [ht _ (List.getElem_mem hpos)]
  rw [trimBy, trimStart, hself s h, trimEnd, hself _ fun c hc => h c (List.mem_reverse.1 hc),
    List.reverse_reverse]

/-- Trimming stops at a character that stays. -/
theorem trimEnd_append (h : ∃ c ∈ u.getLast?, p c = false) (s : List Char) :
    trimEnd p (u ++ s) = u ++ trimEnd p s := by
  obtain ⟨c, hlast, hc⟩ := h
  obtain ⟨u, rfl⟩ := List.getLast?_eq_some_iff.1 hlast
  rw [trimEnd, List.reverse_append, List.dropWhile_append, List.reverse_append]
  split
  · next hempty =>
    rw [trimEnd, List.isEmpty_iff.1 hempty]
    simp [hc]
  · simp [trimEnd]

/-- Behind its last character a text that is not to be trimmed there stays as it is. -/
theorem trimBy_append_singleton (hc : p c = false) (u : List Char) :
    trimBy p (u ++ [c]) = trimStart p u ++ [c] := by
  have hstart : trimStart p (u ++ [c]) = trimStart p u ++ [c] := by
    rw [trimStart, List.dropWhile_append, trimStart]
    split
    · next hempty =>
      rw [List.isEmpty_iff.1 hempty]
      simp [hc]
    · rfl
  have hend := trimEnd_append (p := p) (u := trimStart p u ++ [c]) ⟨c, by simp, hc⟩ []
  rw [List.append_nil] at hend
  rw [trimBy, hstart, hend]
  exact List.append_nil _

theorem trimEnd_eq_nil_iff : trimEnd p s = [] ↔ ∀ c ∈ s, p c = true := by
  simp [trimEnd, List.dropWhile_eq_nil_iff]

theorem trimEnd_cons (h : ¬∀ d ∈ c :: s, p d = true) :
    trimEnd p (c :: s) = c :: trimEnd p s := by
  rw [trimEnd, List.reverse_cons, List.dropWhile_append]
  split
  · next hempty =>
    have hs := trimEnd_eq_nil_iff.1 (congrArg List.reverse (List.isEmpty_iff.1 hempty))
    have hc : p c = false := by
      rw [List.forall_mem_cons] at h
      simpa using fun hc => h ⟨hc, hs⟩
    rw [trimEnd_eq_nil_iff.2 hs]
    simp [hc]
  · rw [List.reverse_append]
    rfl

theorem trimBy_eq_nil_iff : trimBy p s = [] ↔ ∀ c ∈ s, p c = true := by
  rw [trimBy, trimEnd_eq_nil_iff, trimStart]
  constructor
  · intro h
    rw [← List.dropWhile_eq_nil_iff]
    by_contra hne
    have hhead := List.head_dropWhile_not p hne
    rw [h _ (List.head_mem hne)] at hhead
    cases hhead
  · exact fun h c hc => h c (List.dropWhile_sublist p |>.subset hc)

theorem trimEnd_append_right (h : ∀ c ∈ b, p c = true) (s : List Char) :
    trimEnd p (s ++ b) = trimEnd p s := by
  rw [trimEnd, List.reverse_append, List.dropWhile_append_of_pos, trimEnd]
  simpa using h

theorem trimBy_append_right (h : ∀ c ∈ b, p c = true) (s : List Char) :
    trimBy p (s ++ b) = trimBy p s := by
  rw [trimBy, trimStart, List.dropWhile_append, trimBy, trimStart]
  split
  · next hempty =>
    rw [List.isEmpty_iff.1 hempty, List.dropWhile_eq_nil_iff.2 h]
  · exact trimEnd_append_right h _

theorem exists_trimEnd_append (p : Char → Bool) (s : List Char) :
    ∃ b, s = trimEnd p s ++ b ∧ ∀ c ∈ b, p c = true := by
  refine ⟨(s.reverse.takeWhile p).reverse, ?_, fun c hc => ?_⟩
  · rw [trimEnd, ← List.reverse_append, List.takeWhile_append_dropWhile, List.reverse_reverse]
  · exact List.mem_takeWhile_imp (List.mem_reverse.1 hc)

theorem exists_trimBy_append (p : Char → Bool) (s : List Char) :
    ∃ b b', s = b ++ (trimBy p s ++ b') ∧ (∀ c ∈ b, p c = true) ∧ ∀ c ∈ b', p c = true := by
  obtain ⟨b', hb', hall⟩ := exists_trimEnd_append p (trimStart p s)
  refine ⟨s.takeWhile p, b', ?_, fun c hc => List.mem_takeWhile_imp hc, hall⟩
  rw [trimBy, ← hb', trimStart, List.takeWhile_append_dropWhile]

theorem trimBy_trimBy (p : Char → Bool) (s : List Char) : trimBy p (trimBy p s) = trimBy p s := by
  obtain ⟨b, b', hs, hb, hb'⟩ := exists_trimBy_append p s
  calc trimBy p (trimBy p s) = trimBy p (b ++ (trimBy p s ++ b')) := by
        rw [trimBy_append hb, trimBy_append_right hb']
    _ = trimBy p s := by rw [← hs]

end TableQuery.Text
