import TableQuery.Error

/-! # Computations that may fail

What a sequence of steps, a map and a filter over a list answer when no step fails. -/

namespace TableQuery

variable {ε α β γ : Type}

theorem except_bind_eq_ok {m : Except ε α} {f : α → Except ε β} {b : β} :
    m >>= f = .ok b ↔ ∃ a, m = .ok a ∧ f a = .ok b := by
  cases m with
  | error e =>
      constructor
      · intro h
        cases h
      · rintro ⟨a, h, _⟩
        cases h
  | ok a =>
      constructor
      · exact fun h => ⟨a, rfl, h⟩
      · rintro ⟨a, h, hf⟩
        cases h
        exact hf

theorem except_bind_eq_error {m : Except ε α} {f : α → Except ε β} {e : ε} :
    m >>= f = .error e ↔ m = .error e ∨ ∃ a, m = .ok a ∧ f a = .error e := by
  cases m with
  | error e' =>
      constructor
      · intro h
        cases h
        exact .inl rfl
      · rintro (h | ⟨a, h, _⟩)
        · cases h
          rfl
        · cases h
  | ok a =>
      constructor
      · exact fun h => .inr ⟨a, rfl, h⟩
      · rintro (h | ⟨a, h, hf⟩)
        · cases h
        · cases h
          exact hf

/-- Where nothing fails behind a computation, a failure is its own. -/
theorem error_of_bind_eq_error {m : Except ε α} {f : α → Except ε β} {e : ε}
    (hf : ∀ a, ∃ b, f a = .ok b) (h : m >>= f = .error e) : m = .error e := by
  rcases except_bind_eq_error.1 h with h | ⟨a, -, h⟩
  · exact h
  · obtain ⟨b, hb⟩ := hf a
    cases hb.symm.trans h

theorem except_map_eq_ok {m : Except ε α} {f : α → β} {b : β} :
    f <$> m = .ok b ↔ ∃ a, m = .ok a ∧ f a = b := by
  cases m with
  | error e =>
      constructor
      · intro h
        cases h
      · rintro ⟨a, h, _⟩
        cases h
  | ok a =>
      constructor
      · intro h
        cases h
        exact ⟨a, rfl, rfl⟩
      · rintro ⟨a, h, rfl⟩
        cases h
        rfl

theorem except_map_eq_error {m : Except ε α} {f : α → β} {e : ε} :
    m.map f = .error e ↔ m = .error e := by
  cases m with
  | error e' => rw [Except.map, Except.error.injEq, Except.error.injEq]
  | ok a => exact ⟨nofun, nofun⟩

theorem mapM_cons_eq_ok {f : α → Except ε β} {a : α} {l : List α} {bs : List β} :
    (a :: l).mapM f = .ok bs ↔ ∃ b rest, f a = .ok b ∧ l.mapM f = .ok rest ∧ bs = b :: rest := by
  rw [List.mapM_cons, except_bind_eq_ok]
  constructor
  · rintro ⟨b, hb, h⟩
    obtain ⟨rest, hrest, h⟩ := except_bind_eq_ok.1 h
    cases h
    exact ⟨b, rest, hb, hrest, rfl⟩
  · rintro ⟨b, rest, hb, hrest, rfl⟩
    exact ⟨b, hb, except_bind_eq_ok.2 ⟨rest, hrest, rfl⟩⟩

/-- If a map over a list succeeds, it succeeds on each member. -/
theorem ok_of_mapM_eq_ok {f : α → Except ε β} {l : List α} {bs : List β}
    (h : l.mapM f = .ok bs) {a : α} (ha : a ∈ l) : ∃ b, f a = .ok b := by
  induction l generalizing bs with
  | nil => simp at ha
  | cons c l ih =>
      obtain ⟨b, rest, hb, hrest, -⟩ := mapM_cons_eq_ok.1 h
      rcases List.mem_cons.1 ha with rfl | ha
      · exact ⟨b, hb⟩
      · exact ih hrest ha

theorem length_of_mapM_eq_ok {f : α → Except ε β} {l : List α} {bs : List β}
    (h : l.mapM f = .ok bs) : bs.length = l.length := by
  induction l generalizing bs with
  | nil =>
      cases h
      rfl
  | cons c l ih =>
      obtain ⟨b, rest, -, hrest, rfl⟩ := mapM_cons_eq_ok.1 h
      rw [List.length_cons, List.length_cons, ih hrest]

/-- The answer of a computation, or a default where it fails. -/
def answerOr (default : α) : Except ε α → α
  | .ok a => a
  | .error _ => default

theorem eq_ok_answerOr {m : Except ε α} (d : α) (h : ∃ a, m = .ok a) :
    m = .ok (answerOr d m) := by
  obtain ⟨a, rfl⟩ := h
  rfl

theorem mapM_eq_ok_map {f : α → Except ε β} {g : α → β} {l : List α}
    (h : ∀ a ∈ l, f a = .ok (g a)) : l.mapM f = .ok (l.map g) := by
  induction l with
  | nil => rfl
  | cons a l ih =>
      rw [mapM_cons_eq_ok]
      exact ⟨g a, l.map g, h a (by simp), ih fun b hb => h b (by simp [hb]), rfl⟩

theorem eq_map_answerOr {f : α → Except ε β} {l : List α} {bs : List β} (d : β)
    (h : l.mapM f = .ok bs) : bs = l.map fun a => answerOr d (f a) := by
  have hmap := mapM_eq_ok_map fun a ha => eq_ok_answerOr d (ok_of_mapM_eq_ok h ha)
  exact Except.ok.inj (h.symm.trans hmap)

theorem mapM_map_eq_ok {f : α → Except ε β} (g : β → γ) {l : List α} {bs : List β}
    (h : l.mapM f = .ok bs) : (l.mapM fun a => g <$> f a) = .ok (bs.map g) := by
  induction l generalizing bs with
  | nil =>
      cases h
      rfl
  | cons a l ih =>
      obtain ⟨b, rest, hb, hrest, rfl⟩ := mapM_cons_eq_ok.1 h
      exact mapM_cons_eq_ok.2 ⟨g b, rest.map g, except_map_eq_ok.2 ⟨b, hb, rfl⟩, ih hrest, rfl⟩

/-- What a map makes of the members can be undone. -/
theorem map_of_mapM_eq_ok {f : α → Except ε β} {g : β → α} {l : List α} {bs : List β}
    (hg : ∀ a b, f a = .ok b → g b = a) (h : l.mapM f = .ok bs) : bs.map g = l := by
  induction l generalizing bs with
  | nil =>
      cases h
      rfl
  | cons a l ih =>
      obtain ⟨b, rest, hb, hrest, rfl⟩ := mapM_cons_eq_ok.1 h
      rw [List.map_cons, hg a b hb, ih hrest]

theorem mapM_congr_ok {f g : α → Except ε β} {l : List α} (h : ∀ a ∈ l, f a = g a) :
    l.mapM f = l.mapM g := by
  induction l with
  | nil => rfl
  | cons a l ih =>
      rw [List.mapM_cons, List.mapM_cons, h a (by simp), ih fun b hb => h b (by simp [hb])]

theorem filterAuxM_eq (p : α → Except ε Bool) (l acc : List α) :
    l.filterAuxM p acc = (fun kept => kept ++ acc) <$> l.filterAuxM p [] := by
  induction l generalizing acc with
  | nil => rfl
  | cons a l ih =>
      simp only [List.filterAuxM, map_bind]
      congr 1
      funext keep
      cases keep with
      | false => exact ih acc
      | true =>
          simp only [cond]
          rw [ih (a :: acc), ih [a], ← comp_map]
          congr 1
          funext kept
          simp

theorem filterM_cons (p : α → Except ε Bool) (a : α) (l : List α) :
    (a :: l).filterM p = do
      let keep ← p a
      let rest ← l.filterM p
      return if keep then a :: rest else rest := by
  simp only [List.filterM, List.filterAuxM, bind_assoc, pure_bind]
  congr 1
  funext keep
  cases keep with
  | false => simp [cond]
  | true =>
      simp only [cond]
      rw [filterAuxM_eq p l [a], map_eq_pure_bind, bind_assoc]
      simp

/-- Filtering the images of a list filters the list by the images. -/
theorem filterM_map (p : β → Except ε Bool) (g : α → β) (l : List α) :
    (l.map g).filterM p = List.map g <$> l.filterM fun a => p (g a) := by
  induction l with
  | nil => rfl
  | cons a l ih =>
      rw [List.map_cons, filterM_cons, filterM_cons, ih, map_bind]
      congr 1
      funext keep
      rw [map_bind, map_eq_pure_bind, bind_assoc]
      congr 1
      funext rest
      cases keep <;> rfl

theorem filterM_congr_ok {p q : α → Except ε Bool} {l : List α} (h : ∀ a ∈ l, p a = q a) :
    l.filterM p = l.filterM q := by
  induction l with
  | nil => rfl
  | cons a l ih =>
      rw [filterM_cons, filterM_cons, h a (by simp), ih fun b hb => h b (by simp [hb])]

theorem mem_of_filterM_eq_ok {p : α → Except ε Bool} {l kept : List α}
    (h : l.filterM p = .ok kept) {a : α} (ha : a ∈ kept) : a ∈ l := by
  induction l generalizing kept with
  | nil =>
      cases h
      exact ha
  | cons b l ih =>
      rw [filterM_cons] at h
      obtain ⟨keep, -, h⟩ := except_bind_eq_ok.1 h
      obtain ⟨rest, hrest, h⟩ := except_bind_eq_ok.1 h
      cases h
      cases keep with
      | false => exact List.mem_cons_of_mem b (ih hrest ha)
      | true =>
          rcases List.mem_cons.1 ha with rfl | ha
          · exact List.mem_cons_self
          · exact List.mem_cons_of_mem b (ih hrest ha)

end TableQuery
