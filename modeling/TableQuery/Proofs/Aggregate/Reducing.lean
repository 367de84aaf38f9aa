import TableQuery.Proofs.Number.Addition
import TableQuery.Proofs.Query.Meaning

/-!
# What aggregate functions compute

COUNT counts the values that are not NULL, MIN and MAX find a least and a greatest number among
them, and GROUP_CONCAT joins their texts. None of these looks at NULL, and only GROUP_CONCAT depends
on the order of the values.
-/

namespace TableQuery

namespace Number

variable {x y z : Number}

theorem Decimal.text_ne_nil (x : Decimal) : x.text ≠ [] := by
  have hdigits : Nat.toDigits 10 x.digits ≠ [] := Nat.toDigits_ne_nil
  rw [Decimal.text]
  split
  · unfold positional
    split
    · exact List.cons_ne_nil _ _
    · split
      · simp [hdigits]
      · simp
  · simp [scientific]

/-- No number is written as the empty text. -/
theorem text_ne_empty (x : Number) : x.text ≠ "" := by
  rw [text]
  split
  · decide
  split
  · split <;> decide
  split
  · decide
  · intro hempty
    have hnil := congrArg String.toList hempty
    rw [String.toList_ofList] at hnil
    split at hnil
    · cases hnil
    · exact Decimal.text_ne_nil _ hnil

end Number

namespace Value

/-- The value is not NULL and reads as a number. -/
def IsCandidate (v : Value) : Prop := v.isNull = false ∧ v.toNumber.isNan = false

/-- The values are equal, or they are the two zeros. -/
def SameUpToZero (v w : Value) : Prop :=
  v = w ∨ ∃ x y : Number, v = .number x ∧ w = .number y ∧ x.magnitude = 0 ∧ y.magnitude = 0

/-- The value is the number of a candidate, and this number comes first among those of all
candidates; or it is NULL, and there is no candidate. -/
inductive Extreme (precedes : Number → Number → Bool) (values : List Value) : Value → Prop where
  | null (h : ∀ v ∈ values, ¬v.IsCandidate) : Extreme precedes values .null
  | number {v : Value} (hv : v ∈ values) (hcandidate : v.IsCandidate)
      (h : ∀ w ∈ values, w.IsCandidate → precedes v.toNumber w.toNumber = true) :
      Extreme precedes values (.number v.toNumber)

/-- Lists with the same members have the same extreme value, up to the sign of a zero. -/
theorem Extreme.sameUpToZero {precedes : Number → Number → Bool} {values values' : List Value}
    {v w : Value}
    (hanti : ∀ x y, precedes x y = true → precedes y x = true → x.value = y.value)
    (hmem : ∀ v, v ∈ values ↔ v ∈ values') (hv : Extreme precedes values v)
    (hw : Extreme precedes values' w) : v.SameUpToZero w := by
  cases hv with
  | null hnone =>
      cases hw with
      | null => exact .inl rfl
      | number hu hcandidate => exact absurd hcandidate (hnone _ ((hmem _).2 hu))
  | @number u hu hcandidate hfirst =>
      cases hw with
      | null hnone => exact absurd hcandidate (hnone _ ((hmem _).1 hu))
      | @number u' hu' hcandidate' hfirst' =>
          have hvalue := hanti _ _ (hfirst u' ((hmem _).2 hu') hcandidate')
            (hfirst' u ((hmem _).1 hu) hcandidate)
          rcases Number.eq_or_zero_of_value_eq hvalue with heq | hzero
          · exact .inl (congrArg Value.number heq)
          · exact .inr ⟨_, _, rfl, rfl, hzero⟩

theorem toText_eq_empty_iff (v : Value) : v.toText = "" ↔ v.isNull = true := by
  cases v with
  | null => simp [toText, isNull]
  | bool b => cases b <;> simp [toText, isNull]
  | number n => simp [toText, isNull, n.text_ne_empty]
  | text s => simp [toText, isNull]

end Value

namespace AggregateFunction

open Value

variable {better precedes : Number → Number → Bool} {values : List Value} {acc v : Value}

theorem fold_concat (f : AggregateFunction) (values : List Value) (v : Value) :
    f.fold (values ++ [v]) = f.reduce (f.fold values) v := by
  simp [fold]

section Count

theorem fold_count (values : List Value) :
    count.fold values =
      .number ((· + Number.ofNat 1)^[values.countP (!·.isNull)] (Number.ofNat 0)) := by
  induction values using List.reverseRecOn with
  | nil => rfl
  | append_singleton values v ih =>
      rw [fold_concat, ih, List.countP_append, reduce]
      cases hv : v.isNull
      · simp [hv, Function.iterate_succ_apply', toNumber]
      · simp [hv, toNumber]

/-- Counting from zero is exact below `2 ^ 53`. -/
theorem iterate_add_one {n : Nat} (h : n < 2 ^ 53) :
    (· + Number.ofNat 1)^[n] (Number.ofNat 0) = Number.ofNat n := by
  induction n with
  | zero => rfl
  | succ n ih =>
      have hn : n < 2 ^ 53 := Nat.lt_of_succ_lt h
      rw [Function.iterate_succ_apply', ih hn, Number.add_ofNat h]

/-- As long as there are fewer than `2 ^ 53` values, those that are not NULL are counted exactly. -/
theorem isExactly_fold_count (h : values.length < 2 ^ 53) :
    ∃ n, count.fold values = .number n ∧ n.IsExactly (values.countP (!·.isNull)) := by
  have hcount : values.countP (!·.isNull) < 2 ^ 53 := Nat.lt_of_le_of_lt List.countP_le_length h
  refine ⟨_, fold_count values, ?_⟩
  rw [iterate_add_one hcount]
  exact Number.isExactly_ofNat hcount

end Count

section Extremes

/-- One order of numbers is the strict part of the other. -/
structure Prefers (better precedes : Number → Number → Bool) : Prop where
  of_better {x y : Number} (hx : x.isNan = false) (hy : y.isNan = false)
    (h : better x y = true) : precedes x y = true
  of_not_better {x y : Number} (hx : x.isNan = false) (hy : y.isNan = false)
    (h : better x y = false) : precedes y x = true
  trans {x y z : Number} (hxy : precedes x y = true) (hyz : precedes y z = true) :
    precedes x z = true

theorem extremum_null (h : v.IsCandidate) : extremum better .null v = .number v.toNumber := by
  obtain ⟨hnull, hnan⟩ := h
  rw [extremum, hnull, number?, hnan]
  rfl

theorem extremum_number (h : v.IsCandidate) (n : Number) : extremum better (.number n) v =
    .number (if better v.toNumber n then v.toNumber else n) := by
  obtain ⟨hnull, hnan⟩ := h
  rw [extremum, hnull, number?, hnan, apply_ite Value.number]
  rfl

theorem extremum_of_not_isCandidate (h : ¬v.IsCandidate) : extremum better acc v = acc := by
  rw [extremum, number?]
  cases hnull : v.isNull with
  | true => rfl
  | false =>
      have hnan : v.toNumber.isNan = true := by simpa [IsCandidate, hnull] using h
      rw [hnan]
      rfl

theorem Prefers.refl (hp : Prefers better precedes) {x : Number} (hx : x.isNan = false) :
    precedes x x = true := by
  cases hbetter : better x x with
  | true => exact hp.of_better hx hx hbetter
  | false => exact hp.of_not_better hx hx hbetter

/-- One more value takes the place of the extreme one before, or leaves it there. -/
theorem Prefers.extreme_concat (hp : Prefers better precedes) (h : Extreme precedes values acc) :
    Extreme precedes (values ++ [v]) (extremum better acc v) := by
  have hlast : v ∈ values ++ [v] := List.mem_append_right _ List.mem_cons_self
  by_cases hv : v.IsCandidate
  · have hself : ∀ w ∈ [v], w.IsCandidate → precedes v.toNumber w.toNumber = true :=
      List.forall_mem_singleton.2 fun _ => hp.refl hv.2
    cases h with
    | null hnone =>
        rw [extremum_null hv]
        have hfirst : ∀ w ∈ values, w.IsCandidate → precedes v.toNumber w.toNumber = true :=
          fun w hw hcandidate => absurd hcandidate (hnone w hw)
        exact .number hlast hv (List.forall_mem_append.2 ⟨hfirst, hself⟩)
    | @number u hu hcandidate hfirst =>
        rw [extremum_number hv]
        cases hbetter : better v.toNumber u.toNumber with
        | true =>
            have hvu := hp.of_better hv.2 hcandidate.2 hbetter
            exact .number hlast hv (List.forall_mem_append.2
              ⟨fun w hw hw' => hp.trans hvu (hfirst w hw hw'), hself⟩)
        | false =>
            have huv := hp.of_not_better hv.2 hcandidate.2 hbetter
            exact .number (List.mem_append_left _ hu) hcandidate (List.forall_mem_append.2
              ⟨hfirst, List.forall_mem_singleton.2 fun _ => huv⟩)
  · rw [extremum_of_not_isCandidate hv]
    cases h with
    | null hnone =>
        exact .null (List.forall_mem_append.2 ⟨hnone, List.forall_mem_singleton.2 hv⟩)
    | number hu hcandidate hfirst =>
        exact .number (List.mem_append_left _ hu) hcandidate (List.forall_mem_append.2
          ⟨hfirst, List.forall_mem_singleton.2 fun hv' => absurd hv' hv⟩)

theorem Prefers.extreme_foldl (hp : Prefers better precedes) (values : List Value) :
    Extreme precedes values (values.foldl (extremum better) .null) := by
  induction values using List.reverseRecOn with
  | nil => exact .null nofun
  | append_singleton values v ih =>
      rw [List.foldl_append]
      exact hp.extreme_concat ih

theorem prefers_less : Prefers Number.less Number.atMost where
  of_better hx hy h := (Number.atMost_iff hx hy).2 (Int.le_of_lt ((Number.less_iff hx hy).1 h))
  of_not_better hx hy h := by
    rw [Bool.eq_false_iff, ne_eq, Number.less_iff hx hy] at h
    exact (Number.atMost_iff hy hx).2 (Int.not_lt.1 h)
  trans hxy hyz := by
    simp only [Number.atMost, Bool.and_eq_true, decide_eq_true_eq] at *
    exact ⟨⟨hxy.1.1, hyz.1.2⟩, Int.le_trans hxy.2 hyz.2⟩

theorem atMost_antisymm (x y : Number) (hxy : x.atMost y = true) (hyx : y.atMost x = true) :
    x.value = y.value := by
  simp only [Number.atMost, Bool.and_eq_true, decide_eq_true_eq] at hxy hyx
  exact Int.le_antisymm hxy.2 hyx.2

/-- Turning both orders round keeps their relation. -/
theorem Prefers.swap (hp : Prefers better precedes) :
    Prefers (fun x y => better y x) fun x y => precedes y x where
  of_better hx hy h := hp.of_better hy hx h
  of_not_better hx hy h := hp.of_not_better hy hx h
  trans hxy hyz := hp.trans hyz hxy

theorem extreme_fold_min (values : List Value) :
    Extreme Number.atMost values (min.fold values) := prefers_less.extreme_foldl values

theorem extreme_fold_max (values : List Value) :
    Extreme (fun x y => y.atMost x) values (max.fold values) :=
  prefers_less.swap.extreme_foldl values

end Extremes

section Concatenation

/-- The texts of values one after another, those of NULL left out. -/
def joined (values : List Value) : String :=
  String.join ((values.filter (!·.isNull)).map toText)

theorem joined_concat (values : List Value) (v : Value) :
    joined (values ++ [v]) = if v.isNull then joined values else joined values ++ v.toText := by
  rw [joined, List.filter_append, List.map_append, String.join_append]
  cases hv : v.isNull with
  | true => simp [hv, joined]
  | false => simp [hv, joined, String.join_cons]

theorem joined_eq_empty_iff : joined values = "" ↔ ∀ v ∈ values, v.isNull = true := by
  induction values using List.reverseRecOn with
  | nil => simp [joined]
  | append_singleton values v ih =>
      rw [joined_concat, List.forall_mem_append, List.forall_mem_singleton]
      cases hv : v.isNull with
      | true => simpa using ih
      | false =>
          have hne := mt v.toText_eq_empty_iff.1 (Bool.eq_false_iff.1 hv)
          simp [hne]

theorem fold_groupConcat (values : List Value) : groupConcat.fold values =
    if joined values = "" then .null else .text (joined values) := by
  induction values using List.reverseRecOn with
  | nil => rfl
  | append_singleton values v ih =>
      have htext : (if joined values = "" then Value.null else .text (joined values)).toText =
          joined values := by
        split
        · next hempty => exact hempty.symm
        · rfl
      rw [fold_concat, ih, reduce, htext, joined_concat]
      cases hv : v.isNull with
      | true => rfl
      | false =>
          have hne := mt v.toText_eq_empty_iff.1 (Bool.eq_false_iff.1 hv)
          simp [hne]

end Concatenation

section Nulls

theorem reduce_fold_of_isNull {f : AggregateFunction} (hf : f ≠ sum) (hv : v.isNull = true) :
    f.reduce (f.fold values) v = f.fold values := by
  have hskip : ¬v.IsCandidate := fun h => Bool.false_ne_true (h.1.symm.trans hv)
  cases f with
  | count =>
      rw [fold_count, reduce, hv]
      rfl
  | min => exact extremum_of_not_isCandidate hskip
  | max => exact @extremum_of_not_isCandidate (fun x y => y.less x) _ _ hskip
  | sum => exact absurd rfl hf
  | groupConcat =>
      rw [reduce, hv]
      rfl

theorem fold_filter {f : AggregateFunction} (hf : f ≠ sum) (values : List Value) :
    f.fold (values.filter (!·.isNull)) = f.fold values := by
  induction values using List.reverseRecOn with
  | nil => rfl
  | append_singleton values v ih =>
      rw [List.filter_append, fold_concat]
      cases hv : v.isNull with
      | true => simp [hv, ih, reduce_fold_of_isNull hf hv]
      | false => simp [hv, fold_concat, ih]

end Nulls

/-- `COUNT(*)` counts the rows of a group. -/
theorem value_count_star [PatternEngine] (rows : List Row) (id : AggregateId) :
    Aggregate.value rows ⟨count, .star, id⟩ = .ok (count.fold (rows.map fun _ => .text "*")) := by
  have hstar : (rows.mapM fun row => Expr.star.value row) = .ok (rows.map fun _ => .text "*") := by
    induction rows with
    | nil => rfl
    | cons row rows ih =>
        rw [List.mapM_cons, ih]
        rfl
  rw [Aggregate.value, hstar]
  rfl

theorem countP_stars (rows : List Row) :
    (rows.map fun _ => Value.text "*").countP (!·.isNull) = rows.length := by
  rw [List.countP_eq_length.2 fun v hv => ?_, List.length_map]
  obtain ⟨_, -, rfl⟩ := List.mem_map.1 hv
  rfl

/-- COUNT is the number of values that are not NULL, and of all rows for `COUNT(*)`; MIN and MAX are
a least and a greatest number among them, or NULL where there is none; GROUP_CONCAT joins their
texts. Only the last one depends on the order of the values, and NULL changes none of them. -/
theorem fold_computes [PatternEngine] (values : List Value) :
    (values.length < 2 ^ 53 →
      ∃ n, count.fold values = .number n ∧ n.IsExactly (values.countP (!·.isNull))) ∧
    (∀ (rows : List Row) (id : AggregateId), rows.length < 2 ^ 53 →
      ∃ n, Aggregate.value rows ⟨count, .star, id⟩ = .ok (.number n) ∧ n.IsExactly rows.length) ∧
    Extreme Number.atMost values (min.fold values) ∧
    Extreme (fun x y => y.atMost x) values (max.fold values) ∧
    (groupConcat.fold values = .null ↔ ∀ v ∈ values, v.isNull = true) ∧
    ((∃ v ∈ values, v.isNull = false) →
      groupConcat.fold values = .text (joined values) ∧ joined values ≠ "") ∧
    (∀ values', values.Perm values' → count.fold values = count.fold values' ∧
      (min.fold values).SameUpToZero (min.fold values') ∧
      (max.fold values).SameUpToZero (max.fold values')) ∧
    ∀ values', values.filter (!·.isNull) = values'.filter (!·.isNull) →
      ∀ f, f ≠ sum → f.fold values = f.fold values' := by
  refine ⟨isExactly_fold_count, fun rows id h => ?_, extreme_fold_min values,
    extreme_fold_max values, ?_, ?_, fun values' hperm => ⟨?_, ?_, ?_⟩, fun values' h f hf => ?_⟩
  · have hlength : (rows.map fun _ => Value.text "*").length < 2 ^ 53 := by rwa [List.length_map]
    obtain ⟨n, hn, hexactly⟩ := isExactly_fold_count hlength
    rw [value_count_star, hn]
    exact ⟨n, rfl, countP_stars rows ▸ hexactly⟩
  · rw [fold_groupConcat, ← joined_eq_empty_iff]
    simp
  · rintro ⟨v, hv, hnull⟩
    have hne : joined values ≠ "" := fun hempty =>
      Bool.false_ne_true (hnull.symm.trans (joined_eq_empty_iff.1 hempty v hv))
    exact ⟨by rw [fold_groupConcat, if_neg hne], hne⟩
  · rw [fold_count, fold_count, hperm.countP_eq]
  · exact Extreme.sameUpToZero atMost_antisymm (fun v => hperm.mem_iff) (extreme_fold_min values)
      (extreme_fold_min values')
  · exact Extreme.sameUpToZero (fun x y hxy hyx => atMost_antisymm x y hyx hxy)
      (fun v => hperm.mem_iff) (extreme_fold_max values) (extreme_fold_max values')
  · rw [← fold_filter hf values, h, fold_filter hf values']

/-- Numerals in two bases, a text that is no number, and both forms of NULL. -/
theorem fold_computes_mixed :
    let values : List Value := [.text "0x10", .null, .text "abc", .text "", .bool true]
    (∃ n, count.fold values = .number n ∧ n.IsExactly 3) ∧
      (min.fold values).SameUpToZero (min.fold values.reverse) ∧
      groupConcat.fold values = .text (joined values) ∧
      groupConcat.fold values = groupConcat.fold [.text "0x10", .text "abc", .bool true] := by
  intro values
  obtain ⟨hcount, -, -, -, -, hconcat, hperm, hnull⟩ := fold_computes values
  refine ⟨hcount (by decide), (hperm _ (List.reverse_perm _).symm).2.1,
    (hconcat ⟨.text "abc", by simp [values], rfl⟩).1, hnull _ (by rfl) _ (by decide)⟩

end AggregateFunction

end TableQuery
