import Mathlib.Data.Nat.Digits.Defs
import TableQuery.Proofs.Number.Exact
import TableQuery.Proofs.Text.LetterCase
import TableQuery.Proofs.Token.Lexeme
import TableQuery.Value

/-!
# The texts that are numbers

A text is a number, white space around it aside, if it is empty, a word for infinity, an unsigned
integer behind the mark of its base, or a decimal. All other texts are NaN: the reader tries these
forms one after another, and no text has two of them.
-/

namespace TableQuery.Number

/-- The character is the digit of the value in the base; letters may be of either case. -/
def IsDigit (base : Nat) (c : Char) (value : Nat) : Prop :=
  value < base ∧ (c = value.digitChar ∨ c = value.digitChar.toUpper)

/-- The digits stand for the number in the base, the highest digit first. -/
def Denotes (base : Nat) (digits : List Char) (n : Nat) : Prop :=
  ∃ values, List.Forall₂ (IsDigit base) digits values ∧ n = Nat.ofDigits base values.reverse

/-- The letter behind a zero marks the base. -/
inductive Marks : Char → Nat → Prop where
  | hexadecimal {c : Char} (h : c = 'x' ∨ c = 'X') : Marks c 16
  | octal {c : Char} (h : c = 'o' ∨ c = 'O') : Marks c 8
  | binary {c : Char} (h : c = 'b' ∨ c = 'B') : Marks c 2

/-- A sign that may be missing, and whether it is a minus. -/
inductive IsSign : List Char → Bool → Prop where
  | none : IsSign [] false
  | plus : IsSign ['+'] false
  | minus : IsSign ['-'] true

/-- The fraction of a decimal, and its digits. -/
inductive IsFraction : List Char → List Char → Prop where
  | none : IsFraction [] []
  | point (digits : List Char) : IsFraction ('.' :: digits) digits

/-- The exponent of a decimal, and its value. -/
inductive IsExponent : List Char → Int → Prop where
  | none : IsExponent [] 0
  | mark {c : Char} {sign digits : List Char} {negative : Bool} {n : Nat} (hc : c = 'e' ∨ c = 'E')
      (hsign : IsSign sign negative) (hne : digits ≠ []) (hdigits : Denotes 10 digits n) :
      IsExponent (c :: (sign ++ digits)) (if negative then -n else n)

/-- An unsigned decimal, and its value: there is a digit in front of the point or behind it. -/
inductive IsDecimal : List Char → Decimal → Prop where
  | mk {whole fraction digits exponent : List Char} {n : Nat} {e : Int}
      (hfraction : IsFraction fraction digits) (hne : whole ++ digits ≠ [])
      (hdigits : Denotes 10 (whole ++ digits) n) (hexponent : IsExponent exponent e) :
      IsDecimal (whole ++ (fraction ++ exponent)) ⟨n, e - digits.length⟩

/-- A text that is a number, without white space around it. -/
inductive IsNumeral : List Char → Prop where
  | empty : IsNumeral []
  | infinity {sign : List Char} {negative : Bool} (hsign : IsSign sign negative) :
      IsNumeral (sign ++ "Infinity".toList)
  | based {c : Char} {base n : Nat} {digits : List Char} (hc : Marks c base) (hne : digits ≠ [])
      (hdigits : Denotes base digits n) : IsNumeral ('0' :: c :: digits)
  | decimal {sign s : List Char} {negative : Bool} {x : Decimal} (hsign : IsSign sign negative)
      (h : IsDecimal s x) : IsNumeral (sign ++ s)

variable {base value m n : Nat} {c : Char} {s sign digits rest exponent : List Char} {e : Int}
  {x : Decimal} {negative : Bool}

section Digits

/-- Where the digits below sixteen stand among the characters. -/
theorem digitChar_eq (h : value < 16) :
    value.digitChar = Char.ofNat (if value < 10 then value + 48 else value + 87) ∧
      value.digitChar.toUpper = Char.ofNat (if value < 10 then value + 48 else value + 55) := by
  interval_cases value <;> decide

theorem digitValue?_eq_some_iff (hbase : base ≤ 16) :
    digitValue? base c = some value ↔ IsDigit base c value := by
  rw [digitValue?, IsDigit, Option.filter_eq_some_iff, decide_eq_true_eq, and_comm]
  refine and_congr_right fun hvalue => ?_
  have hlt : value < 16 := Nat.lt_of_lt_of_le hvalue hbase
  obtain ⟨hlower, hupper⟩ := digitChar_eq hlt
  rw [hupper, hlower]
  constructor
  · intro h
    have hc : ∀ {n}, c.toNat = n → c = Char.ofNat n := fun hn => by rw [← hn, Char.ofNat_toNat]
    split at h
    · next hdigit =>
      have hrange := Token.isDigit_iff.1 hdigit
      obtain rfl := Option.some.inj h
      exact .inl (hc (by split <;> omega))
    split at h
    · next hletter =>
      have hrange : 97 ≤ c.toNat ∧ c.toNat ≤ 122 := by
        simpa [Char.isLower, UInt32.le_iff_toNat_le] using hletter
      obtain rfl := Option.some.inj h
      exact .inl (hc (by split <;> omega))
    split at h
    · next hletter =>
      have hrange : 65 ≤ c.toNat ∧ c.toNat ≤ 90 := by
        simpa [Char.isUpper, UInt32.le_iff_toNat_le] using hletter
      obtain rfl := Option.some.inj h
      exact .inr (hc (by split <;> omega))
    · cases h
  · intro h
    clear hvalue hlower hupper
    interval_cases value <;> rcases h with rfl | rfl <;> rfl

theorem isDigit_ten_iff : IsDigit 10 c value ↔ c.isDigit = true ∧ c.toNat - 48 = value := by
  constructor
  · rintro ⟨hvalue, hc⟩
    interval_cases value <;> rcases hc with rfl | rfl <;> decide
  · rintro ⟨hc, rfl⟩
    have hrange := Token.isDigit_iff.1 hc
    have hlt : c.toNat - 48 < 10 := by omega
    obtain ⟨hlower, -⟩ := digitChar_eq (Nat.lt_trans hlt (by decide))
    refine ⟨hlt, .inl ?_⟩
    rw [hlower, if_pos hlt, Nat.sub_add_cancel hrange.1, Char.ofNat_toNat]

/-- The number that digits with these values stand for, behind digits that stand for `n`. -/
def extend (base n : Nat) (values : List Nat) : Nat :=
  values.foldl (fun n value => n * base + value) n

theorem ofDigits_reverse (base : Nat) (values : List Nat) :
    Nat.ofDigits base values.reverse = extend base 0 values := by
  rw [Nat.ofDigits_eq_foldr, List.foldr_reverse, extend]
  exact congrArg (List.foldl · 0 values) (funext₂ fun n value => by
    rw [Nat.cast_id, Nat.mul_comm, Nat.add_comm])

theorem le_extend (hbase : 0 < base) (n : Nat) (values : List Nat) : n ≤ extend base n values := by
  induction values generalizing n with
  | nil => exact le_rfl
  | cons value values ih =>
      calc n ≤ n * base := Nat.le_mul_of_pos_right n hbase
        _ ≤ n * base + value := Nat.le_add_right _ _
        _ ≤ extend base n (value :: values) := ih _

/-- Decimal digits are read as the number that they stand for. -/
theorem denotes_ten_iff :
    Denotes 10 digits n ↔ (∀ c ∈ digits, c.isDigit = true) ∧ n = naturalOfDigits digits := by
  have hnatural : naturalOfDigits digits = extend 10 0 (digits.map (·.toNat - 48)) := by
    rw [naturalOfDigits, extend, List.foldl_map]
    exact congrArg (List.foldl · 0 digits) (funext₂ fun n c => by rw [Nat.mul_comm])
  have hvalues : ∀ values, List.Forall₂ (IsDigit 10) digits values ↔
      (∀ c ∈ digits, c.isDigit = true) ∧ digits.map (·.toNat - 48) = values := by
    intro values
    rw [← List.forall₂_eq_eq_eq, List.forall₂_map_left_iff, ← List.forall₂_and_left]
    exact ⟨.imp fun _ _ => isDigit_ten_iff.1, .imp fun _ _ => isDigit_ten_iff.2⟩
  rw [Denotes, hnatural]
  simp only [hvalues, ofDigits_reverse]
  constructor
  · rintro ⟨values, ⟨hdigits, rfl⟩, rfl⟩
    exact ⟨hdigits, rfl⟩
  · rintro ⟨hdigits, rfl⟩
    exact ⟨_, ⟨hdigits, rfl⟩, rfl⟩

end Digits

section Based

/-- The magnitude read once a digit is added. -/
def pushDigit (base magnitude value : Nat) : Nat :=
  nearestMagnitude (unitsOfMagnitude magnitude * base + value * unitsPerOne) 1

theorem ofDigits_eq (base : Nat) (digits : List Char) :
    ofDigits base digits =
      (digits.foldlM (fun magnitude c => (digitValue? base c).map (pushDigit base magnitude))
        0).elim nan (ofMagnitude false) := by
  simp only [ofDigits]
  split
  · next hread => exact (congrArg (·.elim nan (ofMagnitude false)) hread).symm
  · next hread => exact (congrArg (·.elim nan (ofMagnitude false)) hread).symm

theorem foldlM_digits_eq_some_iff (hbase : base ≤ 16) {magnitude result : Nat} :
    digits.foldlM (fun magnitude c => (digitValue? base c).map (pushDigit base magnitude))
        magnitude = some result ↔
      ∃ values, List.Forall₂ (IsDigit base) digits values ∧
        result = values.foldl (pushDigit base) magnitude := by
  induction digits generalizing magnitude with
  | nil => simp [eq_comm]
  | cons c digits ih =>
      simp only [List.foldlM_cons, Option.bind_eq_bind, Option.bind_eq_some_iff,
        Option.map_eq_some_iff, digitValue?_eq_some_iff hbase, ih]
      constructor
      · rintro ⟨_, ⟨value, hvalue, rfl⟩, values, hvalues, rfl⟩
        exact ⟨value :: values, .cons hvalue hvalues, rfl⟩
      · rintro ⟨values, hvalues, rfl⟩
        cases hvalues with
        | cons hvalue hvalues => exact ⟨_, ⟨_, hvalue, rfl⟩, _, hvalues, rfl⟩

theorem nearestMagnitude_le (n d : Nat) : nearestMagnitude n d ≤ infiniteMagnitude :=
  Nat.min_le_right _ _

theorem foldl_pushDigit_le (hm : m ≤ infiniteMagnitude) (values : List Nat) :
    values.foldl (pushDigit base) m ≤ infiniteMagnitude := by
  induction values generalizing m with
  | nil => exact hm
  | cons value values ih => exact ih (nearestMagnitude_le _ _)

/-- As long as the number is below `2 ^ 53`, no digit is rounded away. -/
theorem unitsOfMagnitude_foldl_pushDigit (hbase : 0 < base) {values : List Nat}
    (hunits : unitsOfMagnitude m = n * unitsPerOne) (h : extend base n values < 2 ^ 53) :
    unitsOfMagnitude (values.foldl (pushDigit base) m) = extend base n values * unitsPerOne := by
  induction values generalizing m n with
  | nil => exact hunits
  | cons value values ih =>
      -- what is read so far is no larger than the whole number, so it is not rounded either
      refine ih ?_ h
      obtain ⟨m', hm', hunits'⟩ := exists_magnitude
        (Nat.lt_of_le_of_lt (le_extend hbase (n * base + value) values) h)
      have hsum : unitsOfMagnitude m * base + value * unitsPerOne = unitsOfMagnitude m' := by
        rw [hunits, hunits', Nat.mul_right_comm, ← Nat.add_mul]
      rw [pushDigit, hsum, nearestMagnitude_unitsOfMagnitude hm'.le, hunits']

theorem isNan_nan : nan.isNan = true := by decide

theorem isNan_ofMagnitude (negative : Bool) (h : m ≤ infiniteMagnitude) :
    (ofMagnitude negative m).isNan = false := by
  rw [isNan, magnitude_ofMagnitude negative h]
  exact decide_eq_false (Nat.not_lt.2 h)

/-- Digits are read as a number that is finite or infinite, and exactly below `2 ^ 53`. -/
theorem ofDigits_of_denotes (hpos : 0 < base) (hbase : base ≤ 16) (h : Denotes base digits n) :
    (ofDigits base digits).isNan = false ∧
      (n < 2 ^ 53 → (ofDigits base digits).IsExactly n) := by
  obtain ⟨values, hvalues, rfl⟩ := h
  have hread : ofDigits base digits = ofMagnitude false (values.foldl (pushDigit base) 0) := by
    rw [ofDigits_eq, (foldlM_digits_eq_some_iff hbase).2 ⟨values, hvalues, rfl⟩]
    rfl
  have hle : values.foldl (pushDigit base) 0 ≤ infiniteMagnitude :=
    foldl_pushDigit_le (Nat.zero_le infiniteMagnitude) values
  rw [hread, ofDigits_reverse]
  refine ⟨isNan_ofMagnitude false hle, fun hlt => ?_⟩
  have hunits := unitsOfMagnitude_foldl_pushDigit hpos
    (show unitsOfMagnitude 0 = 0 * unitsPerOne by rw [Nat.zero_mul]; rfl) hlt
  obtain ⟨m, hm, hunits'⟩ := exists_magnitude hlt
  rw [unitsOfMagnitude_strictMono.injective (hunits.trans hunits'.symm), IsExactly,
    magnitude_ofMagnitude false hm.le, value, units, isNegative_ofMagnitude false hm.le,
    magnitude_ofMagnitude false hm.le, hunits']
  exact ⟨hm, rfl⟩

theorem exists_denotes (hbase : base ≤ 16) (h : (ofDigits base digits).isNan = false) :
    ∃ n, Denotes base digits n := by
  rw [ofDigits_eq] at h
  cases hfold : digits.foldlM (fun magnitude c =>
      (digitValue? base c).map (pushDigit base magnitude)) 0 with
  | none =>
      rw [hfold, Option.elim_none, isNan_nan] at h
      cases h
  | some result =>
      obtain ⟨values, hvalues, -⟩ := (foldlM_digits_eq_some_iff hbase).1 hfold
      exact ⟨_, values, hvalues, rfl⟩

theorem eq_or_eq_of_toLower {d e : Char} (hc : c.toLower = d) (hde : d.toNat = e.toNat + 32) :
    c = d ∨ c = e := by
  rcases Text.toLower_cases c with hlower | hlower
  · exact .inl (hlower.symm.trans hc)
  · exact .inr (Char.toNat_inj.1 (by rw [hc] at hlower; omega))

theorem base?_eq_some_iff : base? c = some base ↔ Marks c base := by
  constructor
  · intro h
    unfold base? at h
    split at h
    · next hc =>
      cases h
      exact .hexadecimal (eq_or_eq_of_toLower hc rfl)
    · next hc =>
      cases h
      exact .octal (eq_or_eq_of_toLower hc rfl)
    · next hc =>
      cases h
      exact .binary (eq_or_eq_of_toLower hc rfl)
    · cases h
  · intro h
    cases h with
    | hexadecimal h => rcases h with rfl | rfl <;> rfl
    | octal h => rcases h with rfl | rfl <;> rfl
    | binary h => rcases h with rfl | rfl <;> rfl

theorem Marks.bounds (h : Marks c base) : 0 < base ∧ base ≤ 16 := by
  cases h <;> decide

end Based

section Decimals

theorem exists_isSign (s : List Char) :
    ∃ sign, s = sign ++ (splitSign s).2 ∧ IsSign sign (splitSign s).1 := by
  unfold splitSign
  split
  · exact ⟨['-'], rfl, .minus⟩
  · exact ⟨['+'], rfl, .plus⟩
  · exact ⟨[], rfl, .none⟩

theorem splitSign_append (hsign : IsSign sign negative) (hs : ∀ c ∈ s.head?, c ≠ '-' ∧ c ≠ '+') :
    splitSign (sign ++ s) = (negative, s) := by
  cases hsign with
  | none =>
      rw [List.nil_append]
      unfold splitSign
      split
      · exact absurd rfl (hs '-' rfl).1
      · exact absurd rfl (hs '+' rfl).2
      · rfl
  | plus => rfl
  | minus => rfl

theorem head?_digits (h : ∀ c ∈ digits, c.isDigit = true) :
    ∀ c ∈ digits.head?, c ≠ '-' ∧ c ≠ '+' := by
  intro c hc
  have hdigit := h c (List.mem_of_head? hc)
  constructor
  · rintro rfl
    cases hdigit
  · rintro rfl
    cases hdigit

theorem exponent?_eq_some_iff : exponent? s = some e ↔ IsExponent s e := by
  cases s with
  | nil =>
      constructor
      · intro h
        cases h
        exact .none
      · intro h
        cases h
        rfl
  | cons c rest =>
      constructor
      · intro h
        obtain ⟨sign, hrest, hsign⟩ := exists_isSign rest
        simp only [exponent?] at h
        generalize splitSign rest = split at *
        obtain ⟨negative, digits⟩ := split
        split at h
        · next hcond =>
          cases h
          simp only [Bool.and_eq_true, Bool.or_eq_true, decide_eq_true_eq, List.all_eq_true]
            at hcond
          rw [hrest]
          exact .mark hcond.1.1 hsign hcond.1.2 (denotes_ten_iff.2 ⟨hcond.2, rfl⟩)
        · cases h
      · intro h
        cases h with
        | mark hc hsign hne hdigits =>
            obtain ⟨hall, rfl⟩ := denotes_ten_iff.1 hdigits
            simp only [exponent?, splitSign_append hsign (head?_digits hall)]
            refine if_pos ?_
            simp only [Bool.and_eq_true, Bool.or_eq_true, decide_eq_true_eq, List.all_eq_true]
            exact ⟨⟨hc, hne⟩, hall⟩

theorem IsExponent.head_not_digit (h : IsExponent s e) : ∀ c ∈ s.head?, c.isDigit = false := by
  cases h with
  | none => nofun
  | mark hc _ _ _ => rcases hc with rfl | rfl <;> simp

/-- The digits behind a point at the front, and what follows them. -/
def splitFraction : List Char → List Char × List Char
  | '.' :: rest => splitDigits rest
  | rest => ([], rest)

theorem decimal?_eq (s : List Char) :
    decimal? s =
      let (whole, rest) := splitDigits s
      let (digits, exponent) := splitFraction rest
      if whole ++ digits = [] then none
      else (exponent? exponent).map fun e =>
        ⟨naturalOfDigits (whole ++ digits), e - digits.length⟩ := by
  change (do
    guard ((splitDigits s).1 ++ (splitFraction (splitDigits s).2).1 ≠ [])
    let e ← exponent? (splitFraction (splitDigits s).2).2
    return (⟨naturalOfDigits ((splitDigits s).1 ++ (splitFraction (splitDigits s).2).1),
      e - (splitFraction (splitDigits s).2).1.length⟩ : Decimal)) = _
  by_cases hne : (splitDigits s).1 ++ (splitFraction (splitDigits s).2).1 = []
  · simp [hne]
  · simp only [guard, hne, ne_eq, not_false_eq_true, if_true, if_false]
    cases exponent? (splitFraction (splitDigits s).2).2
    · rfl
    · rfl

theorem splitDigits_spec (s : List Char) :
    s = (splitDigits s).1 ++ (splitDigits s).2 ∧ ∀ c ∈ (splitDigits s).1, c.isDigit = true :=
  ⟨List.takeWhile_append_dropWhile.symm, fun _ hc => List.mem_takeWhile_imp hc⟩

theorem exists_isFraction (s : List Char) : ∃ fraction, s = fraction ++ (splitFraction s).2 ∧
    IsFraction fraction (splitFraction s).1 ∧ ∀ c ∈ (splitFraction s).1, c.isDigit = true := by
  unfold splitFraction
  split
  · next rest =>
    obtain ⟨hrest, hdigits⟩ := splitDigits_spec rest
    exact ⟨'.' :: (splitDigits rest).1, congrArg (List.cons '.') hrest, .point _, hdigits⟩
  · exact ⟨[], rfl, .none, nofun⟩

theorem splitFraction_append {fraction : List Char} (h : IsFraction fraction digits)
    (hdigits : ∀ c ∈ digits, c.isDigit = true) (hexponent : IsExponent exponent e) :
    splitFraction (fraction ++ exponent) = (digits, exponent) := by
  cases h with
  | none =>
      cases hexponent with
      | none => rfl
      | mark hc _ _ _ => rcases hc with rfl | rfl <;> rfl
  | point => exact Token.splitDigits_append hdigits hexponent.head_not_digit

theorem IsFraction.head_not_digit {fraction : List Char} (h : IsFraction fraction digits)
    (hexponent : IsExponent exponent e) :
    ∀ c ∈ (fraction ++ exponent).head?, c.isDigit = false := by
  cases h with
  | none => exact hexponent.head_not_digit
  | point => simp

theorem decimal?_eq_some_iff : decimal? s = some x ↔ IsDecimal s x := by
  rw [decimal?_eq]
  constructor
  · intro h
    obtain ⟨hs, hwhole⟩ := splitDigits_spec s
    obtain ⟨fraction, hrest, hfraction, hdigits⟩ := exists_isFraction (splitDigits s).2
    simp only at h
    split at h
    · cases h
    · next hne =>
      obtain ⟨e, he, rfl⟩ := Option.map_eq_some_iff.1 h
      have hall := List.forall_mem_append.2 ⟨hwhole, hdigits⟩
      have hdecimal := IsDecimal.mk hfraction hne (denotes_ten_iff.2 ⟨hall, rfl⟩)
        (exponent?_eq_some_iff.1 he)
      rwa [← hrest, ← hs] at hdecimal
  · rintro ⟨hfraction, hne, hdigits, hexponent⟩
    obtain ⟨hall, rfl⟩ := denotes_ten_iff.1 hdigits
    obtain ⟨hwhole, hall⟩ := List.forall_mem_append.1 hall
    simp only [Token.splitDigits_append hwhole (hfraction.head_not_digit hexponent),
      splitFraction_append hfraction hall hexponent, exponent?_eq_some_iff.2 hexponent,
      if_neg hne]
    rfl

/-- The characters of decimals. -/
def IsDecimalPart (c : Char) : Prop :=
  c.isDigit = true ∨ c = '.' ∨ c = 'e' ∨ c = 'E' ∨ c = '+' ∨ c = '-'

theorem IsSign.isDecimalPart (h : IsSign sign negative) : ∀ c ∈ sign, IsDecimalPart c := by
  cases h <;> simp [IsDecimalPart]

theorem IsExponent.isDecimalPart (h : IsExponent s e) : ∀ c ∈ s, IsDecimalPart c := by
  cases h with
  | none => nofun
  | mark hc hsign hne hdigits =>
      have hmark : ∀ {c}, c = 'e' ∨ c = 'E' → IsDecimalPart c := by
        rintro c (rfl | rfl) <;> simp [IsDecimalPart]
      rw [List.forall_mem_cons, List.forall_mem_append]
      exact ⟨hmark hc, hsign.isDecimalPart, fun c hc => .inl ((denotes_ten_iff.1 hdigits).1 c hc)⟩

theorem IsDecimal.isDecimalPart (h : IsDecimal s x) : ∀ c ∈ s, IsDecimalPart c := by
  obtain ⟨hfraction, hne, hdigits, hexponent⟩ := h
  obtain ⟨hwhole, hall⟩ := List.forall_mem_append.1 (denotes_ten_iff.1 hdigits).1
  rw [List.forall_mem_append, List.forall_mem_append]
  refine ⟨fun c hc => .inl (hwhole c hc), ?_, hexponent.isDecimalPart⟩
  cases hfraction with
  | none => nofun
  | point => exact List.forall_mem_cons.2 ⟨.inr (.inl rfl), fun c hc => .inl (hall c hc)⟩

theorem IsDecimal.exists_head (h : IsDecimal s x) :
    ∃ c, s.head? = some c ∧ (c.isDigit = true ∨ c = '.') := by
  obtain @⟨whole, fraction, digits, exponent, n, e, hfraction, hne, hdigits, hexponent⟩ := h
  have hwhole := (List.forall_mem_append.1 (denotes_ten_iff.1 hdigits).1).1
  cases whole with
  | nil =>
      cases hfraction with
      | none => exact absurd rfl hne
      | point => exact ⟨'.', rfl, .inr rfl⟩
  | cons c whole => exact ⟨c, rfl, .inl (hwhole c List.mem_cons_self)⟩

end Decimals

section Numerals

theorem not_marks_of_isDecimalPart (h : IsDecimalPart c) : ¬Marks c base := by
  intro hmarks
  have hletter : c = 'x' ∨ c = 'X' ∨ c = 'o' ∨ c = 'O' ∨ c = 'b' ∨ c = 'B' := by
    cases hmarks with
    | hexadecimal h => exact h.imp_right .inl
    | octal h => exact .inr (.inr (h.imp_right .inl))
    | binary h => exact .inr (.inr (.inr (.inr h)))
  rcases hletter with rfl | rfl | rfl | rfl | rfl | rfl <;> simp [IsDecimalPart] at h

theorem nearest_le (x : Decimal) : x.nearest ≤ infiniteMagnitude := by
  rw [Decimal.nearest]
  split
  · exact Nat.zero_le _
  split
  · exact le_rfl
  · exact nearestMagnitude_le _ _

theorem ofPrefixed?_eq_none (h : ∀ c ∈ s, IsDecimalPart c) : ofPrefixed? s = none := by
  unfold ofPrefixed?
  split
  · next letter digits =>
    cases hbase : base? letter with
    | none => rfl
    | some base =>
        have hpart := h letter (List.mem_cons_of_mem _ List.mem_cons_self)
        exact absurd (base?_eq_some_iff.1 hbase) (not_marks_of_isDecimalPart hpart)
  · rfl

/-- Behind its sign, a decimal is read as the number nearest to it. -/
theorem ofDecimalText_decimal (hsign : IsSign sign negative) (h : IsDecimal s x) :
    ofDecimalText (sign ++ s) = ofMagnitude negative x.nearest := by
  obtain ⟨c, hhead, hc⟩ := h.exists_head
  have hsplit : splitSign (sign ++ s) = (negative, s) := by
    refine splitSign_append hsign fun d hd => ?_
    obtain rfl := Option.some.inj (hhead.symm.trans hd)
    constructor
    · rintro rfl
      simp at hc
    · rintro rfl
      simp at hc
  rw [ofDecimalText, parse?, hsplit]
  simp only [decimal?_eq_some_iff.2 h, Option.getD_some]

theorem isForeignLetter_eq_false (h : IsDecimalPart c) : isForeignLetter c = false := by
  rcases h with h | rfl | rfl | rfl | rfl | rfl
  · have halpha : c.isAlpha = false := by
      refine Bool.eq_false_iff.2 fun hc => ?_
      have hdigit := Token.isDigit_iff.1 h
      have hstart : Token.isWordStart c = true := by rw [Token.isWordStart, hc, Bool.true_or]
      rcases Token.isWordStart_iff.1 hstart with hletter | hletter | rfl
      · omega
      · omega
      · simp at h
    rw [isForeignLetter, halpha, Bool.false_and, Bool.false_and]
  all_goals decide

/-- A word for a number that is not finite has a letter that no decimal has. -/
theorem any_isForeignLetter_of_ofWord? {y : Number} (h : ofWord? negative s = some y) :
    s.any isForeignLetter = true := by
  have hn : 'n' ∈ s.map Char.toLower := by
    simp only [ofWord?] at h
    split at h
    · next hword =>
      simp only [Bool.or_eq_true, decide_eq_true_eq] at hword
      rcases hword with hword | hword
      · rw [hword]
        decide
      · rw [hword]
        decide
    split at h
    · next hword =>
      rw [hword]
      decide
    · cases h
  obtain ⟨c, hc, hlower⟩ := List.mem_map.1 hn
  refine List.any_eq_true.2 ⟨c, hc, ?_⟩
  rcases eq_or_eq_of_toLower hlower (show 'n'.toNat = 'N'.toNat + 32 from rfl) with rfl | rfl
  · decide
  · decide

/-- A decimal is read as the number nearest to it. -/
theorem ofNumeral_decimal (hsign : IsSign sign negative) (h : IsDecimal s x) :
    ofNumeral (sign ++ s) = ofMagnitude negative x.nearest := by
  have hparts : ∀ c ∈ sign ++ s, IsDecimalPart c :=
    List.forall_mem_append.2 ⟨hsign.isDecimalPart, h.isDecimalPart⟩
  have hne : sign ++ s ≠ [] := by
    obtain ⟨c, hhead, -⟩ := h.exists_head
    exact List.append_ne_nil_of_right_ne_nil _ (by rintro rfl; cases hhead)
  have hword : ∀ word : List Char, 'n' ∈ word → sign ++ s ≠ word := by
    rintro word hmem rfl
    have hpart := hparts 'n' hmem
    simp [IsDecimalPart] at hpart
  have hletters : (sign ++ s).any isForeignLetter = false :=
    List.any_eq_false.2 fun c hc => by rw [isForeignLetter_eq_false (hparts c hc)]; nofun
  rw [ofNumeral, if_neg hne, if_neg (by simp [hword]), if_neg (hword _ (by decide)),
    ofPrefixed?_eq_none hparts]
  simp only [hletters, Bool.false_eq_true, if_false]
  exact ofDecimalText_decimal hsign h

theorem exists_of_ofPrefixed? {y : Number} (h : ofPrefixed? s = some y) :
    ∃ c base digits, s = '0' :: c :: digits ∧ Marks c base ∧
      y = if digits = [] then nan else ofDigits base digits := by
  unfold ofPrefixed? at h
  split at h
  · obtain ⟨base, hbase, rfl⟩ := Option.map_eq_some_iff.1 h
    exact ⟨_, base, _, rfl, base?_eq_some_iff.1 hbase, rfl⟩
  · cases h

theorem ofNumeral_based (hc : Marks c base) (hne : digits ≠ []) :
    ofNumeral ('0' :: c :: digits) = ofDigits base digits := by
  rw [ofNumeral, if_neg (List.cons_ne_nil _ _), if_neg (by simp), if_neg (by simp), ofPrefixed?,
    base?_eq_some_iff.2 hc, Option.map_some, if_neg hne]

/-- Without the letters of words, nothing but a decimal is read as a number. -/
theorem isNumeral_of_ofDecimalText (hletters : s.any isForeignLetter = false)
    (h : (ofDecimalText s).isNan = false) : IsNumeral s := by
  obtain ⟨sign, hs, hsign⟩ := exists_isSign s
  rw [ofDecimalText, parse?] at h
  cases hdecimal : decimal? (splitSign s).2 with
  | some x =>
      rw [hs]
      exact .decimal hsign (decimal?_eq_some_iff.1 hdecimal)
  | none =>
      simp only [hdecimal] at h
      cases hword : ofWord? (splitSign s).1 (splitSign s).2 with
      | none =>
          rw [hword, Option.getD_none, isNan_nan] at h
          cases h
      | some y =>
          have hany : s.any isForeignLetter = true := by
            rw [hs, List.any_append, any_isForeignLetter_of_ofWord? hword, Bool.or_true]
          rw [hletters] at hany
          cases hany

theorem isNan_ofNumeral_iff : (ofNumeral s).isNan = false ↔ IsNumeral s := by
  constructor
  · intro h
    rw [ofNumeral] at h
    -- the forms in the order in which the reader tries them
    split at h
    · next hs =>
      rw [hs]
      exact .empty
    split at h
    · next hs =>
      simp only [Bool.or_eq_true, decide_eq_true_eq] at hs
      rcases hs with hs | hs
      · rw [hs]
        exact .infinity .none
      · rw [hs]
        exact .infinity .plus
    split at h
    · next hs =>
      rw [hs]
      exact .infinity .minus
    split at h
    · next hprefixed =>
      obtain ⟨c, base, digits, rfl, hc, rfl⟩ := exists_of_ofPrefixed? hprefixed
      split at h
      · rw [isNan_nan] at h
        cases h
      · next hne =>
        obtain ⟨n, hdigits⟩ := exists_denotes hc.bounds.2 h
        exact .based hc hne hdigits
    · split at h
      · rw [isNan_nan] at h
        cases h
      · next hletters =>
        exact isNumeral_of_ofDecimalText (eq_false_of_ne_true hletters) h
  · intro h
    cases h with
    | empty => exact isNan_ofMagnitude false (nearestMagnitude_le _ _)
    | infinity hsign => cases hsign <;> decide
    | based hc hne hdigits =>
        rw [ofNumeral_based hc hne]
        exact (ofDigits_of_denotes hc.bounds.1 hc.bounds.2 hdigits).1
    | decimal hsign h =>
        rw [ofNumeral_decimal hsign h]
        exact isNan_ofMagnitude _ (nearest_le _)

/-- With a character that decimals do not have, only infinity and integers behind the mark of their
base are numerals. -/
theorem IsNumeral.of_not_isDecimalPart (h : IsNumeral s) (hc : c ∈ s) (hpart : ¬IsDecimalPart c) :
    (∃ sign negative, IsSign sign negative ∧ s = sign ++ "Infinity".toList) ∨
      ∃ c base digits, Marks c base ∧ digits ≠ [] ∧ s = '0' :: c :: digits := by
  cases h with
  | empty => cases hc
  | infinity hsign => exact .inl ⟨_, _, hsign, rfl⟩
  | based hmarks hne => exact .inr ⟨_, _, _, hmarks, hne, rfl⟩
  | decimal hsign h =>
      rcases List.mem_append.1 hc with hc | hc
      · exact absurd (hsign.isDecimalPart _ hc) hpart
      · exact absurd (h.isDecimalPart _ hc) hpart

/-- A text is a number just when, without the white space around it, it is a numeral; so a character
that decimals do not have makes it NaN, other than in infinity and behind the mark of a base. It is
zero if nothing is left of it, and an integer behind the mark of its base is exact below
`2 ^ 53`. -/
theorem ofText_numerals {s : String} {t : List Char}
    (htrim : Text.trimBy Text.isBlank s.toList = t) :
    ((Value.text s).toNumber.isNan = false ↔ IsNumeral t) ∧
      (∀ c ∈ t, ¬IsDecimalPart c → (Value.text s).toNumber.isNan = true ∨
        (∃ sign negative, IsSign sign negative ∧ t = sign ++ "Infinity".toList) ∨
        ∃ c base digits, Marks c base ∧ digits ≠ [] ∧ t = '0' :: c :: digits) ∧
      (t = [] → (Value.text s).toNumber = ofNat 0) ∧
      ∀ c base digits n, Marks c base → digits ≠ [] → Denotes base digits n → n < 2 ^ 53 →
        t = '0' :: c :: digits → (Value.text s).toNumber.IsExactly n := by
  have hread : (Value.text s).toNumber = ofNumeral t := congrArg ofNumeral htrim
  rw [hread]
  refine ⟨isNan_ofNumeral_iff, fun c hc hpart => ?_, fun ht => ?_, ?_⟩
  · cases hnan : (ofNumeral t).isNan with
    | true => exact .inl rfl
    | false => exact .inr ((isNan_ofNumeral_iff.1 hnan).of_not_isDecimalPart hc hpart)
  · rw [ht]
    rfl
  · intro c base digits n hc hne hdigits hn ht
    rw [ht, ofNumeral_based hc hne]
    exact (ofDigits_of_denotes hc.bounds.1 hc.bounds.2 hdigits).2 hn

theorem ofText_numerals_hexadecimal :
    Text.trimBy Text.isBlank " 0X1f\n".toList = ['0', 'X', '1', 'f'] ∧
      Marks 'X' 16 ∧ Denotes 16 ['1', 'f'] 31 ∧
      (Value.text " 0X1f\n").toNumber.IsExactly 31 := by
  have ht : Text.trimBy Text.isBlank " 0X1f\n".toList = ['0', 'X', '1', 'f'] := by decide +kernel
  have hmarks : Marks 'X' 16 := .hexadecimal (.inr rfl)
  have hdenotes : Denotes 16 ['1', 'f'] 31 := by
    refine ⟨[1, 15], .cons ?_ (.cons ?_ .nil), rfl⟩
    · exact ⟨by decide, by decide⟩
    · exact ⟨by decide, by decide⟩
  exact ⟨ht, hmarks, hdenotes, (ofText_numerals ht).2.2.2 'X' 16 ['1', 'f'] 31 hmarks
    (List.cons_ne_nil _ _) hdenotes (by decide) rfl⟩

/-- Words, a mark of a base behind a sign or without digits, digits that the base does not have, a
lone point and a lone sign, separators, and an exponent without a decimal. -/
example : ["nan", "inf", "infinity", "-0x1A", "0x", "0b12", ".", "-", "1_000", "1,000", "e5"].all
    (fun s => (ofText s).isNan) = true := by
  decide +kernel

end Numerals

end TableQuery.Number
