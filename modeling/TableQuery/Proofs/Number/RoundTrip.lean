import TableQuery.Evaluation
import TableQuery.Proofs.Number.Numerals
import TableQuery.Proofs.Number.Rounding
import TableQuery.Proofs.Table.RoundTrip
import TableQuery.Proofs.Text.Trimming

/-!
# Numbers survive text

What is written for a number is read as this number; only the sign of a negative zero is lost. So
two numbers are written alike just when they are numerically equal or both NaN, and a number keeps
its place in a table that is written and read back.
-/

namespace TableQuery

namespace Number

variable {whole digits exponent : List Char} {m n : Nat} {e power : Int} {x y : Number}

section Digits

theorem naturalOfDigits_eq (digits : List Char) :
    naturalOfDigits digits = Nat.ofDigitChars 10 digits 0 :=
  Nat.ofDigitChars_eq_foldl.symm

theorem denotes_toDigits (n : Nat) : Denotes 10 (Nat.toDigits 10 n) n := by
  refine denotes_ten_iff.2 ⟨fun c hc => ?_, ?_⟩
  · exact Nat.isDigit_of_mem_toDigits (by decide) (by decide) hc
  · rw [naturalOfDigits_eq, Nat.ofDigitChars_ten_toDigits]

theorem isDigit_of_mem_zeros {c : Char} (hc : c ∈ List.replicate m '0') : c.isDigit = true := by
  rw [List.eq_of_mem_replicate hc]
  rfl

theorem Denotes.zeros_append (h : Denotes 10 digits n) (m : Nat) :
    Denotes 10 (List.replicate m '0' ++ digits) n := by
  obtain ⟨hdigits, rfl⟩ := denotes_ten_iff.1 h
  refine denotes_ten_iff.2
    ⟨List.forall_mem_append.2 ⟨fun c hc => isDigit_of_mem_zeros hc, hdigits⟩, ?_⟩
  rw [naturalOfDigits_eq, naturalOfDigits_eq, Nat.ofDigitChars_append,
    Nat.ofDigitChars_replicate_zero, Nat.mul_zero]

theorem Denotes.append_zeros (h : Denotes 10 digits n) (m : Nat) :
    Denotes 10 (digits ++ List.replicate m '0') (n * 10 ^ m) := by
  obtain ⟨hdigits, rfl⟩ := denotes_ten_iff.1 h
  refine denotes_ten_iff.2
    ⟨List.forall_mem_append.2 ⟨hdigits, fun c hc => isDigit_of_mem_zeros hc⟩, ?_⟩
  rw [naturalOfDigits_eq, naturalOfDigits_eq, Nat.ofDigitChars_append,
    Nat.ofDigitChars_replicate_zero, Nat.mul_comm]

end Digits

section DecimalTexts

theorem isDecimal_whole (h : Denotes 10 whole n) (hne : whole ≠ [])
    (hexponent : IsExponent exponent e) : IsDecimal (whole ++ exponent) ⟨n, e⟩ := by
  rw [← List.append_nil whole] at h hne
  have hdecimal := IsDecimal.mk .none hne h hexponent
  rwa [List.nil_append, List.length_nil, Nat.cast_zero, Int.sub_zero] at hdecimal

theorem isDecimal_point (h : Denotes 10 (whole ++ digits) n) (hne : whole ++ digits ≠ [])
    (hexponent : IsExponent exponent e) :
    IsDecimal (whole ++ '.' :: (digits ++ exponent)) ⟨n, e - digits.length⟩ :=
  .mk (.point digits) hne h hexponent

/-- Digits with the point behind some of them are read as if the zeros that fill the gap between the
digits and the point were not there. -/
theorem exists_isDecimal_positional (h : Denotes 10 digits n) (hne : digits ≠ []) (place : Int) :
    ∃ x, IsDecimal (positional digits place) x ∧
      x.nearest = (⟨n, place - digits.length⟩ : Decimal).nearest := by
  unfold positional
  split
  · next hplace =>
    -- the zeros between the point and the digits do not change what the digits denote
    refine ⟨_, ?_, rfl⟩
    have hzeros : Denotes 10 (['0'] ++ (List.replicate (-place).toNat '0' ++ digits)) n :=
      (h.zeros_append _).zeros_append 1
    have hdecimal := isDecimal_point hzeros (List.cons_ne_nil _ _) .none
    have hexponent : (0 : Int) - (List.replicate (-place).toNat '0' ++ digits).length =
        place - digits.length := by
      rw [List.length_append, List.length_replicate]
      omega
    rwa [hexponent, List.append_nil] at hdecimal
  split
  · next hplace hlength =>
    -- the zeros behind the digits are read as digits, so here another decimal is read
    have hdecimal := isDecimal_whole (h.append_zeros (place.toNat - digits.length))
      (List.append_ne_nil_of_left_ne_nil hne _) .none
    rw [List.append_nil] at hdecimal
    refine ⟨_, hdecimal, ?_⟩
    have hexponent : (0 : Int) + (place.toNat - digits.length : Nat) = place - digits.length := by
      omega
    rw [Decimal.nearest_mul_pow, hexponent]
  · next hplace hlength =>
    refine ⟨_, ?_, rfl⟩
    have hsplit := List.take_append_drop place.toNat digits
    have hdecimal := isDecimal_point (hsplit.symm ▸ h) (hsplit.symm ▸ hne) .none
    have hexponent : (0 : Int) - (digits.drop place.toNat).length = place - digits.length := by
      rw [List.length_drop]
      omega
    rwa [hexponent, List.append_nil] at hdecimal

theorem isExponent_sign (power : Int) : IsExponent
    ('e' :: (if power < 0 then '-' else '+') :: Nat.toDigits 10 power.natAbs) power := by
  have hdigits := denotes_toDigits power.natAbs
  have hne : Nat.toDigits 10 power.natAbs ≠ [] := Nat.toDigits_ne_nil
  by_cases h : power < 0
  · have hpower : -(power.natAbs : Int) = power := by omega
    have hexponent := IsExponent.mark (.inl rfl) .minus hne hdigits
    rw [if_pos rfl, hpower] at hexponent
    rw [if_pos h]
    exact hexponent
  · have hpower : (power.natAbs : Int) = power := by omega
    have hexponent := IsExponent.mark (.inl rfl) .plus hne hdigits
    rw [if_neg Bool.false_ne_true, hpower] at hexponent
    rw [if_neg h]
    exact hexponent

theorem isDecimal_scientific (h : Denotes 10 digits n) (hne : digits ≠ []) (power : Int) :
    IsDecimal (scientific digits power) ⟨n, power + 1 - digits.length⟩ := by
  have hexponent := isExponent_sign power
  obtain ⟨c, rest, rfl⟩ := List.exists_cons_of_ne_nil hne
  rw [List.length_cons, Nat.cast_succ, Int.add_sub_add_right]
  cases rest with
  | nil =>
      rw [List.length_nil, Nat.cast_zero, Int.sub_zero]
      exact isDecimal_whole h hne hexponent
  | cons d rest =>
      have hdigits : Denotes 10 ([c] ++ d :: rest) n := h
      have hdecimal := isDecimal_point hdigits hne hexponent
      simpa [scientific] using hdecimal

/-- The text of a decimal is a decimal that rounds like it. -/
theorem exists_isDecimal_text (x : Decimal) : ∃ y, IsDecimal x.text y ∧ y.nearest = x.nearest := by
  have hdigits := denotes_toDigits x.digits
  have hne : Nat.toDigits 10 x.digits ≠ [] := Nat.toDigits_ne_nil
  rw [Decimal.text]
  split
  · have hpositional := exists_isDecimal_positional hdigits hne
      ((Nat.toDigits 10 x.digits).length + x.exponent)
    rwa [add_sub_cancel_left] at hpositional
  · have hscientific := isDecimal_scientific hdigits hne
      ((Nat.toDigits 10 x.digits).length + x.exponent - 1)
    rw [Int.sub_add_cancel, add_sub_cancel_left] at hscientific
    exact ⟨x, hscientific, rfl⟩

end DecimalTexts

section NumberTexts

theorem isBlank_of_isDecimalPart {c : Char} (h : IsDecimalPart c) : Text.isBlank c = false := by
  rcases h with h | rfl | rfl | rfl | rfl | rfl
  · exact Token.isBlank_of_isDigit h
  all_goals decide

theorem text_of_magnitude_eq_zero (h : x.magnitude = 0) : x.text = "0" := by
  simp [text, isNan, isInfinite, h, infiniteMagnitude]

theorem text_of_finite (hne : x.magnitude ≠ 0) (h : x.magnitude < infiniteMagnitude) :
    x.text =
      let digits := (Decimal.shortest x.magnitude).text
      String.ofList (if x.isNegative then '-' :: digits else digits) := by
  have hnan : x.isNan = false := decide_eq_false (Nat.not_lt.2 h.le)
  have hinfinite : x.isInfinite = false := beq_eq_false_iff_ne.2 h.ne
  rw [text, hnan, hinfinite, if_neg Bool.false_ne_true, if_neg Bool.false_ne_true, if_neg hne]

theorem exists_isSign_minus (negative : Bool) (s : List Char) :
    ∃ sign, IsSign sign negative ∧ (if negative then '-' :: s else s) = sign ++ s := by
  cases negative with
  | true => exact ⟨['-'], .minus, rfl⟩
  | false => exact ⟨[], .none, rfl⟩

/-- A decimal behind a minus or no sign is read as the number that its text is nearest to. -/
theorem ofText_decimal (negative : Bool) (x : Decimal) :
    ofText (String.ofList (if negative then '-' :: x.text else x.text)) =
      ofMagnitude negative x.nearest := by
  obtain ⟨y, hdecimal, hnearest⟩ := exists_isDecimal_text x
  obtain ⟨sign, hsign, htext⟩ := exists_isSign_minus negative x.text
  have hparts : ∀ c ∈ sign ++ x.text, IsDecimalPart c :=
    List.forall_mem_append.2 ⟨hsign.isDecimalPart, hdecimal.isDecimalPart⟩
  have htrim := Text.trimBy_of_forall fun c hc => isBlank_of_isDecimalPart (hparts c hc)
  rw [htext, ofText, String.toList_ofList, htrim, ofNumeral_decimal hsign hdecimal, hnearest]

/-- What is written for a number is read as this number, and negative zero as zero. -/
theorem ofText_text (x : Number) : ofText x.text = if x = negativeZero then ofNat 0 else x := by
  rcases Nat.lt_trichotomy x.magnitude infiniteMagnitude with hfinite | hinfinite | hnan
  · by_cases hzero : x.magnitude = 0
    · have hread : ofText "0" = ofNat 0 := by decide +kernel
      rw [text_of_magnitude_eq_zero hzero, hread]
      split
      · rfl
      · next hne => exact ((eq_zero_or_of_magnitude_eq_zero hzero).resolve_right hne).symm
    · have hne : x ≠ negativeZero := by
        rintro rfl
        exact hzero (magnitude_ofMagnitude true (Nat.zero_le _))
      have hx := eq_ofMagnitude (decide_eq_false (Nat.not_lt.2 hfinite.le))
      rw [if_neg hne, text_of_finite hzero hfinite, ofText_decimal,
        Decimal.nearest_shortest hfinite.le, ← hx]
  · have hx := eq_ofMagnitude (decide_eq_false (Nat.not_lt.2 hinfinite.le))
    rw [hinfinite] at hx
    rw [hx]
    -- there is one infinity of each sign, so reading its text is a computation
    cases x.isNegative with
    | true => decide +kernel
    | false => decide +kernel
  · rw [eq_nan (decide_eq_true hnan)]
    decide +kernel

end NumberTexts

section LooseEquality

theorem isNan_ofText_text (x : Number) : (ofText x.text).isNan = x.isNan := by
  rw [ofText_text]
  split
  · next hx =>
    rw [hx]
    decide +kernel
  · rfl

theorem value_ofText_text (x : Number) : (ofText x.text).value = x.value := by
  rw [ofText_text]
  split
  · next hx =>
    rw [hx]
    decide +kernel
  · rfl

/-- Numbers are written alike if they have the same value, or no value at all. -/
theorem text_eq_text_iff : x.text = y.text ↔
    x.NumericallyEqual y ∨ x.isNan = true ∧ y.isNan = true := by
  constructor
  · intro h
    have hnan := isNan_ofText_text x
    have hvalue := value_ofText_text x
    rw [h, isNan_ofText_text] at hnan
    rw [h, value_ofText_text] at hvalue
    cases hx : x.isNan with
    | false => exact .inl ⟨hx, hnan.trans hx, hvalue.symm⟩
    | true => exact .inr ⟨rfl, hnan.trans hx⟩
  · rintro (⟨-, -, hvalue⟩ | ⟨hx, hy⟩)
    · rcases eq_or_zero_of_value_eq hvalue with rfl | ⟨hx, hy⟩
      · rfl
      · rw [text_of_magnitude_eq_zero hx, text_of_magnitude_eq_zero hy]
    · rw [eq_nan hx, eq_nan hy]

end LooseEquality

end Number

/-- The numbers of a row, negative zero aside, are read in the same columns of the other row. -/
def Row.KeepsNumbers (row read : Row) : Prop :=
  ∀ column n, row.get? column = some (.number n) → n ≠ Number.negativeZero →
    ∃ v, read.get? column = some v ∧ v.toNumber = n

theorem Row.keepsNumbers_asRead (row : Row) : row.KeepsNumbers row.asRead := by
  intro column n hn hne
  refine ⟨.text n.text, ?_, ?_⟩
  · have hget : row.columns.get? column = some (.number n) := hn
    rw [Row.get?, Row.asRead, OrderedMap.get?_mapValues, hget]
    rfl
  · exact (Number.ofText_text n).trans (if_neg hne)

/-- Rows are written as a table under their columns, which is read as rows of which each is related
to the one that was written in its place. -/
def Table.ReadsBack (d : Delimiter) (rows : List Row) (related : Row → Row → Prop) : Prop :=
  ∃ (w : TableWriter) (t : Table),
    TableWriter.sink.writeAll rows { format := { delimiter := d } } = (.ok (), w) ∧
    TableWriter.sink.finish w = (.ok (), w) ∧
    Table.ofBytes d w.output.toList = .ok t ∧
    List.Forall₂ (fun row read => ∃ row', read = .ok row' ∧ related row row') rows t.rows

theorem Table.readsBack_keepsNumbers {rows : List Row} (hnames : names ≠ [])
    (hkeys : ∀ row ∈ rows, row.columns.keys = names)
    (hmark : ∀ name ∈ names.head?, name.toList.head? ≠ some '\uFEFF')
    (hquote : d.byte ≠ quoteByte) (hend : isLineEnd d.byte = false) :
    Table.ReadsBack d rows Row.KeepsNumbers := by
  by_cases hrows : rows = []
  · rw [hrows]
    exact ⟨_, _, rfl, rfl, rfl, .nil⟩
  obtain ⟨w, hwrite, hlines⟩ := Table.exists_writeAll_lines d hrows hkeys
  refine ⟨w, _, hwrite, rfl, hlines ▸ ofBytes_rows hnames hkeys hmark hquote hend, ?_⟩
  rw [List.forall₂_map_right_iff, List.forall₂_same]
  exact fun row _ => ⟨row.asRead, rfl, row.keepsNumbers_asRead⟩

/-- The text of a number is read as this number, negative zero as zero. So `=` holds of two numbers
just when they are numerically equal or both NaN, and numbers other than negative zero are kept by a
table that is written and read back: with any delimiter but a quote or a line end, and unless a byte
order mark comes first, which is not read as a part of the first name. -/
theorem Number.numbers_survive_text [PatternEngine] :
    (∀ x : Number, (Value.text (Value.number x).toText).toNumber =
      if x = negativeZero then ofNat 0 else x) ∧
    (∀ (x y : Number) (known : Patterns), Operator.equal.apply (.number x) (.number y) known =
      (.ok (.bool (decide (x.NumericallyEqual y ∨ x.isNan = true ∧ y.isNan = true))), known)) ∧
    ∀ (d : Delimiter) (names : List String) (rows : List Row), names ≠ [] →
      (∀ row ∈ rows, row.columns.keys = names) →
      (∀ name ∈ names.head?, name.toList.head? ≠ some '\uFEFF') →
      d.byte ≠ quoteByte → isLineEnd d.byte = false →
      Table.ReadsBack d rows Row.KeepsNumbers := by
  refine ⟨ofText_text, fun x y known => ?_, ?_⟩
  · have hequal : (x.text == y.text) =
        decide (x.NumericallyEqual y ∨ x.isNan = true ∧ y.isNan = true) := by
      rw [Bool.beq_eq_decide_eq, decide_eq_decide]
      exact text_eq_text_iff
    rw [← hequal]
    rfl
  · intro d names rows hnames hkeys hmark hquote hend
    exact Table.readsBack_keepsNumbers hnames hkeys hmark hquote hend

theorem Number.numbers_survive_text_large :
    let n := Number.ofText "-2.5e22"
    let row := Row.ofList [("n", .number n), ("m", .number Number.infinity)]
    n.text = "-2.5e+22" ∧ n ≠ negativeZero ∧ (Value.text (Value.number n).toText).toNumber = n ∧
      Table.ReadsBack .comma [row] Row.KeepsNumbers := by
  intro n row
  have hne : n ≠ negativeZero := by decide +kernel
  refine ⟨by decide +kernel, hne, ?_, ?_⟩
  · exact (numbers_survive_text.1 n).trans (if_neg hne)
  · exact numbers_survive_text.2.2 .comma ["n", "m"] [row] (List.cons_ne_nil _ _) (by decide)
      (by decide) (by decide) (by decide)

/-- An exponent is written from `1e21` on and below `1e-6`, with its sign. -/
example :
    ["1e21", "999999999999999999999", "0.000001", "0.00000015", "5e-324", "-0.10", "-0"].map
        (fun s => (Number.ofText s).text) =
      ["1e+21", "1e+21", "0.000001", "1.5e-7", "5e-324", "-0.1", "0"] := by
  decide +kernel

end TableQuery
