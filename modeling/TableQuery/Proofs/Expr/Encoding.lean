import Mathlib.Data.Nat.Bitwise
import TableQuery.Proofs.Evaluation.Outline
import TableQuery.Query

/-! # The encoding is unambiguous

An encoding says where it ends, and it says everything about the expression but the spelling of
its numerals: of an aggregate it says the identity. So no encoding starts with another one, and
calls of aggregate functions are told apart by their encodings. -/

namespace TableQuery

theorem Number.toBits_inj {x y : Number} : x.toBits = y.toBits ↔ x = y := by
  constructor
  · intro h
    cases x with
    | ofModel x =>
        cases y with
        | ofModel y =>
            cases x
            cases y
            cases h
            rfl
  · exact congrArg Float.toBits

section Words

variable {w w' : UInt64} {r s : List UInt8}

theorem length_wordBytes (w : UInt64) : (wordBytes w).length = 8 := by
  simp [wordBytes]

/-- A byte of a word, as a number. -/
theorem toNat_byte (w : UInt64) {i : Nat} (hi : i < 8) :
    (w >>> (8 * UInt64.ofNat i)).toUInt8.toNat = (w.toNat >>> (8 * i)) % 2 ^ 8 := by
  have hplace : (8 * UInt64.ofNat i).toNat % 64 = 8 * i := by
    rw [UInt64.toNat_mul, UInt64.toNat_ofNat', show UInt64.toNat 8 = 8 from rfl]
    omega
  rw [UInt64.toNat_toUInt8, UInt64.toNat_shiftRight, hplace]

/-- A bit of a word is a bit of one of its bytes. -/
theorem testBit_byte (w : UInt64) (k : Nat) :
    ((w.toNat >>> (8 * (k / 8))) % 2 ^ 8).testBit (k % 8) = w.toNat.testBit k := by
  rw [Nat.testBit_mod_two_pow, Nat.testBit_shiftRight, Nat.div_add_mod,
    decide_eq_true (Nat.mod_lt k (by decide)), Bool.true_and]

theorem wordBytes_injective (h : wordBytes w = wordBytes w') : w = w' := by
  rw [wordBytes, wordBytes, List.map_inj_left] at h
  apply UInt64.toNat_inj.1
  apply Nat.eq_of_testBit_eq
  intro k
  by_cases hk : k < 64
  · have hbyte := congrArg UInt8.toNat (h (k / 8) (List.mem_range.2 (by omega)))
    rw [toNat_byte w (by omega), toNat_byte w' (by omega)] at hbyte
    rw [← testBit_byte w k, hbyte, testBit_byte w' k]
  · have hlarge : ∀ v : UInt64, v.toNat.testBit k = false := fun v =>
      Nat.testBit_lt_two_pow (v.toNat_lt.trans_le (Nat.pow_le_pow_right (by decide) (by omega)))
    rw [hlarge w, hlarge w']

theorem wordBytes_append_inj (h : wordBytes w ++ r = wordBytes w' ++ s) : w = w' ∧ r = s := by
  obtain ⟨hword, hrest⟩ :=
    List.append_inj h ((length_wordBytes w).trans (length_wordBytes w').symm)
  exact ⟨wordBytes_injective hword, hrest⟩

/-- A count that fits a word is read back from it. -/
theorem countBytes_append_inj {m n : Nat} (hm : m < 2 ^ 64) (hn : n < 2 ^ 64)
    (h : countBytes m ++ r = countBytes n ++ s) : m = n ∧ r = s := by
  obtain ⟨hword, hrest⟩ := wordBytes_append_inj h
  have hcount := congrArg UInt64.toNat hword
  rw [UInt64.toNat_ofNat_of_lt' hm, UInt64.toNat_ofNat_of_lt' hn] at hcount
  exact ⟨hcount, hrest⟩

end Words

theorem Text.encode_injective {s t : String} (h : encode s = encode t) : s = t := by
  have hread := congrArg decode h
  rw [decode_encode, decode_encode] at hread
  exact Except.ok.inj hread

theorem textBytes_append_inj {a b : String} {r s : List UInt8}
    (ha : (Text.encode a).length < 2 ^ 64) (hb : (Text.encode b).length < 2 ^ 64)
    (h : textBytes a ++ r = textBytes b ++ s) : a = b ∧ r = s := by
  rw [textBytes, textBytes, List.append_assoc, List.append_assoc] at h
  obtain ⟨hlength, h⟩ := countBytes_append_inj ha hb h
  obtain ⟨htext, hrest⟩ := List.append_inj h hlength
  exact ⟨Text.encode_injective htext, hrest⟩

theorem AggregateFunction.name_inj {g h : AggregateFunction} : g.name = h.name ↔ g = h := by
  cases g <;> cases h <;> decide

namespace Operator

theorem symbol_injective {op op' : Operator} (h : op.symbol = op'.symbol) : op = op' := by
  have hread := congrArg ofSymbol? h
  rw [ofSymbol?_symbol, ofSymbol?_symbol] at hread
  exact Option.some.inj hread

theorem length_symbol_lt (op : Operator) : (Text.encode op.symbol).length < 2 ^ 64 := by
  cases op <;> decide

theorem symbolBytes_append_inj {op op' : Operator} {r s : List UInt8}
    (h : textBytes op.symbol ++ r = textBytes op'.symbol ++ s) : op = op' ∧ r = s := by
  obtain ⟨hsymbol, hrest⟩ := textBytes_append_inj op.length_symbol_lt op'.length_symbol_lt h
  exact ⟨symbol_injective hsymbol, hrest⟩

end Operator

namespace Expr

/-- The lengths that the encoding says of an expression before the encodings of its parts. -/
def lengths : Expr → List Nat
  | string s => [(Text.encode s).length]
  | identifier name => [(Text.encode name).length]
  | call name args => [(Text.encode name).length, args.length]
  | case _ branches _ => [branches.length]
  | _ => []

/-- Every length in the encoding fits a word. -/
def FitsWords (e : Expr) : Prop := ∀ s ∈ e.parts, ∀ n ∈ s.lengths, n < 2 ^ 64

/-- The first byte of the encoding. -/
def tag : Expr → UInt8
  | null => 0
  | bool _ => 1
  | number .. => 2
  | string _ => 3
  | identifier _ => 4
  | star => 5
  | call .. => 6
  | aggregate .. => 7
  | binary .. => 8
  | case subject _ _ => if subject.isNone then 9 else 10

theorem head?_encode (e : Expr) : e.encode.head? = some e.tag := by
  cases e with
  | case subject branches otherwise => cases subject <;> rfl
  | _ => rfl

theorem tag_eq_of_append_eq {e f : Expr} {r s : List UInt8}
    (h : e.encode ++ r = f.encode ++ s) : e.tag = f.tag := by
  have hhead := congrArg List.head? h
  rw [List.head?_append, List.head?_append, head?_encode, head?_encode] at hhead
  exact Option.some.inj hhead

/-- What its encoding keeps of a leaf: the value of a numeral, the identity of an aggregate. -/
def leafCore : Expr → Expr
  | number value _ => number value ""
  | aggregate _ _ id => aggregate .count null id
  | e => e

/-- What its encoding keeps of an expression: everything but the texts of its numerals, and of
its aggregates the identities. Numerals with the same bits have the same value
(`Number.toBits_inj`). -/
def core (e : Expr) : Expr := e.mapLeaves leafCore

theorem core_call (name : String) (args : List Expr) :
    (call name args).core = call name (args.map core) := by
  rw [core, mapLeaves, mapLeavesAll_eq]
  rfl

theorem core_binary (op : Operator) (left right : Expr) :
    (binary op left right).core = binary op left.core right.core := rfl

theorem core_case (subject : Option Expr) (branches : List (Expr × Expr))
    (otherwise : Option Expr) :
    (case subject branches otherwise).core =
      case (subject.map core) (branches.map fun b => (b.1.core, b.2.core))
        (otherwise.map core) := by
  rw [core, mapLeaves, mapLeavesOption_eq, mapLeavesBranches_eq, mapLeavesOption_eq]
  rfl

theorem fitsWords_call {name : String} {args : List Expr} :
    (call name args).FitsWords ↔
      ((Text.encode name).length < 2 ^ 64 ∧ args.length < 2 ^ 64) ∧ ∀ e ∈ args, e.FitsWords := by
  rw [FitsWords, forall_mem_parts_call, lengths, List.forall_mem_cons, List.forall_mem_singleton]
  exact Iff.rfl

theorem fitsWords_binary {op : Operator} {left right : Expr} :
    (binary op left right).FitsWords ↔ left.FitsWords ∧ right.FitsWords := by
  rw [FitsWords, forall_mem_parts_binary]
  exact and_iff_right (List.forall_mem_nil _)

theorem fitsWords_case {subject : Option Expr} {branches : List (Expr × Expr)}
    {otherwise : Option Expr} :
    (case subject branches otherwise).FitsWords ↔
      branches.length < 2 ^ 64 ∧ (∀ e ∈ subject, e.FitsWords) ∧
        (∀ b ∈ branches, b.1.FitsWords ∧ b.2.FitsWords) ∧ ∀ e ∈ otherwise, e.FitsWords := by
  rw [FitsWords, forall_mem_parts_case, lengths, List.forall_mem_singleton]
  exact Iff.rfl

theorem fitsWords_text {s : String} (h : (string s).FitsWords ∨ (identifier s).FitsWords) :
    (Text.encode s).length < 2 ^ 64 := by
  rcases h with h | h <;> exact h _ List.mem_cons_self _ List.mem_cons_self

mutual

/-- Encodings that start alike are encodings of expressions with one core, and they end alike. -/
theorem encode_append_inj : ∀ {e f : Expr} {r s : List UInt8}, e.FitsWords → f.FitsWords →
    e.encode ++ r = f.encode ++ s → e.core = f.core ∧ r = s
  | null, f, r, s, _, _, h => by
    have htag := tag_eq_of_append_eq h
    cases f with
    | null => exact ⟨rfl, List.append_cancel_left h⟩
    | _ => simp [tag, eq_ite_iff] at htag
  | bool b, f, r, s, _, _, h => by
    have htag := tag_eq_of_append_eq h
    cases f with
    | bool b' =>
        simp only [encode, List.cons_append, List.nil_append, List.cons.injEq, true_and] at h
        obtain ⟨hb, hrest⟩ := h
        have hsame : b = b' := by cases b <;> cases b' <;> simp at hb ⊢
        exact ⟨congrArg bool hsame, hrest⟩
    | _ => simp [tag, eq_ite_iff] at htag
  | number value text, f, r, s, _, _, h => by
    have htag := tag_eq_of_append_eq h
    cases f with
    | number value' text' =>
        simp only [encode, List.cons_append, List.cons.injEq, true_and] at h
        obtain ⟨hbits, hrest⟩ := wordBytes_append_inj h
        have hvalue := Number.toBits_inj.1 hbits
        subst hvalue
        exact ⟨rfl, hrest⟩
    | _ => simp [tag, eq_ite_iff] at htag
  | string t, f, r, s, he, hf, h => by
    have htag := tag_eq_of_append_eq h
    cases f with
    | string t' =>
        simp only [encode, List.cons_append, List.cons.injEq, true_and] at h
        obtain ⟨ht, hrest⟩ :=
          textBytes_append_inj (fitsWords_text (.inl he)) (fitsWords_text (.inl hf)) h
        exact ⟨congrArg string ht, hrest⟩
    | _ => simp [tag, eq_ite_iff] at htag
  | identifier name, f, r, s, he, hf, h => by
    have htag := tag_eq_of_append_eq h
    cases f with
    | identifier name' =>
        simp only [encode, List.cons_append, List.cons.injEq, true_and] at h
        obtain ⟨hname, hrest⟩ :=
          textBytes_append_inj (fitsWords_text (.inr he)) (fitsWords_text (.inr hf)) h
        exact ⟨congrArg identifier hname, hrest⟩
    | _ => simp [tag, eq_ite_iff] at htag
  | star, f, r, s, _, _, h => by
    have htag := tag_eq_of_append_eq h
    cases f with
    | star => exact ⟨rfl, List.append_cancel_left h⟩
    | _ => simp [tag, eq_ite_iff] at htag
  | call name args, f, r, s, he, hf, h => by
    have htag := tag_eq_of_append_eq h
    cases f with
    | call name' args' =>
        obtain ⟨⟨hname, hcount⟩, hargs⟩ := fitsWords_call.1 he
        obtain ⟨⟨hname', hcount'⟩, hargs'⟩ := fitsWords_call.1 hf
        simp only [encode, List.cons_append, List.append_assoc, List.cons.injEq, true_and] at h
        obtain ⟨hsame, h⟩ := textBytes_append_inj hname hname' h
        obtain ⟨hlength, h⟩ := countBytes_append_inj hcount hcount' h
        obtain ⟨hcores, hrest⟩ := encodeAll_append_inj hlength hargs hargs' h
        rw [core_call, core_call, hsame, hcores]
        exact ⟨rfl, hrest⟩
    | _ => simp [tag, eq_ite_iff] at htag
  | aggregate function argument id, f, r, s, _, _, h => by
    have htag := tag_eq_of_append_eq h
    cases f with
    | aggregate function' argument' id' =>
        simp only [encode, List.cons_append, List.cons.injEq, true_and] at h
        obtain ⟨hcode, hrest⟩ := wordBytes_append_inj h
        have hid := congrArg AggregateId.mk hcode
        exact ⟨congrArg (aggregate .count null) hid, hrest⟩
    | _ => simp [tag, eq_ite_iff] at htag
  | binary op left right, f, r, s, he, hf, h => by
    have htag := tag_eq_of_append_eq h
    cases f with
    | binary op' left' right' =>
        obtain ⟨hleft, hright⟩ := fitsWords_binary.1 he
        obtain ⟨hleft', hright'⟩ := fitsWords_binary.1 hf
        simp only [encode, List.cons_append, List.append_assoc, List.cons.injEq, true_and] at h
        obtain ⟨hop, h⟩ := Operator.symbolBytes_append_inj h
        obtain ⟨hcore, h⟩ := encode_append_inj hleft hleft' h
        obtain ⟨hcore', hrest⟩ := encode_append_inj hright hright' h
        rw [core_binary, core_binary, hop, hcore, hcore']
        exact ⟨rfl, hrest⟩
    | _ => simp [tag, eq_ite_iff] at htag
  | case none branches otherwise, f, r, s, he, hf, h => by
    have htag := tag_eq_of_append_eq h
    cases f with
    | case subject' branches' otherwise' =>
        cases subject' with
        | some subject' => simp [tag] at htag
        | none =>
            obtain ⟨hcount, -, hbranches, hotherwise⟩ := fitsWords_case.1 he
            obtain ⟨hcount', -, hbranches', hotherwise'⟩ := fitsWords_case.1 hf
            simp only [encode, List.cons_append, List.append_assoc, List.cons.injEq,
              true_and] at h
            obtain ⟨hlength, h⟩ := countBytes_append_inj hcount hcount' h
            obtain ⟨hcores, h⟩ := encodeBranches_append_inj hlength hbranches hbranches' h
            obtain ⟨hcore, hrest⟩ := encodeOption_append_inj hotherwise hotherwise' h
            rw [core_case, core_case, hcores, hcore]
            exact ⟨rfl, hrest⟩
    | _ => simp [tag] at htag
  | case (some subject) branches otherwise, f, r, s, he, hf, h => by
    have htag := tag_eq_of_append_eq h
    cases f with
    | case subject' branches' otherwise' =>
        cases subject' with
        | none => simp [tag] at htag
        | some subject' =>
            obtain ⟨hcount, hsubject, hbranches, hotherwise⟩ := fitsWords_case.1 he
            obtain ⟨hcount', hsubject', hbranches', hotherwise'⟩ := fitsWords_case.1 hf
            simp only [encode, List.cons_append, List.append_assoc, List.cons.injEq,
              true_and] at h
            obtain ⟨hfirst, h⟩ := encode_append_inj (hsubject _ rfl) (hsubject' _ rfl) h
            obtain ⟨hlength, h⟩ := countBytes_append_inj hcount hcount' h
            obtain ⟨hcores, h⟩ := encodeBranches_append_inj hlength hbranches hbranches' h
            obtain ⟨hcore, hrest⟩ := encodeOption_append_inj hotherwise hotherwise' h
            rw [core_case, core_case, Option.map_some, Option.map_some, hfirst, hcores, hcore]
            exact ⟨rfl, hrest⟩
    | _ => simp [tag] at htag

theorem encodeAll_append_inj : ∀ {l l' : List Expr} {r s : List UInt8}, l.length = l'.length →
    (∀ e ∈ l, e.FitsWords) → (∀ e ∈ l', e.FitsWords) →
    encodeAll l ++ r = encodeAll l' ++ s → l.map core = l'.map core ∧ r = s
  | [], [], _, _, _, _, _, h => ⟨rfl, h⟩
  | e :: l, e' :: l', r, s, hlength, hl, hl', h => by
    rw [List.forall_mem_cons] at hl hl'
    rw [encodeAll, encodeAll, List.append_assoc, List.append_assoc] at h
    obtain ⟨hcore, h⟩ := encode_append_inj hl.1 hl'.1 h
    obtain ⟨hcores, hrest⟩ := encodeAll_append_inj (Nat.succ.inj hlength) hl.2 hl'.2 h
    rw [List.map_cons, List.map_cons, hcore, hcores]
    exact ⟨rfl, hrest⟩

theorem encodeBranches_append_inj : ∀ {l l' : List (Expr × Expr)} {r s : List UInt8},
    l.length = l'.length → (∀ b ∈ l, b.1.FitsWords ∧ b.2.FitsWords) →
    (∀ b ∈ l', b.1.FitsWords ∧ b.2.FitsWords) →
    encodeBranches l ++ r = encodeBranches l' ++ s →
    (l.map fun b => (b.1.core, b.2.core)) = (l'.map fun b => (b.1.core, b.2.core)) ∧ r = s
  | [], [], _, _, _, _, _, h => ⟨rfl, h⟩
  | (condition, result) :: l, (condition', result') :: l', r, s, hlength, hl, hl', h => by
    rw [List.forall_mem_cons] at hl hl'
    simp only [encodeBranches, List.append_assoc] at h
    obtain ⟨hcondition, h⟩ := encode_append_inj hl.1.1 hl'.1.1 h
    obtain ⟨hresult, h⟩ := encode_append_inj hl.1.2 hl'.1.2 h
    obtain ⟨hcores, hrest⟩ := encodeBranches_append_inj (Nat.succ.inj hlength) hl.2 hl'.2 h
    rw [List.map_cons, List.map_cons, hcondition, hresult, hcores]
    exact ⟨rfl, hrest⟩

theorem encodeOption_append_inj : ∀ {o o' : Option Expr} {r s : List UInt8},
    (∀ e ∈ o, e.FitsWords) → (∀ e ∈ o', e.FitsWords) →
    encodeOption o ++ r = encodeOption o' ++ s → o.map core = o'.map core ∧ r = s
  | none, none, _, _, _, _, h => ⟨rfl, List.append_cancel_left h⟩
  | some e, some e', r, s, ho, ho', h => by
    simp only [encodeOption, List.cons_append, List.cons.injEq, true_and] at h
    obtain ⟨hcore, hrest⟩ := encode_append_inj (ho e rfl) (ho' e' rfl) h
    exact ⟨congrArg some hcore, hrest⟩
  | none, some e', r, s, _, _, h => by simp [encodeOption] at h
  | some e, none, r, s, _, _, h => by simp [encodeOption] at h

end

variable {f : Expr → Expr}

mutual

/-- Leaves may be replaced by ones with the same encoding. -/
theorem encode_mapLeaves (h : ∀ e, (f e).encode = e.encode) :
    ∀ e : Expr, (e.mapLeaves f).encode = e.encode
  | null | bool _ | number _ _ | string _ | identifier _ | star | aggregate .. => h _
  | call name args => by
    rw [mapLeaves, encode, encode, encodeAll_mapLeaves h args, mapLeavesAll_eq, List.length_map]
  | binary op left right => by
    rw [mapLeaves, encode, encode, encode_mapLeaves h left, encode_mapLeaves h right]
  | case none branches otherwise => by
    rw [mapLeaves, mapLeavesOption, encode, encode, encodeBranches_mapLeaves h branches,
      encodeOption_mapLeaves h otherwise, mapLeavesBranches_eq, List.length_map]
  | case (some subject) branches otherwise => by
    rw [mapLeaves, mapLeavesOption, encode, encode, encode_mapLeaves h subject,
      encodeBranches_mapLeaves h branches, encodeOption_mapLeaves h otherwise,
      mapLeavesBranches_eq, List.length_map]

theorem encodeAll_mapLeaves (h : ∀ e, (f e).encode = e.encode) :
    ∀ l : List Expr, encodeAll (mapLeavesAll f l) = encodeAll l
  | [] => rfl
  | e :: rest => by
    rw [mapLeavesAll, encodeAll, encodeAll, encode_mapLeaves h e, encodeAll_mapLeaves h rest]

theorem encodeBranches_mapLeaves (h : ∀ e, (f e).encode = e.encode) :
    ∀ l : List (Expr × Expr), encodeBranches (mapLeavesBranches f l) = encodeBranches l
  | [] => rfl
  | (condition, result) :: rest => by
    rw [mapLeavesBranches, encodeBranches, encodeBranches, encode_mapLeaves h condition,
      encode_mapLeaves h result, encodeBranches_mapLeaves h rest]

theorem encodeOption_mapLeaves (h : ∀ e, (f e).encode = e.encode) :
    ∀ o : Option Expr, encodeOption (mapLeavesOption f o) = encodeOption o
  | none => rfl
  | some e => by
    rw [mapLeavesOption, encodeOption, encodeOption, encode_mapLeaves h e]

end

/-- The core of an expression has its encoding. -/
theorem encode_core (e : Expr) : e.core.encode = e.encode := by
  apply encode_mapLeaves
  intro e
  cases e <;> rfl

/-- The core of an expression is evaluated like the expression, up to the texts in errors. -/
theorem outline_core [PatternEngine] (row : Row) (e : Expr) :
    (e.core.eval row).outline = (e.eval row).outline := by
  apply outline_mapLeaves
  intro e
  cases e with
  | aggregate function argument id =>
      rw [leafCore, eval, eval]
      apply Evaluation.outline_ofOption
      rfl
  | _ => rfl

theorem encode_eq_iff {e f : Expr} (he : e.FitsWords) (hf : f.FitsWords) :
    e.encode = f.encode ↔ e.core = f.core := by
  constructor
  · intro h
    exact (encode_append_inj he hf (congrArg (· ++ []) h)).1
  · intro h
    rw [← encode_core e, h, encode_core f]

theorem core_call_name_inj {g h : AggregateFunction} {args args' : List Expr} :
    (call g.name args).core = (call h.name args').core ↔
      g = h ∧ args.map core = args'.map core := by
  rw [core_call, core_call, call.injEq, AggregateFunction.name_inj]

/-- Encodings are unambiguous as long as lengths fit a word. What stands behind two equal
encodings is equal, no encoding starts with another one, and encodings are equal exactly for
expressions with one core: those that differ in the spelling of numerals only. So calls of
aggregate functions have one encoding exactly if they are calls of one function on arguments with
one core, and expressions with one encoding are evaluated alike, up to the texts in errors. -/
theorem encode_unambiguous [PatternEngine] {e f : Expr} (he : e.FitsWords) (hf : f.FitsWords) :
    (∀ r s : List UInt8, e.encode ++ r = f.encode ++ s → r = s ∧ e.core = f.core) ∧
      (e.encode <+: f.encode → e.encode = f.encode) ∧
      (e.encode = f.encode ↔ e.core = f.core) ∧
      (∀ (g h : AggregateFunction) (args args' : List Expr), e = call g.name args →
        f = call h.name args' →
        (e.encode = f.encode ↔ g = h ∧ args.map core = args'.map core)) ∧
      (e.encode = f.encode → ∀ row, (e.eval row).outline = (f.eval row).outline) := by
  have hiff := encode_eq_iff he hf
  refine ⟨?_, ?_, hiff, ?_, ?_⟩
  · intro r s h
    obtain ⟨hcore, hrest⟩ := encode_append_inj he hf h
    exact ⟨hrest, hcore⟩
  · rintro ⟨rest, h⟩
    have hcore := encode_append_inj he hf (h.trans (List.append_nil _).symm)
    exact hiff.2 hcore.1
  · rintro g h args args' rfl rfl
    exact hiff.trans core_call_name_inj
  · intro h row
    calc (e.eval row).outline = (e.core.eval row).outline := (outline_core row e).symm
      _ = (f.core.eval row).outline := by rw [hiff.1 h]
      _ = (f.eval row).outline := outline_core row f

/-- The sums of `1 + a` and of `1.0 + a` are one aggregate, and that of `1 + b` is another one. -/
theorem encode_unambiguous_sums :
    (call "SUM" [binary .add (number (Number.ofNat 1) "1") (identifier "a")]).encode =
        (call "SUM" [binary .add (number (Number.ofNat 1) "1.0") (identifier "a")]).encode ∧
      (call "SUM" [binary .add (number (Number.ofNat 1) "1") (identifier "a")]).encode ≠
        (call "SUM" [binary .add (number (Number.ofNat 1) "1") (identifier "b")]).encode := by
  have hfits : ∀ text column : String, (Text.encode column).length < 2 ^ 64 →
      (call "SUM" [binary .add (number (Number.ofNat 1) text) (identifier column)]).FitsWords := by
    intro text column hcolumn
    rw [fitsWords_call, List.forall_mem_singleton, fitsWords_binary]
    refine ⟨⟨by decide, by simp⟩, ?_, ?_⟩
    · simp [FitsWords, parts, lengths]
    · simpa [FitsWords, parts, lengths] using hcolumn
  have ha : (Text.encode "a").length < 2 ^ 64 := by decide
  have hb : (Text.encode "b").length < 2 ^ 64 := by decide
  constructor
  · apply (encode_unambiguous (hfits "1" "a" ha) (hfits "1.0" "a" ha)).2.2.1.2
    simp [core, mapLeaves, mapLeavesAll, leafCore]
  · intro h
    have hcore := (encode_unambiguous (hfits "1" "a" ha) (hfits "1" "b" hb)).2.2.1.1 h
    simp [core, mapLeaves, mapLeavesAll, leafCore] at hcore

end Expr

end TableQuery
