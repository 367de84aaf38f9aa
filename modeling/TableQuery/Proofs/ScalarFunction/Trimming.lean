import TableQuery.Proofs.Number.Exact
import TableQuery.Proofs.Text.Trimming
import TableQuery.ScalarFunction

/-!
# What the trimming functions leave

Trimming at the start drops the longest run of characters of a set that a text starts with, or as
much of it as a least length leaves. Trimming at both ends also drops the longest run that the rest
ends with. What is left once is left again.
-/

namespace TableQuery.ScalarFunction

/-- The first `k` characters of the text belong to the set. -/
def Leads (set s : List Char) (k : Nat) : Prop := k ≤ s.length ∧ ∀ c ∈ s.take k, c ∈ set

/-- The last `k` characters of the text belong to the set. -/
def Trails (set s : List Char) (k : Nat) : Prop :=
  k ≤ s.length ∧ ∀ c ∈ s.drop (s.length - k), c ∈ set

variable {p : Char → Bool} {set s : List Char} {least : Nat}

section Runs

theorem isGreatest_leads (set s : List Char) :
    IsGreatest {k | Leads set s k} (s.takeWhile set.contains).length := by
  have hlead : s.takeWhile set.contains <+: s := List.takeWhile_prefix _
  constructor
  · refine ⟨hlead.length_le, fun c hc => ?_⟩
    rw [← List.prefix_iff_eq_take.1 hlead] at hc
    exact List.contains_iff_mem.1 (List.mem_takeWhile_imp hc)
  · rintro k ⟨hk, hall⟩
    have hsplit : s.takeWhile set.contains = s.take k ++ (s.drop k).takeWhile set.contains := by
      conv_lhs => rw [← List.take_append_drop k s]
      exact List.takeWhile_append_of_pos fun c hc => List.contains_iff_mem.2 (hall c hc)
    rw [hsplit, List.length_append, List.length_take_of_le hk]
    exact Nat.le_add_right k _

/-- The end of a text is the start of its reverse. -/
theorem trails_iff {k : Nat} : Trails set s k ↔ Leads set s.reverse k := by
  rw [Trails, Leads, List.length_reverse, List.take_reverse]
  simp only [List.mem_reverse]

theorem isGreatest_trails (set s : List Char) :
    IsGreatest {k | Trails set s k} (s.reverse.takeWhile set.contains).length := by
  simp only [trails_iff]
  exact isGreatest_leads set s.reverse

end Runs

section Dropped

theorem drop_takeWhile_length (p : Char → Bool) (s : List Char) :
    s.drop (s.takeWhile p).length = s.dropWhile p := by
  have hparts : s.takeWhile p ++ s.dropWhile p = s := List.takeWhile_append_dropWhile
  calc s.drop (s.takeWhile p).length
      = (s.takeWhile p ++ s.dropWhile p).drop (s.takeWhile p).length := by rw [hparts]
    _ = s.dropWhile p := List.drop_left

theorem trimEnd_eq_take (p : Char → Bool) (s : List Char) :
    Text.trimEnd p s = s.take (s.length - (s.reverse.takeWhile p).length) := by
  rw [Text.trimEnd, ← drop_takeWhile_length, List.drop_reverse, List.reverse_reverse]

/-- As many characters are dropped as the longest run has, and no more than the count. -/
theorem dropUpTo_eq_drop (p : Char → Bool) (count : Nat) (s : List Char) :
    dropUpTo p count s = s.drop (min (s.takeWhile p).length count) := by
  induction count generalizing s with
  | zero => rw [dropUpTo, Nat.min_zero, List.drop_zero]
  | succ count ih =>
      cases s with
      | nil => rw [dropUpTo, List.drop_nil]; simp
      | cons c s =>
          rw [dropUpTo]
          by_cases hc : p c = true
          · rw [if_pos hc, ih, List.takeWhile_cons_of_pos hc, List.length_cons,
              Nat.add_min_add_right, List.drop_succ_cons]
          · rw [if_neg hc, List.takeWhile_cons_of_neg hc, List.length_nil, Nat.zero_min,
              List.drop_zero]

/-- What is left starts with another character, or it is as short as it may become. -/
theorem drop_again {rest : List Char}
    (h : rest = s.drop (min (s.takeWhile p).length (s.length - least))) :
    rest.drop (min (rest.takeWhile p).length (rest.length - least)) = rest := by
  have hnone : min (rest.takeWhile p).length (rest.length - least) = 0 := by
    rcases Nat.le_total (s.takeWhile p).length (s.length - least) with hrun | hleast
    · have hrest : rest = s.dropWhile p := by
        rw [h, Nat.min_eq_left hrun, drop_takeWhile_length]
      have hhead : rest.takeWhile p = [] := by
        rw [hrest]
        exact List.takeWhile_eq_nil_iff.2 fun hpos => by
          simpa [List.head_eq_getElem] using
            List.head_dropWhile_not p (List.ne_nil_of_length_pos hpos)
      rw [hhead, List.length_nil, Nat.zero_min]
    · have hlength : rest.length = s.length - (s.length - least) := by
        rw [h, Nat.min_eq_right hleast, List.length_drop]
      rw [hlength]
      omega
  rw [hnone, List.drop_zero]

end Dropped

section Functions

/-- The value of the function with the name, in any case of its letters. -/
def call (name : String) (args : List Value) : Option Value :=
  (ofName? name).map (·.apply args)

variable {chars text : String} {v : Value} {x : Number}

theorem keptCount_eq (hv : v.number? = some x) (hx : x.IsExactly least) :
    keptCount (some v) = least := by
  rw [keptCount, Option.bind_some, hv]
  exact hx.wholePart_eq

theorem call_trimStart (hs : text ≠ "") (more : List Value) :
    call "LTRIM" (.text text :: .text chars :: more) =
      some (.text (String.ofList (text.toList.drop (min (text.toList.takeWhile
        chars.toList.contains).length (text.toList.length - keptCount more.head?))))) := by
  have hname : ofName? "LTRIM" = some trimStart := by decide
  have hnull : (Value.text text).isNull = false := by simpa [Value.isNull] using hs
  have hmore : (Value.text text :: Value.text chars :: more)[2]? = more.head? := by
    rw [List.getElem?_cons_succ, List.getElem?_cons_succ, List.head?_eq_getElem?]
  rw [call, hname, Option.map_some, apply, ← dropUpTo_eq_drop]
  simp only [List.headD_cons, hnull, hmore]
  rfl

theorem call_trim (hs : text ≠ "") :
    call "TRIM" [.text text, .text chars] =
      some (.text (String.ofList (Text.trimBy chars.toList.contains text.toList))) := by
  have hname : ofName? "TRIM" = some trim := by decide
  have hnull : (Value.text text).isNull = false := by simpa [Value.isNull] using hs
  rw [call, hname, Option.map_some, apply]
  simp only [List.headD_cons, hnull]
  rfl

/-- LTRIM drops the longest run of characters of the set at the start of a text, or as much of it as
leaves the least length asked for, which each natural number below `2 ^ 53` can be; trimming again
drops nothing. TRIM drops that run and then the longest run at the end of what LTRIM leaves. -/
theorem trims_longest_runs (chars : String) (hs : text ≠ "") (hv : v.number? = some x)
    (hx : x.IsExactly least) :
    ∃ lead, IsGreatest {k | Leads chars.toList text.toList k} lead ∧
      (let rest := text.toList.drop (min lead (text.toList.length - least));
        call "LTRIM" [.text text, .text chars, v] = some (.text (String.ofList rest)) ∧
          (rest <:+ text.toList) ∧ min least text.toList.length ≤ rest.length ∧
          (rest ≠ [] → call "LTRIM" [.text (String.ofList rest), .text chars, v] =
            some (.text (String.ofList rest)))) ∧
      let rest := text.toList.drop lead
      ∃ trail, IsGreatest {k | Trails chars.toList rest k} trail ∧
        call "LTRIM" [.text text, .text chars] = some (.text (String.ofList rest)) ∧
        call "TRIM" [.text text, .text chars] =
          some (.text (String.ofList (rest.take (rest.length - trail)))) := by
  refine ⟨_, isGreatest_leads chars.toList text.toList, ?_, ?_⟩
  · intro rest
    have hkept : keptCount [v].head? = least := keptCount_eq hv hx
    refine ⟨?_, List.drop_suffix _ _, ?_, fun hrest => ?_⟩
    · rw [call_trimStart hs, hkept]
    · rw [List.length_drop]
      omega
    · have hne : String.ofList rest ≠ "" := by simpa using hrest
      rw [call_trimStart hne, hkept, String.toList_ofList, drop_again rfl]
  · intro rest
    refine ⟨_, isGreatest_trails chars.toList rest, ?_, ?_⟩
    · have hkept : keptCount ([] : List Value).head? = 0 := rfl
      have hrun := (isGreatest_leads chars.toList text.toList).1.1
      rw [call_trimStart hs, hkept, Nat.sub_zero, Nat.min_eq_left hrun]
    · rw [call_trim hs, Text.trimBy, Text.trimStart, ← drop_takeWhile_length, trimEnd_eq_take]

/-- Characters of several bytes, of which one has to stay. -/
theorem trims_longest_runs_accented :
    let v := Value.number (Number.ofNat 3)
    call "LTRIM" [.text "ééaé", .text "xé", v] = some (.text "éaé") ∧
      call "LTRIM" [.text "éaé", .text "xé", v] = some (.text "éaé") ∧
      call "LTRIM" [.text "ééaé", .text "xé"] = some (.text "aé") ∧
      call "TRIM" [.text "ééaé", .text "xé"] = some (.text "a") := by
  intro v
  have hv : v.number? = some (Number.ofNat 3) := by decide +kernel
  have hx : (Number.ofNat 3).IsExactly 3 := Number.isExactly_ofNat (by decide)
  obtain ⟨lead, hlead, ⟨hltrim, -, -, hagain⟩, trail, htrail, hfull, htrim⟩ :=
    trims_longest_runs "xé" (show "ééaé" ≠ "" by decide) hv hx
  obtain rfl : lead = 2 := hlead.unique (isGreatest_leads _ _)
  obtain rfl : trail = 1 := htrail.unique (isGreatest_trails _ _)
  exact ⟨hltrim, hagain (by decide), hfull, htrim⟩

/-- Where all characters belong to the set, nothing but the least length is left. -/
example : call "ltrim" [.text "0000", .text "0", .text " 1 "] = some (.text "0") := by
  decide +kernel

end Functions

end TableQuery.ScalarFunction
