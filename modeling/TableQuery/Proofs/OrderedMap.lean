import Mathlib.Data.List.Induction
import Mathlib.Data.List.Nodup
import TableQuery.OrderedMap

/-! # Maps in the order of first insertion

Inserting at a key changes the value at that key and at no other. A map made by insertions lists
its keys in the order in which they were first seen, each with the last value given to it. -/

namespace TableQuery

theorem eraseDups_concat {α : Type} [DecidableEq α] (l : List α) (a : α) :
    (l ++ [a]).eraseDups = if a ∈ l then l.eraseDups else l.eraseDups ++ [a] := by
  rw [List.eraseDups_append]
  split
  · next h => simp [List.removeAll, h]
  · next h => simp [List.removeAll, h, List.eraseDups_cons]

theorem nodup_eraseDups {α : Type} [DecidableEq α] (l : List α) : l.eraseDups.Nodup := by
  induction l using List.reverseRecOn with
  | nil => simp
  | append_singleton l a ih =>
      rw [eraseDups_concat]
      split
      · exact ih
      · next ha =>
        rw [List.nodup_append]
        refine ⟨ih, by simp, ?_⟩
        intro b hb c hc hbc
        rw [List.mem_singleton.1 hc] at hbc
        exact ha (hbc ▸ List.mem_eraseDups.1 hb)

namespace OrderedMap

variable {α β : Type} [DecidableEq α]

omit [DecidableEq α] in
theorem eq_of_entries {m n : OrderedMap α β} (h : m.entries = n.entries) : m = n := by
  cases m
  cases h
  rfl

theorem lookup_cons_ite (l : α) (entry : α × β) (entries : List (α × β)) :
    (entry :: entries).lookup l = if l = entry.1 then some entry.2 else entries.lookup l := by
  by_cases h : l = entry.1
  · rw [List.lookup_cons, if_pos h, h, beq_self_eq_true]
  · rw [List.lookup_cons, if_neg h, beq_eq_false_iff_ne.2 h]

theorem lookup_insertEntry (k l : α) (v : β) (entries : List (α × β)) :
    (insertEntry k v entries).lookup l = if l = k then some v else entries.lookup l := by
  induction entries with
  | nil => exact lookup_cons_ite l (k, v) []
  | cons entry rest ih =>
      by_cases hkey : entry.1 = k
      · rw [insertEntry, if_pos hkey, lookup_cons_ite, lookup_cons_ite, hkey]
        split <;> rfl
      · rw [insertEntry, if_neg hkey, lookup_cons_ite, lookup_cons_ite, ih]
        by_cases hl : l = entry.1
        · have hlk : l ≠ k := fun h => hkey (hl.symm.trans h)
          rw [if_pos hl, if_pos hl, if_neg hlk]
        · rw [if_neg hl, if_neg hl]

@[simp] theorem get?_insert (m : OrderedMap α β) (k l : α) (v : β) :
    (m.insert k v).get? l = if l = k then some v else m.get? l :=
  lookup_insertEntry k l v m.entries

@[simp] theorem get?_empty (l : α) : (∅ : OrderedMap α β).get? l = none := rfl

omit [DecidableEq α] in
@[simp] theorem keys_empty : (∅ : OrderedMap α β).keys = [] := rfl

theorem lookup_map_pair {γ : Type} (f : α → β → γ) (l : α) (entries : List (α × β)) :
    (entries.map fun (k, v) => (k, f k v)).lookup l = (entries.lookup l).map (f l) := by
  induction entries with
  | nil => rfl
  | cons entry rest ih =>
      rw [List.map_cons, lookup_cons_ite, lookup_cons_ite, ih]
      by_cases h : l = entry.1
      · simp [h]
      · rw [if_neg h, if_neg h]

@[simp] theorem get?_mapValues {γ : Type} (f : α → β → γ) (m : OrderedMap α β) (l : α) :
    (m.mapValues f).get? l = (m.get? l).map (f l) :=
  lookup_map_pair f l m.entries

theorem lookup_eq_none_iff (l : α) (entries : List (α × β)) :
    entries.lookup l = none ↔ l ∉ entries.map Prod.fst := by
  induction entries with
  | nil => simp
  | cons entry rest ih =>
      rw [lookup_cons_ite, List.map_cons, List.mem_cons]
      by_cases h : l = entry.1
      · simp [h]
      · rw [if_neg h, ih, or_iff_right h]

theorem get?_eq_none_iff (m : OrderedMap α β) (l : α) : m.get? l = none ↔ l ∉ m.keys :=
  lookup_eq_none_iff l m.entries

theorem insertEntry_of_notMem {k : α} {entries : List (α × β)} (v : β)
    (h : k ∉ entries.map Prod.fst) : insertEntry k v entries = entries ++ [(k, v)] := by
  induction entries with
  | nil => rfl
  | cons entry rest ih =>
      rw [List.map_cons, List.mem_cons, not_or] at h
      rw [insertEntry, if_neg fun heq => h.1 heq.symm, ih h.2, List.cons_append]

theorem insertEntry_eq_self {k : α} {v : β} {entries : List (α × β)}
    (h : entries.lookup k = some v) : insertEntry k v entries = entries := by
  induction entries with
  | nil => cases h
  | cons entry rest ih =>
      rw [lookup_cons_ite] at h
      split at h
      · next hk =>
        obtain rfl := Option.some.inj h
        rw [insertEntry, if_pos hk.symm, hk]
      · next hk => rw [insertEntry, if_neg fun heq => hk heq.symm, ih h]

/-- To insert what a map has already is to leave it as it is. -/
theorem insert_eq_self {m : OrderedMap α β} {k : α} {v : β} (h : m.get? k = some v) :
    m.insert k v = m :=
  eq_of_entries (insertEntry_eq_self h)

/-- Pairs with new keys are added at the end. -/
theorem entries_foldl_insert (l : List (α × β)) (m : OrderedMap α β)
    (hkeys : (m.keys ++ l.map Prod.fst).Nodup) :
    (l.foldl (fun m (k, v) => m.insert k v) m).entries = m.entries ++ l := by
  induction l generalizing m with
  | nil => simp
  | cons pair l ih =>
      have hnew : pair.1 ∉ m.keys := by
        intro hmem
        exact (List.nodup_append.1 hkeys).2.2 _ hmem _ List.mem_cons_self rfl
      have hentries : (m.insert pair.1 pair.2).entries = m.entries ++ [pair] :=
        insertEntry_of_notMem pair.2 hnew
      have hkeys' : (m.insert pair.1 pair.2).keys = m.keys ++ [pair.1] := by
        rw [keys_insert, if_neg hnew]
      rw [List.map_cons, List.append_cons, ← hkeys'] at hkeys
      rw [List.append_cons, ← hentries]
      exact ih _ hkeys

theorem keys_foldl_insert (l : List (α × β)) (m : OrderedMap α β)
    (hkeys : (m.keys ++ l.map Prod.fst).Nodup) :
    (l.foldl (fun m (k, v) => m.insert k v) m).keys = m.keys ++ l.map Prod.fst := by
  rw [keys, entries_foldl_insert l m hkeys, List.map_append]
  rfl

/-- Pairs with distinct keys make a map of just these pairs. -/
theorem ofList_eq_of_nodup {l : List (α × β)} (hkeys : (l.map Prod.fst).Nodup) :
    ofList l = ⟨l, hkeys⟩ := by
  apply eq_of_entries
  exact entries_foldl_insert l ∅ hkeys

/-- Each key is listed where it was first inserted. -/
theorem keys_ofList (l : List (α × β)) : (ofList l).keys = (l.map Prod.fst).eraseDups := by
  induction l using List.reverseRecOn with
  | nil => rfl
  | append_singleton l pair ih =>
      rw [ofList, List.foldl_append, ← ofList, List.foldl_cons, List.foldl_nil, keys_insert, ih,
        List.map_append, List.map_singleton, eraseDups_concat]
      simp only [List.mem_eraseDups]

/-- For each key in the order in which it is first seen, the last pair with that key. -/
def lastPairs (l : List (α × β)) : List (α × β) :=
  (l.map Prod.fst).eraseDups.filterMap fun k => (l.filter (·.1 = k)).getLast?

theorem insertEntry_filterMap {keys : List α} (hkeys : keys.Nodup) (k : α) (v : β)
    {pair : α → Option (α × β)} (hpair : ∀ l ∈ keys, ∃ w, pair l = some (l, w)) :
    insertEntry k v (keys.filterMap pair) =
      (if k ∈ keys then keys else keys ++ [k]).filterMap fun l =>
        if l = k then some (k, v) else pair l := by
  induction keys with
  | nil => simp [insertEntry]
  | cons l keys ih =>
      obtain ⟨hl, hkeys⟩ := List.nodup_cons.1 hkeys
      obtain ⟨⟨w, hw⟩, hpair⟩ := List.forall_mem_cons.1 hpair
      rw [List.filterMap_cons_some hw, insertEntry]
      by_cases h : l = k
      · subst h
        have hothers : ∀ m ∈ keys, pair m = if m = l then some (l, v) else pair m := by
          intro m hm
          rw [if_neg fun heq : m = l => hl (heq ▸ hm)]
        rw [if_pos rfl, if_pos List.mem_cons_self, List.filterMap_congr hothers,
          List.filterMap_cons, if_pos rfl]
      · have hmem : k ∈ l :: keys ↔ k ∈ keys := by
          rw [List.mem_cons, or_iff_right fun heq : k = l => h heq.symm]
        rw [if_neg h, ih hkeys hpair]
        by_cases hk : k ∈ keys
        · rw [if_pos hk, if_pos (hmem.2 hk), List.filterMap_cons, if_neg h, hw]
        · rw [if_neg hk, if_neg (hmem.not.2 hk), List.cons_append, List.filterMap_cons, if_neg h,
            hw]

theorem exists_last_pair {l : List (α × β)} {k : α} (h : k ∈ (l.map Prod.fst).eraseDups) :
    ∃ v, (l.filter (·.1 = k)).getLast? = some (k, v) := by
  obtain ⟨pair, hmem, hk⟩ := List.mem_map.1 (List.mem_eraseDups.1 h)
  cases hlast : (l.filter (·.1 = k)).getLast? with
  | none =>
      have hfilter := List.filter_eq_nil_iff.1 (List.getLast?_eq_none_iff.1 hlast) pair hmem
      exact absurd (decide_eq_true hk) hfilter
  | some last =>
      have hkey := (List.mem_filter.1 (List.mem_of_getLast? hlast)).2
      exact ⟨last.2, congrArg some (Prod.ext (of_decide_eq_true hkey) rfl)⟩

theorem lastPairs_concat (l : List (α × β)) (k : α) (v : β) :
    lastPairs (l ++ [(k, v)]) = insertEntry k v (lastPairs l) := by
  have hlast : ∀ m, ((l ++ [(k, v)]).filter (·.1 = m)).getLast? =
      if m = k then some (k, v) else (l.filter (·.1 = m)).getLast? := by
    intro m
    rw [List.filter_append]
    by_cases h : m = k
    · simp [h]
    · have hkm : ¬k = m := fun heq => h heq.symm
      simp [h, hkm]
  rw [lastPairs, lastPairs, insertEntry_filterMap (nodup_eraseDups _) k v fun m hm =>
    exists_last_pair hm, List.map_append, List.map_cons, List.map_nil, eraseDups_concat]
  simp only [hlast, List.mem_eraseDups]

/-- Of pairs inserted one after another, the first with a key gives the place and the last the
value. -/
theorem entries_ofList (l : List (α × β)) : (ofList l).entries = lastPairs l := by
  induction l using List.reverseRecOn with
  | nil => rfl
  | append_singleton l pair ih =>
      rw [lastPairs_concat, ← ih, ofList, List.foldl_append]
      rfl

theorem nodup_lastPairs (l : List (α × β)) : ((lastPairs l).map Prod.fst).Nodup :=
  entries_ofList l ▸ (ofList l).nodup_keys

theorem ofList_eq (l : List (α × β)) : ofList l = ⟨lastPairs l, nodup_lastPairs l⟩ := by
  apply eq_of_entries
  exact entries_ofList l

end OrderedMap

end TableQuery
