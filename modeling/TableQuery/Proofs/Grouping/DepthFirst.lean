import TableQuery.KeyTree
import TableQuery.Proofs.OrderedMap

/-! # The order of groups

Paths of keys are listed depth first: by their first keys in the order in which these were first
seen, and under each first key the remaining paths in the same way. A tree that is filled row by
row lists its values in this order, each made by the updates at its path. -/

namespace TableQuery

variable {α : Type}

/-- What remains of a path under its first key. -/
def tailUnder (key : String) : List String → Option (List String)
  | [] => none
  | first :: path => if first = key then some path else none

/-- The distinct paths of `n` keys in a list, depth first. -/
def depthFirst : (n : Nat) → List (List String) → List (List String)
  | 0, paths => paths.take 1
  | n + 1, paths => (paths.filterMap List.head?).eraseDups.flatMap fun key =>
      (depthFirst n (paths.filterMap (tailUnder key))).map (key :: ·)

theorem tailUnder_eq_some {key : String} {path rest : List String} :
    tailUnder key path = some rest ↔ path = key :: rest := by
  cases path with
  | nil => simp [tailUnder]
  | cons first path =>
      by_cases h : first = key
      · simp [tailUnder, h]
      · simp [tailUnder, h]

theorem length_of_mem_tails {n : Nat} {paths : List (List String)}
    (h : ∀ path ∈ paths, path.length = n + 1) (key : String) :
    ∀ path ∈ paths.filterMap (tailUnder key), path.length = n := by
  intro path hpath
  obtain ⟨whole, hwhole, htail⟩ := List.mem_filterMap.1 hpath
  rw [tailUnder_eq_some] at htail
  have hlength := h whole hwhole
  rw [htail, List.length_cons] at hlength
  omega

/-- No path is lost, and none is made up. -/
theorem mem_depthFirst {n : Nat} {paths : List (List String)}
    (h : ∀ path ∈ paths, path.length = n) (path : List String) :
    path ∈ depthFirst n paths ↔ path ∈ paths := by
  induction n generalizing paths path with
  | zero =>
      cases paths with
      | nil => simp [depthFirst]
      | cons first rest =>
          have hall : ∀ p ∈ first :: rest, p = [] := fun p hp => List.length_eq_zero_iff.1 (h p hp)
          constructor
          · intro hpath
            exact List.mem_of_mem_take hpath
          · intro hpath
            rw [hall path hpath, depthFirst, hall first List.mem_cons_self]
            exact List.mem_cons_self
  | succ n ih =>
      rw [depthFirst, List.mem_flatMap]
      constructor
      · rintro ⟨key, -, hpath⟩
        obtain ⟨rest, hrest, rfl⟩ := List.mem_map.1 hpath
        rw [ih (length_of_mem_tails h key)] at hrest
        obtain ⟨whole, hwhole, htail⟩ := List.mem_filterMap.1 hrest
        exact tailUnder_eq_some.1 htail ▸ hwhole
      · intro hpath
        cases path with
        | nil =>
            have hlength := h [] hpath
            simp at hlength
        | cons key rest =>
            refine ⟨key, ?_, List.mem_map.2 ⟨rest, ?_, rfl⟩⟩
            · exact List.mem_eraseDups.2 (List.mem_filterMap.2 ⟨_, hpath, rfl⟩)
            · rw [ih (length_of_mem_tails h key)]
              exact List.mem_filterMap.2 ⟨_, hpath, tailUnder_eq_some.2 rfl⟩

/-- No path is listed twice. -/
theorem nodup_depthFirst (n : Nat) (paths : List (List String)) : (depthFirst n paths).Nodup := by
  induction n generalizing paths with
  | zero => cases paths <;> simp [depthFirst]
  | succ n ih =>
      rw [depthFirst, List.nodup_flatMap]
      constructor
      · intro key _
        exact (ih _).map fun _ _ h => (List.cons.inj h).2
      · refine (nodup_eraseDups _).imp ?_
        intro k l hkl path hk hl
        obtain ⟨_, -, rfl⟩ := List.mem_map.1 hk
        obtain ⟨_, -, h⟩ := List.mem_map.1 hl
        exact hkl (List.cons.inj h).1.symm

namespace KeyTree

/-- An update: the path at which a value changes, and how. -/
abbrev Update (α : Type) := List String × (Option α → α)

/-- The tree after one update. -/
def apply (t : KeyTree α) (u : Update α) : KeyTree α := t.alter u.2 u.1

/-- The value that updates of one path make, if there is an update. -/
def settle (l : List (Option α → α)) : Option α := l.foldl (fun value f => some (f value)) none

/-- The update under the first key of its path. -/
def Update.under (key : String) (u : Update α) : Option (Update α) :=
  (tailUnder key u.1).map fun path => (path, u.2)

/-- The updates at a path, in order. -/
def updatesAt (us : List (Update α)) (path : List String) : List (Option α → α) :=
  (us.filter (·.1 = path)).map (·.2)

theorem alterChild_map {keys : List String} (hkeys : keys.Nodup) (key : String)
    (f : KeyTree α → KeyTree α) (child : String → KeyTree α)
    (hnew : key ∉ keys → child key = ∅) :
    alterChild key f (keys.map fun k => (k, child k)) =
      (if key ∈ keys then keys else keys ++ [key]).map fun k =>
        (k, if k = key then f (child k) else child k) := by
  induction keys with
  | nil => simp [alterChild, hnew]
  | cons k keys ih =>
      obtain ⟨hk, hkeys⟩ := List.nodup_cons.1 hkeys
      by_cases h : k = key
      · subst h
        have hothers : ∀ l ∈ keys, (l, child l) = (l, if l = k then f (child l) else child l) := by
          intro l hl
          rw [if_neg fun heq : l = k => hk (heq ▸ hl)]
        rw [if_pos List.mem_cons_self, List.map_cons, List.map_cons, alterChild, if_pos rfl,
          if_pos rfl, List.map_congr_left hothers]
      · have hmem : key ∈ k :: keys ↔ key ∈ keys := by
          rw [List.mem_cons, or_iff_right fun heq : key = k => h heq.symm]
        rw [List.map_cons, alterChild, if_neg h, ih hkeys fun hkey => hnew (hmem.not.2 hkey)]
        by_cases hkey : key ∈ keys
        · rw [if_pos hkey, if_pos (hmem.2 hkey), List.map_cons, if_neg h]
        · rw [if_neg hkey, if_neg (hmem.not.2 hkey), List.cons_append, List.map_cons, if_neg h]

theorem under_cons {key first : String} {path : List String} {f : Option α → α} :
    Update.under key (first :: path, f) = if first = key then some (path, f) else none := by
  rw [Update.under, tailUnder]
  split <;> rfl

theorem under_eq_none {us : List (Update α)} {key : String}
    (h : key ∉ (us.filterMap (·.1.head?)).eraseDups) :
    ∀ u ∈ us, Update.under key u = none := by
  intro u hu
  obtain ⟨path, f⟩ := u
  cases path with
  | nil => rfl
  | cons first path =>
      refine under_cons.trans (if_neg ?_)
      rintro rfl
      exact h (List.mem_eraseDups.2 (List.mem_filterMap.2 ⟨_, hu, rfl⟩))

/-- Where all updates go deeper, each child of the root takes the updates under its key. -/
theorem foldl_apply {n : Nat} {us : List (Update α)} (h : ∀ u ∈ us, u.1.length = n + 1) :
    us.foldl apply ∅ = node none ((us.filterMap (·.1.head?)).eraseDups.map fun key =>
      (key, (us.filterMap (Update.under key)).foldl apply ∅)) := by
  induction us using List.reverseRecOn with
  | nil => rfl
  | append_singleton us u ih =>
      obtain ⟨path, f⟩ := u
      cases path with
      | nil =>
          have hlength := h ([], f) (by simp)
          simp at hlength
      | cons key path =>
          have hnew : key ∉ (us.filterMap (·.1.head?)).eraseDups →
              (us.filterMap (Update.under key)).foldl apply ∅ = (∅ : KeyTree α) := by
            intro hkey
            rw [List.filterMap_eq_nil_iff.2 (under_eq_none hkey)]
            rfl
          have hheads : (us ++ [(key :: path, f)]).filterMap (·.1.head?) =
              us.filterMap (·.1.head?) ++ [key] := List.filterMap_append
          rw [List.foldl_append, ih fun u hu => h u (List.mem_append_left _ hu)]
          simp only [List.foldl_cons, List.foldl_nil, apply, alter]
          rw [alterChild_map (nodup_eraseDups _) key _ _ hnew, hheads, eraseDups_concat]
          simp only [List.mem_eraseDups]
          congr 1
          refine List.map_congr_left fun k _ => ?_
          rw [List.filterMap_append, List.foldl_append]
          by_cases hk : k = key
          · rw [if_pos hk, List.filterMap_cons_some (under_cons.trans (if_pos hk.symm))]
            rfl
          · rw [if_neg hk, List.filterMap_cons_none (under_cons.trans (if_neg (Ne.symm hk)))]
            rfl

theorem updatesAt_under (us : List (Update α)) (key : String) (path : List String) :
    updatesAt (us.filterMap (Update.under key)) path = updatesAt us (key :: path) := by
  induction us with
  | nil => rfl
  | cons u us ih =>
      obtain ⟨whole, f⟩ := u
      cases whole with
      | nil =>
          rw [List.filterMap_cons_none rfl, ih]
          simp [updatesAt]
      | cons first rest =>
          by_cases hfirst : first = key
          · rw [List.filterMap_cons_some (under_cons.trans (if_pos hfirst))]
            simp only [updatesAt] at ih ⊢
            by_cases hrest : rest = path
            · simp [hfirst, hrest, ih]
            · simp [hfirst, hrest, ih]
          · rw [List.filterMap_cons_none (under_cons.trans (if_neg hfirst)), ih]
            simp [updatesAt, hfirst]

theorem toListAll_map (keys : List String) (child : String → KeyTree α) :
    toListAll (keys.map fun k => (k, child k)) = keys.flatMap fun k => (child k).toList := by
  induction keys with
  | nil => rfl
  | cons k keys ih => rw [List.map_cons, toListAll, ih, List.flatMap_cons]

/-- Where all updates are at the root, the root takes them all. -/
theorem foldl_apply_root {us : List (Update α)} (h : ∀ u ∈ us, u.1.length = 0)
    (value : Option α) : us.foldl apply (node value []) =
      node ((us.map (·.2)).foldl (fun value f => some (f value)) value) [] := by
  induction us generalizing value with
  | nil => rfl
  | cons u us ih =>
      obtain ⟨path, f⟩ := u
      have hpath : path = [] := List.length_eq_zero_iff.1 (h (path, f) List.mem_cons_self)
      subst hpath
      exact ih (fun u hu => h u (List.mem_cons_of_mem _ hu)) (some (f value))

/-- A tree filled from nothing lists its values depth first, each made by the updates at its
path. -/
theorem toList_foldl_apply {n : Nat} {us : List (Update α)} (h : ∀ u ∈ us, u.1.length = n) :
    (us.foldl apply ∅).toList =
      (depthFirst n (us.map (·.1))).filterMap fun path => settle (updatesAt us path) := by
  induction n generalizing us with
  | zero =>
      have hpath : ∀ u ∈ us, u.1 = [] := fun u hu => List.length_eq_zero_iff.1 (h u hu)
      have hall : updatesAt us [] = us.map (·.2) := by
        rw [updatesAt, List.filter_eq_self.2 fun u hu => by simpa using hpath u hu]
      have hroot : us.foldl apply ∅ = node (settle (us.map (·.2))) [] := foldl_apply_root h none
      rw [hroot, toList, toListAll, List.append_nil, ← hall, depthFirst]
      cases us with
      | nil => rfl
      | cons u rest =>
          rw [List.map_cons, hpath u List.mem_cons_self, List.take_succ_cons, List.take_zero,
            List.filterMap_cons]
          cases settle (updatesAt (u :: rest) []) <;> rfl
  | succ n ih =>
      have hunder : ∀ key, ∀ u ∈ us.filterMap (Update.under key), u.1.length = n := by
        intro key u hu
        obtain ⟨whole, hwhole, htail⟩ := List.mem_filterMap.1 hu
        obtain ⟨path, hpath, rfl⟩ := Option.map_eq_some_iff.1 htail
        have hlength := h whole hwhole
        rw [tailUnder_eq_some.1 hpath, List.length_cons] at hlength
        exact Nat.succ.inj hlength
      have hpaths : ∀ key, (us.filterMap (Update.under key)).map (·.1) =
          (us.map (·.1)).filterMap (tailUnder key) := by
        intro key
        rw [List.map_filterMap, List.filterMap_map]
        congr 1
        funext u
        change (Update.under key u).map (·.1) = tailUnder key u.1
        rw [Update.under]
        cases tailUnder key u.1 <;> rfl
      rw [foldl_apply h, toList, toListAll_map, depthFirst, List.filterMap_flatMap,
        List.filterMap_map]
      refine congrArg (List.flatMap · _) (funext fun key => ?_)
      simp only [ih (hunder key), hpaths key, List.filterMap_map, updatesAt_under]
      rfl

end KeyTree

end TableQuery
