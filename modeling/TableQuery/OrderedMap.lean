/-! # Ordered maps

Pairs of a key and a value in the order in which the keys were first inserted. Inserting a key
that is already there replaces its value and leaves it in its place. -/

namespace TableQuery

/-- Pairs of a key and a value, no key twice, in the order of first insertion. -/
structure OrderedMap (α β : Type) where
  /-- The pairs. -/
  entries : List (α × β) := []
  /-- No key occurs twice. -/
  nodup_keys : (entries.map Prod.fst).Nodup := by simp
deriving DecidableEq

namespace OrderedMap

variable {α β γ : Type}

instance : EmptyCollection (OrderedMap α β) := ⟨{}⟩

instance : Inhabited (OrderedMap α β) := ⟨∅⟩

/-- The keys in order. -/
def keys (m : OrderedMap α β) : List α := m.entries.map Prod.fst

/-- The values in the order of their keys. -/
def values (m : OrderedMap α β) : List β := m.entries.map Prod.snd

/-- The number of keys. -/
def size (m : OrderedMap α β) : Nat := m.entries.length

/-- Whether there is no key. -/
def isEmpty (m : OrderedMap α β) : Bool := m.entries.isEmpty

/-- The map with each value replaced by its image, which may depend on the key. -/
def mapValues (f : α → β → γ) (m : OrderedMap α β) : OrderedMap α γ where
  entries := m.entries.map fun (k, v) => (k, f k v)
  nodup_keys := by
    simpa [List.map_map, Function.comp_def] using m.nodup_keys

variable [DecidableEq α]

/-- Replaces the value at `k`, or adds the pair at the end. -/
def insertEntry (k : α) (v : β) : List (α × β) → List (α × β)
  | [] => [(k, v)]
  | entry :: rest =>
    if entry.1 = k then (k, v) :: rest else entry :: insertEntry k v rest

theorem keys_insertEntry (k : α) (v : β) (entries : List (α × β)) :
    (insertEntry k v entries).map Prod.fst =
      if k ∈ entries.map Prod.fst then entries.map Prod.fst
      else entries.map Prod.fst ++ [k] := by
  induction entries with
  | nil => simp [insertEntry]
  | cons entry rest ih =>
    by_cases h : entry.1 = k
    · simp [insertEntry, h]
    · have h' : ¬k = entry.1 := fun e => h e.symm
      simp only [insertEntry, if_neg h, List.map_cons, ih, List.mem_cons, h', false_or]
      split <;> simp

/-- The map with `v` at the key `k`. -/
def insert (k : α) (v : β) (m : OrderedMap α β) : OrderedMap α β where
  entries := insertEntry k v m.entries
  nodup_keys := by
    rw [keys_insertEntry]
    split
    case isTrue hk => exact m.nodup_keys
    case isFalse hk =>
      have hnew : ∀ key ∈ m.entries.map Prod.fst, ∀ added ∈ [k], key ≠ added := by
        intro key hkey added hadded heq
        have hadded : added = k := List.mem_singleton.mp hadded
        subst hadded heq
        exact hk hkey
      exact List.nodup_append.mpr ⟨m.nodup_keys, List.pairwise_singleton _ k, hnew⟩

/-- The value at the key `k`. -/
def get? (m : OrderedMap α β) (k : α) : Option β :=
  m.entries.lookup k

/-- Inserts pairs one after another. -/
def ofList (l : List (α × β)) : OrderedMap α β :=
  l.foldl (fun m (k, v) => m.insert k v) ∅

@[simp] theorem keys_insert (k : α) (v : β) (m : OrderedMap α β) :
    (m.insert k v).keys = if k ∈ m.keys then m.keys else m.keys ++ [k] :=
  keys_insertEntry k v m.entries

end OrderedMap

end TableQuery
