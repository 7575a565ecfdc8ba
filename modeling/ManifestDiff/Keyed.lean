/-!
# Lists sorted by key

A finite map is a list of entries in strictly increasing order of their keys. Such a list is
determined by its lookups, and two of them are walked together along the union of their keys.
-/
namespace ManifestDiff.Keyed

variable {α β γ : Type} [Ord α]

/-- The entry for `k` is added in its place; one that is there already is replaced. -/
def insert (k : α) (v : β) : List (α × β) → List (α × β)
  | [] => [(k, v)]
  | (l, w) :: rest =>
    match compare k l with
    | .lt => (k, v) :: (l, w) :: rest
    | .eq => (k, v) :: rest
    | .gt => (l, w) :: insert k v rest

def ofList (entries : List (α × β)) : List (α × β) :=
  entries.foldl (fun map (k, v) => insert k v map) []

def find? (k : α) : List (α × β) → Option β
  | [] => none
  | (l, w) :: rest => if compare k l == .eq then some w else find? k rest

def contains (k : α) (entries : List (α × β)) : Bool :=
  (find? k entries).isSome

/-- Adds a key to a list of keys in increasing order, unless it is there already. -/
def insertKey (k : α) : List α → List α
  | [] => [k]
  | l :: rest =>
    match compare k l with
    | .lt => k :: l :: rest
    | .eq => l :: rest
    | .gt => l :: insertKey k rest

def sortKeys (keys : List α) : List α :=
  keys.foldr insertKey []

def unionKeys (xs : List (α × β)) (ys : List (α × γ)) : List α :=
  sortKeys (xs.map Prod.fst ++ ys.map Prod.fst)

def Sorted (entries : List (α × β)) : Prop :=
  entries.Pairwise fun a b => compare a.1 b.1 = .lt

theorem exists_mem_of_find? {k : α} {v : β} {entries : List (α × β)}
    (h : find? k entries = some v) : ∃ l, (l, v) ∈ entries := by
  induction entries with
  | nil => cases h
  | cons entry rest ih =>
    obtain ⟨l, w⟩ := entry
    rw [find?] at h
    split at h
    · cases h
      exact ⟨l, List.mem_cons_self⟩
    · obtain ⟨m, hm⟩ := ih h
      exact ⟨m, List.mem_cons_of_mem _ hm⟩

theorem sizeOf_lt_of_find? [SizeOf α] [SizeOf β] {k : α} {v : β} {entries : List (α × β)}
    (h : find? k entries = some v) : sizeOf v < sizeOf entries := by
  obtain ⟨l, hm⟩ := exists_mem_of_find? h
  have hentry := List.sizeOf_lt_of_mem hm
  rw [Prod.mk.sizeOf_spec] at hentry
  omega

theorem mem_of_mem_insert {k : α} {v : β} {entry : α × β} {entries : List (α × β)}
    (h : entry ∈ insert k v entries) : entry = (k, v) ∨ entry ∈ entries := by
  induction entries with
  | nil => simpa [insert] using h
  | cons head rest ih =>
    obtain ⟨l, w⟩ := head
    rw [insert] at h
    cases hc : compare k l with
    | lt => simpa [hc] using h
    | eq =>
      simp only [hc, List.mem_cons] at h
      exact h.imp_right (List.mem_cons_of_mem _)
    | gt =>
      simp only [hc, List.mem_cons] at h
      rcases h with h | h
      · exact Or.inr (List.mem_cons.mpr (Or.inl h))
      · exact (ih h).imp_right (List.mem_cons_of_mem _)

end ManifestDiff.Keyed
