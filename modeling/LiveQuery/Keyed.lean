/-!
# Entries under distinct keys

A list of pairs in ascending order of the keys, with at most one entry for a key. JSON objects, the
table of functions and the table of feeds are such lists: their order of output is the order of the
list, and it does not depend on the order in which entries came.
-/

namespace LiveQuery.Keyed

variable {α : Type}

/-- Puts an entry at its place. An entry that was there under the same key is replaced. -/
def insert (key : String) (value : α) : List (String × α) → List (String × α)
  | [] => [(key, value)]
  | (k, v) :: rest =>
    if key < k then (key, value) :: (k, v) :: rest
    else if key = k then (key, value) :: rest
    else (k, v) :: insert key value rest

def find? (key : String) : List (String × α) → Option α
  | [] => none
  | (k, v) :: rest => if key = k then some v else find? key rest

/-- Takes the entry of a key out, if there is one. -/
def erase (key : String) (entries : List (String × α)) : List (String × α) :=
  entries.filter (·.1 != key)

def keys (entries : List (String × α)) : List String := entries.map (·.1)

/-- Collects pairs; of several with one key the last counts. -/
def ofList (pairs : List (String × α)) : List (String × α) :=
  pairs.foldl (fun entries (key, value) => insert key value entries) []

@[simp] theorem find?_nil (key : String) : find? key ([] : List (String × α)) = none := rfl

/-- After a write the key has the new value, and every other key what it had before. -/
theorem find?_insert (key other : String) (value : α) (entries : List (String × α)) :
    find? other (insert key value entries) =
      if other = key then some value else find? other entries := by
  induction entries with
  | nil => by_cases h : other = key <;> simp [insert, find?, h]
  | cons head rest ih =>
    obtain ⟨k, v⟩ := head
    simp only [insert]
    split
    · by_cases h : other = key <;> simp [find?, h]
    · split
      · subst_vars
        by_cases h : other = k <;> simp [find?, h]
      · by_cases h : other = k
        · subst h
          rename_i hne
          simp [find?, Ne.symm hne]
        · simp [find?, h, ih]

theorem find?_erase (key other : String) (entries : List (String × α)) :
    find? other (erase key entries) = if other = key then none else find? other entries := by
  induction entries with
  | nil => simp [erase]
  | cons head rest ih =>
    obtain ⟨k, v⟩ := head
    by_cases hk : k = key
    · rw [erase, List.filter_cons_of_neg (by simp [hk]), ← erase, ih]
      by_cases ho : other = key
      · rw [if_pos ho, if_pos ho]
      · rw [if_neg ho, if_neg ho, find?, if_neg (fun h => ho (h.trans hk))]
    · rw [erase, List.filter_cons_of_pos (by simp [hk]), ← erase, find?, find?, ih]
      by_cases ho : other = k
      · rw [if_pos ho, if_pos ho, if_neg (fun h => hk (ho.symm.trans h))]
      · rw [if_neg ho, if_neg ho]

end LiveQuery.Keyed
