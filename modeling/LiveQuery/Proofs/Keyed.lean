import Mathlib.Data.String.Basic
import LiveQuery.Keyed

/-!
# The keys of a table

A table is kept in ascending order of its keys, so a key stands in it once, and a write or a removal
changes the keys in the one obvious way.
-/

namespace LiveQuery.Keyed

variable {α : Type}

/-- The keys stand in ascending order. -/
def Ascending (entries : List (String × α)) : Prop := (keys entries).Pairwise (· < ·)

theorem Ascending.nodup {entries : List (String × α)} (h : Ascending entries) :
    (keys entries).Nodup :=
  List.Pairwise.imp (fun hlt => ne_of_lt hlt) h

theorem ascending_nil : Ascending ([] : List (String × α)) := List.Pairwise.nil

theorem mem_keys_iff {key : String} {entries : List (String × α)} :
    key ∈ keys entries ↔ (find? key entries).isSome := by
  induction entries with
  | nil => simp [keys]
  | cons head rest ih =>
    obtain ⟨k, v⟩ := head
    rw [find?, keys, List.map_cons, List.mem_cons, ← keys, ih]
    by_cases h : key = k <;> simp [h]

theorem mem_keys_insert {key other : String} {value : α} {entries : List (String × α)} :
    other ∈ keys (insert key value entries) ↔ other = key ∨ other ∈ keys entries := by
  rw [mem_keys_iff, mem_keys_iff, find?_insert]
  by_cases h : other = key <;> simp [h]

theorem keys_insert_perm {key : String} {entries : List (String × α)} (h : key ∉ keys entries)
    (value : α) : (keys (insert key value entries)).Perm (key :: keys entries) := by
  induction entries with
  | nil => exact List.Perm.refl _
  | cons head rest ih =>
    obtain ⟨k, v⟩ := head
    rw [keys, List.map_cons, List.mem_cons, not_or] at h
    obtain ⟨hne, hrest⟩ := h
    rw [Keyed.insert]
    by_cases hlt : key < k
    · rw [if_pos hlt]
      exact List.Perm.refl _
    · rw [if_neg hlt, if_neg hne]
      exact ((ih hrest).cons k).trans (List.Perm.swap key k (keys rest))

theorem Ascending.insert {entries : List (String × α)} (h : Ascending entries) (key : String)
    (value : α) : Ascending (insert key value entries) := by
  induction entries with
  | nil => exact List.pairwise_singleton _ _
  | cons head rest ih =>
    obtain ⟨k, v⟩ := head
    obtain ⟨hhead, hrest⟩ := List.pairwise_cons.1 h
    rw [Keyed.insert]
    split
    · rename_i hlt
      refine List.pairwise_cons.2 ⟨fun other hother => ?_, h⟩
      rcases List.mem_cons.1 hother with rfl | hother
      · exact hlt
      · exact lt_trans hlt (hhead other hother)
    · rename_i hnot
      split
      · rename_i heq
        subst heq
        exact h
      · rename_i hne
        have hgt : k < key := lt_of_le_of_ne (not_lt.1 hnot) (Ne.symm hne)
        refine List.pairwise_cons.2 ⟨fun other hother => ?_, ih hrest⟩
        rcases mem_keys_insert.1 hother with rfl | hother
        · exact hgt
        · exact hhead other hother

theorem keys_erase (key : String) (entries : List (String × α)) :
    keys (erase key entries) = (keys entries).filter (· != key) := by
  rw [keys, keys, erase, List.filter_map]
  rfl

theorem Ascending.erase {entries : List (String × α)} (h : Ascending entries) (key : String) :
    Ascending (erase key entries) := by
  rw [Ascending, keys_erase]
  exact List.Pairwise.filter _ h

/-- An entry whose key is larger than all the others goes to the end. -/
theorem insert_of_forall_lt {key : String} {entries : List (String × α)}
    (h : ∀ other ∈ keys entries, other < key) (value : α) :
    insert key value entries = entries ++ [(key, value)] := by
  induction entries with
  | nil => rfl
  | cons head rest ih =>
    obtain ⟨k, v⟩ := head
    obtain ⟨hhead, hrest⟩ := List.forall_mem_cons.1 h
    rw [Keyed.insert, if_neg (lt_asymm hhead), if_neg (ne_of_gt hhead), ih hrest]
    rfl

theorem foldl_insert_of_ascending {before behind : List (String × α)}
    (h : Ascending (before ++ behind)) :
    behind.foldl (fun entries pair => insert pair.1 pair.2 entries) before = before ++ behind := by
  induction behind generalizing before with
  | nil => exact (List.append_nil before).symm
  | cons pair more ih =>
    have hkeys : keys (before ++ pair :: more) = keys before ++ pair.1 :: keys more :=
      List.map_append
    have hlarger : ∀ other ∈ keys before, other < pair.1 := by
      rw [Ascending, hkeys] at h
      exact fun other hother => (List.pairwise_append.1 h).2.2 other hother pair.1
        List.mem_cons_self
    have hmore : Ascending ((before ++ [pair]) ++ more) := by rwa [List.append_assoc]
    rw [List.foldl_cons, insert_of_forall_lt hlarger pair.2, ih hmore, List.append_assoc]
    rfl

/-- Pairs in ascending order of their keys are collected as they stand. -/
theorem ofList_of_ascending {pairs : List (String × α)} (h : Ascending pairs) :
    ofList pairs = pairs :=
  foldl_insert_of_ascending (List.nil_append pairs ▸ h)

end LiveQuery.Keyed
