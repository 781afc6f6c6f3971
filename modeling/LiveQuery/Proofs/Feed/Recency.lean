import Mathlib.Data.Finset.Card
import Mathlib.Data.List.DropRight
import LiveQuery.Feed.Cache
import LiveQuery.Proofs.Keyed

/-!
# What the recency cache holds

The order of the keys and the table of their events are edited one after the other, and
`Consistent` is what both agree on after every record. Of a list of keys, `dedup` keeps each key at
its last place, so the last `capacity` keys of it are the ones that were recorded most recently.
These are the keys of the cache, and the event of each is the last one that was recorded under it.
-/

namespace LiveQuery.Feed

section Lists

variable {α : Type}

theorem length_rtake (n : Nat) (l : List α) : (l.rtake n).length = min n l.length := by
  rw [List.rtake, List.length_drop]
  omega

theorem rtake_rtake (n : Nat) (l : List α) : (l.rtake n).rtake n = l.rtake n := by
  rw [List.rtake, length_rtake]
  have hzero : min n l.length - n = 0 := by omega
  rw [hzero, List.drop_zero]

variable [DecidableEq α]

theorem erase_concat_of_ne {x y : α} (h : x ≠ y) (l : List α) :
    (l ++ [x]).erase y = l.erase y ++ [x] := by
  by_cases hmem : y ∈ l
  · exact List.erase_append_left _ hmem
  · rw [List.erase_append_right _ hmem, List.erase_of_not_mem hmem,
      List.erase_of_not_mem (by simpa using Ne.symm h)]

/-- Taking an element out leaves the last `n` elements of a list among its last `n + 1`. -/
theorem rtake_erase_rtake {l : List α} (h : l.Nodup) (n : Nat) (x : α) :
    ((l.rtake (n + 1)).erase x).rtake n = (l.erase x).rtake n := by
  induction l using List.reverseRecOn generalizing n with
  | nil => simp
  | append_singleton l y ih =>
    obtain ⟨hl, -, hdisjoint⟩ := List.nodup_append.1 h
    rw [List.rtake_concat_succ]
    by_cases hy : y = x
    · subst hy
      have hnot : y ∉ l := fun hmem => hdisjoint y hmem y (List.mem_singleton_self y) rfl
      have hnot' : y ∉ l.rtake n := fun hmem => hnot (List.mem_of_mem_drop hmem)
      rw [List.erase_append_right _ hnot, List.erase_append_right _ hnot', List.erase_cons_head,
        List.append_nil, List.append_nil, rtake_rtake]
    · rw [erase_concat_of_ne hy, erase_concat_of_ne hy]
      cases n with
      | zero => rw [List.rtake_zero, List.rtake_zero]
      | succ n => rw [List.rtake_concat_succ, List.rtake_concat_succ, ih hl]

/-- A new last element counts towards the last `n`, whatever was in front of them. -/
theorem rtake_erase_concat {l : List α} (h : l.Nodup) (n : Nat) (x : α) :
    ((l.rtake n).erase x ++ [x]).rtake n = (l.erase x ++ [x]).rtake n := by
  cases n with
  | zero => rw [List.rtake_zero, List.rtake_zero]
  | succ n => rw [List.rtake_concat_succ, List.rtake_concat_succ, rtake_erase_rtake h]

theorem dedup_concat (l : List α) (x : α) : (l ++ [x]).dedup = l.dedup.erase x ++ [x] := by
  induction l with
  | nil => rfl
  | cons y rest ih =>
    rw [List.cons_append, List.dedup_cons, List.dedup_cons, ih]
    by_cases hrest : y ∈ rest
    · rw [if_pos hrest, if_pos (List.mem_append_left _ hrest)]
    · rw [if_neg hrest]
      by_cases hy : y = x
      · subst hy
        rw [if_pos (by simp), List.erase_cons_head, List.erase_of_not_mem (by simpa using hrest)]
      · rw [if_neg (by simp [hrest, hy]), List.erase_cons_tail (by simpa using hy),
          List.cons_append]

/-- An element is among the last `n` distinct ones exactly if fewer than `n` others follow it. -/
theorem mem_rtake_dedup_iff {earlier later : List α} {x : α} (h : x ∉ later) (n : Nat) :
    x ∈ (earlier ++ x :: later).dedup.rtake n ↔ later.dedup.length < n := by
  obtain ⟨front, hfront⟩ : ∃ front, (earlier ++ x :: later).dedup = front ++ x :: later.dedup := by
    obtain ⟨front, hfront⟩ := List.suffix_union_right earlier (x :: later).dedup
    refine ⟨front, ?_⟩
    rw [List.dedup_append, ← hfront, List.dedup_cons_of_notMem h]
  have hnodup := List.nodup_dedup (earlier ++ x :: later)
  rw [hfront] at hnodup
  have hnot : x ∉ front := fun hmem =>
    (List.nodup_append.1 hnodup).2.2 x hmem x List.mem_cons_self rfl
  rw [hfront, List.rtake, List.length_append, List.length_cons]
  constructor
  · intro hmem
    by_contra hlong
    -- The cut lies behind the element, so only the later ones are left.
    have hcut : front.length + (later.dedup.length + 1) - n =
        front.length + 1 + (later.dedup.length - n) := by omega
    rw [hcut, ← List.drop_drop, List.append_cons, ← List.length_concat (a := x), List.concat_eq_append,
      List.drop_left] at hmem
    exact h (by simpa using List.mem_of_mem_drop hmem)
  · intro hshort
    rw [List.drop_append_of_le_length (by omega)]
    exact List.mem_append_right _ List.mem_cons_self

end Lists

namespace RecencyCache

/-! ### The two parts of the cache -/

/-- The order and the table agree: they hold the same keys, each of them once. -/
structure Consistent (c : RecencyCache) : Prop where
  nodup : c.order.Nodup
  ascending : Keyed.Ascending c.entries
  mem_iff (key : String) : key ∈ c.order ↔ key ∈ Keyed.keys c.entries

theorem Consistent.perm {c : RecencyCache} (h : Consistent c) :
    c.order.Perm (Keyed.keys c.entries) :=
  (List.perm_ext_iff_of_nodup h.nodup h.ascending.nodup).2 h.mem_iff

theorem Consistent.size_eq {c : RecencyCache} (h : Consistent c) : c.size = c.order.length := by
  rw [h.perm.length_eq, Keyed.keys, List.length_map]
  rfl

theorem Consistent.mem_order_iff {c : RecencyCache} (h : Consistent c) {key : String} :
    key ∈ c.order ↔ (c.find? key).isSome :=
  (h.mem_iff key).trans Keyed.mem_keys_iff

theorem consistent_empty (keyField : String) (capacity : Nat) :
    Consistent (empty keyField capacity) :=
  ⟨List.nodup_nil, Keyed.ascending_nil, fun _ => Iff.rfl⟩

/-- What eviction leaves: the last keys, and of the table what belongs to no key that went. -/
theorem evict_spec (capacity : Nat) (order : List String) {entries : List (String × Json)}
    (h : Keyed.Ascending entries) :
    (evict capacity order entries).1 = order.rtake capacity ∧
      Keyed.Ascending (evict capacity order entries).2 ∧
      ∀ key, Keyed.find? key (evict capacity order entries).2 =
        if key ∈ order.take (order.length - capacity) then none else Keyed.find? key entries := by
  induction order generalizing entries with
  | nil => exact ⟨(List.rtake_nil _).symm, h, fun _ => by simp [evict]⟩
  | cons oldest rest ih =>
    by_cases hlong : capacity < (oldest :: rest).length
    · obtain ⟨horder, hascending, hfind⟩ := ih (h.erase oldest)
      rw [evict, if_pos hlong]
      rw [List.length_cons] at hlong
      have hcut : rest.length + 1 - capacity = rest.length - capacity + 1 := by omega
      refine ⟨?_, hascending, fun key => ?_⟩
      · rw [horder, List.rtake, List.rtake, List.length_cons, hcut, List.drop_succ_cons]
      · rw [hfind, Keyed.find?_erase, List.length_cons, hcut, List.take_succ_cons]
        by_cases hkey : key = oldest
        · simp [hkey]
        · simp [hkey]
    · have hcut : (oldest :: rest).length - capacity = 0 := by omega
      rw [evict, if_neg hlong, List.rtake, hcut]
      exact ⟨rfl, h, fun _ => by simp⟩

/-! ### One record -/

variable {c : RecencyCache} (key : String) (event : Json)

theorem nodup_erase_concat (h : Consistent c) : (c.order.erase key ++ [key]).Nodup :=
  List.nodup_append.2 ⟨h.nodup.erase key, List.nodup_singleton key, fun a ha b hb heq => by
    rw [heq, List.mem_singleton.1 hb] at ha
    exact h.nodup.not_mem_erase ha⟩

/-- An unknown key has no place in the order, so it makes no difference that only a known one is
taken out of it. -/
theorem insert_eq (h : Consistent c) :
    c.insert key event =
      let kept := evict c.capacity (c.order.erase key ++ [key]) (Keyed.insert key event c.entries)
      { c with order := kept.1, entries := kept.2 } := by
  have hothers : (if (Keyed.find? key c.entries).isSome then c.order.erase key else c.order) =
      c.order.erase key := by
    split
    · rfl
    · rename_i hunknown
      exact (List.erase_of_not_mem fun hmem => hunknown (h.mem_order_iff.1 hmem)).symm
  simp only [insert, hothers]

theorem order_insert (h : Consistent c) :
    (c.insert key event).order = (c.order.erase key ++ [key]).rtake c.capacity := by
  rw [insert_eq key event h]
  exact (evict_spec c.capacity _ (h.ascending.insert key event)).1

theorem mem_order_of_mem_insert (h : Consistent c) {other : String}
    (hmem : other ∈ (c.insert key event).order) (hne : other ≠ key) : other ∈ c.order := by
  rw [order_insert key event h] at hmem
  rcases List.mem_append.1 (List.mem_of_mem_drop hmem) with hold | hnew
  · exact List.mem_of_mem_erase hold
  · exact absurd (List.mem_singleton.1 hnew) hne

/-- The keys that are left have their events, and the new one has the new event. -/
theorem find?_insert (h : Consistent c) (other : String) :
    (c.insert key event).find? other =
      if other ∈ (c.insert key event).order then
        if other = key then some event else c.find? other
      else none := by
  have hfind : (c.insert key event).find? other =
      if other ∈ (c.order.erase key ++ [key]).take
          ((c.order.erase key ++ [key]).length - c.capacity) then none
      else if other = key then some event else c.find? other := by
    rw [insert_eq key event h]
    refine ((evict_spec c.capacity _ (h.ascending.insert key event)).2.2 other).trans ?_
    rw [Keyed.find?_insert]
    rfl
  rw [hfind, order_insert key event h, List.rtake]
  have hnodup := nodup_erase_concat key h
  generalize hlist : c.order.erase key ++ [key] = keys at hnodup ⊢
  rw [← List.take_append_drop (keys.length - c.capacity) keys, List.nodup_append] at hnodup
  by_cases hgone : other ∈ keys.take (keys.length - c.capacity)
  · rw [if_pos hgone, if_neg fun hleft => hnodup.2.2 other hgone other hleft rfl]
  · rw [if_neg hgone]
    by_cases hleft : other ∈ keys.drop (keys.length - c.capacity)
    · rw [if_pos hleft]
    · -- A key that neither went nor is left was never there.
      have hnever : other ∉ c.order.erase key ++ [key] := by
        rw [hlist, ← List.take_append_drop (keys.length - c.capacity) keys, List.mem_append]
        exact fun hmem => hmem.elim hgone hleft
      rw [List.mem_append, List.mem_singleton, not_or] at hnever
      have hunknown : other ∉ c.order := fun hmem =>
        hnever.1 ((List.mem_erase_of_ne hnever.2).2 hmem)
      rw [if_neg hleft, if_neg hnever.2]
      rwa [h.mem_order_iff, Option.not_isSome_iff_eq_none] at hunknown

theorem Consistent.insert (h : Consistent c) : Consistent (c.insert key event) where
  nodup := by
    rw [order_insert key event h]
    exact (List.drop_sublist _ _).nodup (nodup_erase_concat key h)
  ascending := by
    rw [insert_eq key event h]
    exact (evict_spec c.capacity _ (h.ascending.insert key event)).2.1
  mem_iff := fun other => by
    rw [Keyed.mem_keys_iff]
    change _ ↔ ((c.insert key event).find? other).isSome
    rw [find?_insert key event h]
    by_cases hleft : other ∈ (c.insert key event).order
    · rw [if_pos hleft]
      refine ⟨fun _ => ?_, fun _ => hleft⟩
      by_cases hkey : other = key
      · rw [if_pos hkey]
        rfl
      · rw [if_neg hkey, ← h.mem_order_iff]
        exact mem_order_of_mem_insert key event h hleft hkey
    · rw [if_neg hleft]
      exact ⟨fun hmem => absurd hmem hleft, nofun⟩

/-! ### Runs of records -/

/-- The cache after a run of events. -/
def afterRecords (events : List Json) (c : RecencyCache) : RecencyCache :=
  events.foldl (fun c event => (c.record event).1) c

/-- The events that have a string at the path, each with this string, in order. -/
def recorded (keyField : String) (events : List Json) : List (String × Json) :=
  events.filterMap fun event =>
    match event.at? keyField with
    | some (.str key) => some (key, event)
    | _ => none

/-- The cache holds what was recorded most recently. -/
structure Holds (log : List (String × Json)) (c : RecencyCache) : Prop where
  consistent : Consistent c
  /-- The keys of the cache are the last distinct ones. -/
  order_eq : c.order = (log.map Prod.fst).dedup.rtake c.capacity
  /-- The event of a key is the last one that was recorded under it. -/
  find?_eq (key : String) (h : key ∈ c.order) : c.find? key = log.reverse.lookup key

theorem holds_empty (keyField : String) (capacity : Nat) : Holds [] (empty keyField capacity) where
  consistent := consistent_empty keyField capacity
  order_eq := (List.rtake_nil capacity).symm
  find?_eq := nofun

theorem Holds.insert {log : List (String × Json)} (h : Holds log c) :
    Holds (log ++ [(key, event)]) (c.insert key event) where
  consistent := h.consistent.insert key event
  order_eq := by
    rw [order_insert key event h.consistent, h.order_eq, rtake_erase_concat (List.nodup_dedup _),
      List.map_append, List.map_singleton, dedup_concat]
    rfl
  find?_eq := fun other hother => by
    rw [find?_insert key event h.consistent, if_pos hother, List.reverse_append,
      List.reverse_singleton, List.singleton_append, List.lookup_cons]
    by_cases hkey : other = key
    · rw [if_pos hkey, hkey, beq_self_eq_true]
    · rw [if_neg hkey, beq_eq_false_iff_ne.2 hkey]
      exact h.find?_eq other (mem_order_of_mem_insert key event h.consistent hother hkey)

theorem record_settings :
    (c.record event).1.keyField = c.keyField ∧ (c.record event).1.capacity = c.capacity := by
  unfold record
  split <;> exact ⟨rfl, rfl⟩

theorem afterRecords_settings (events : List Json) (c : RecencyCache) :
    (c.afterRecords events).keyField = c.keyField ∧
      (c.afterRecords events).capacity = c.capacity := by
  induction events generalizing c with
  | nil => exact ⟨rfl, rfl⟩
  | cons event rest ih =>
    obtain ⟨hfield, hcapacity⟩ := record_settings (c := c) event
    obtain ⟨hfield', hcapacity'⟩ := ih (c.record event).1
    exact ⟨hfield'.trans hfield, hcapacity'.trans hcapacity⟩

theorem keyOf?_eq_some_iff {key : String} :
    c.keyOf? event = some key ↔ event.at? c.keyField = some (.str key) := by
  unfold keyOf?
  split
  · rename_i found hfound
    rw [hfound]
    simp
  · rename_i hnone
    exact ⟨nofun, fun hsome => absurd hsome (hnone key)⟩

theorem recorded_singleton (c : RecencyCache) :
    recorded c.keyField [event] = ((c.keyOf? event).map (·, event)).toList := by
  simp only [recorded, keyOf?, List.filterMap_cons, List.filterMap_nil]
  cases event.at? c.keyField with
  | none => rfl
  | some found => cases found <;> rfl

theorem Holds.record {log : List (String × Json)} (h : Holds log c) :
    Holds (log ++ recorded c.keyField [event]) (c.record event).1 := by
  rw [recorded_singleton, RecencyCache.record]
  cases c.keyOf? event with
  | none =>
    rw [Option.map_none, Option.toList_none, List.append_nil]
    exact h
  | some key => exact h.insert key event

theorem Holds.afterRecords {log : List (String × Json)} (h : Holds log c) (events : List Json) :
    Holds (log ++ recorded c.keyField events) (c.afterRecords events) := by
  induction events generalizing log c with
  | nil =>
    rw [recorded, List.filterMap_nil, List.append_nil]
    exact h
  | cons event rest ih =>
    have hsplit : recorded c.keyField (event :: rest) =
        recorded c.keyField [event] ++ recorded c.keyField rest :=
      List.filterMap_append (l := [event])
    have hnext := ih (h.record event)
    rw [(record_settings event).1, List.append_assoc, ← hsplit] at hnext
    exact hnext

theorem lookup_reverse_eq_some_iff {log : List (String × Json)} {key : String} {event : Json} :
    log.reverse.lookup key = some event ↔
      ∃ earlier later, log = earlier ++ (key, event) :: later ∧ key ∉ later.map Prod.fst := by
  rw [List.lookup_eq_some_iff]
  constructor
  · rintro ⟨later, earlier, hlog, hnot⟩
    refine ⟨earlier.reverse, later.reverse, ?_, ?_⟩
    · rw [← List.reverse_reverse log, hlog]
      simp
    · intro hmem
      obtain ⟨pair, hpair, rfl⟩ := List.mem_map.1 hmem
      simpa using hnot pair (List.mem_reverse.1 hpair)
  · rintro ⟨earlier, later, rfl, hnot⟩
    refine ⟨later.reverse, earlier.reverse, by simp, fun pair hpair => ?_⟩
    rw [bne_iff_ne]
    rintro rfl
    exact hnot (List.mem_map_of_mem (List.mem_reverse.1 hpair))

theorem Holds.find?_eq_some_iff {log : List (String × Json)} (h : Holds log c) {key : String}
    {event : Json} :
    c.find? key = some event ↔ ∃ earlier later, log = earlier ++ (key, event) :: later ∧
      key ∉ later.map Prod.fst ∧ (later.map Prod.fst).toFinset.card < c.capacity := by
  have hkept : ∀ earlier later, log = earlier ++ (key, event) :: later →
      key ∉ later.map Prod.fst →
      (key ∈ c.order ↔ (later.map Prod.fst).toFinset.card < c.capacity) := by
    rintro earlier later rfl hnot
    rw [h.order_eq, List.map_append, List.map_cons, mem_rtake_dedup_iff hnot, List.card_toFinset]
  constructor
  · intro hfind
    have hmem : key ∈ c.order := h.consistent.mem_order_iff.2 (by rw [hfind]; rfl)
    rw [h.find?_eq key hmem] at hfind
    obtain ⟨earlier, later, hlog, hnot⟩ := lookup_reverse_eq_some_iff.1 hfind
    exact ⟨earlier, later, hlog, hnot, (hkept earlier later hlog hnot).1 hmem⟩
  · rintro ⟨earlier, later, hlog, hnot, hfew⟩
    rw [h.find?_eq key ((hkept earlier later hlog hnot).2 hfew)]
    exact lookup_reverse_eq_some_iff.2 ⟨earlier, later, hlog, hnot⟩

/-- After any run of records the cache holds the most recently recorded keys, as many as it may,
each with the last event that was recorded under it. The order and the table hold the same keys,
each of them once. A record succeeds exactly if the event has a key, and changes nothing otherwise.
-/
theorem holds_most_recent (keyField : String) (capacity : Nat) (events : List Json) :
    let c := (empty keyField capacity).afterRecords events
    let log := recorded keyField events
    (∀ key event, c.find? key = some event ↔
        ∃ earlier later, log = earlier ++ (key, event) :: later ∧ key ∉ later.map Prod.fst ∧
          (later.map Prod.fst).toFinset.card < capacity) ∧
      (c.order.Nodup ∧ (Keyed.keys c.entries).Nodup ∧ c.order.Perm (Keyed.keys c.entries)) ∧
      c.size = min capacity (log.map Prod.fst).toFinset.card ∧
      ∀ event, ((c.record event).2 = true ↔ ∃ key, event.at? keyField = some (.str key)) ∧
        ((c.record event).2 = false → (c.record event).1 = c) := by
  intro c log
  obtain ⟨hfield, hcapacity⟩ := afterRecords_settings events (empty keyField capacity)
  have hholds : Holds log c := (holds_empty keyField capacity).afterRecords events
  have hconsistent := hholds.consistent
  refine ⟨fun key event => ?_, ⟨hconsistent.nodup, hconsistent.ascending.nodup, hconsistent.perm⟩,
    ?_, fun event => ?_⟩
  · rw [hholds.find?_eq_some_iff, hcapacity]
    rfl
  · rw [hconsistent.size_eq, hholds.order_eq, length_rtake, List.card_toFinset, hcapacity]
    rfl
  · have hkey : ∀ key, c.keyOf? event = some key ↔ event.at? keyField = some (.str key) :=
      fun key => by rw [keyOf?_eq_some_iff, hfield]; rfl
    rw [record]
    cases hfound : c.keyOf? event with
    | none =>
      refine ⟨⟨nofun, fun ⟨key, hsome⟩ => ?_⟩, fun _ => rfl⟩
      rw [← hkey, hfound] at hsome
      cases hsome
    | some key => exact ⟨⟨fun _ => ⟨key, (hkey key).1 hfound⟩, fun _ => rfl⟩, nofun⟩

end RecencyCache

end LiveQuery.Feed
