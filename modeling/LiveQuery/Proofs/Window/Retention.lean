import Mathlib.Data.List.Infix
import LiveQuery.Proofs.Window.Totals

/-!
# What a window holds after an operation

Old elements go from the front and a new one joins at the back, whatever the listener answers to a
departure. So a rolling window holds the newest of its candidates up to its bound, and one whose
bound has not shrunk is not touched by an element that is refused.
-/

namespace LiveQuery.Window

variable {σ α : Type} (l : Listener σ) (s : σ)

theorem evict_suffix (view : α → Value) (due : List α → Bool) (held : List α) :
    (evict l view due s held).held <:+ held := by
  obtain ⟨gone, -, hheld, -⟩ := evict_announces l view s due held
  exact ⟨gone, hheld.symm⟩

theorem mem_of_mem_receive {view : α → Value} {held : List α} {element x : α}
    (h : x ∈ (receive l view s held element).held) : x ∈ held ∨ x = element := by
  simp only [receive] at h
  split at h
  · simpa using h
  · exact .inl h

/-! ### Where the elements come from -/

namespace Timed

theorem mem_of_mem_expireAt {held : List Stamped} {length now : Nat} {x : Stamped}
    (h : x ∈ (expireAt l s held length now).held) : x ∈ held := by
  simp only [expireAt] at h
  split at h
  · exact h
  · exact (evict_suffix l s _ _ held).mem h

theorem mem_of_mem_pushAt {held : List Stamped} {element : Value} {length now : Nat} {x : Stamped}
    (h : x ∈ (pushAt l s held element length now).held) : x ∈ held ∨ x = ⟨element, now⟩ :=
  mem_of_mem_receive l s (mem_of_mem_expireAt l _ h)

end Timed

theorem Rolling.mem_of_mem_push {held : List Value} {element : Value} {bound : Nat} {x : Value}
    (h : x ∈ (push l s held element bound).held) : x ∈ held ∨ x = element :=
  mem_of_mem_receive l s ((evict_suffix l _ _ _ _).mem h)

theorem Retained.mem_of_mem_push {r : Retained} {element : Value} {bound now : Nat} {x : Value}
    (h : x ∈ (r.push l s element bound now).held.arrivals) : x ∈ r.arrivals ∨ x = element := by
  cases r with
  | rolling held => exact Rolling.mem_of_mem_push l s h
  | timed held =>
    obtain ⟨stamped, hstamped, rfl⟩ := List.mem_map.1 h
    rcases Timed.mem_of_mem_pushAt l s hstamped with hheld | rfl
    · exact .inl (List.mem_map_of_mem hheld)
    · exact .inr rfl

theorem Retained.mem_of_mem_advance_null {r : Retained} {bound now : Nat} {x : Value}
    (h : x ∈ (r.advance l s .null bound now).held.arrivals) : x ∈ r.arrivals := by
  cases r with
  | rolling held => exact h
  | timed held =>
    obtain ⟨stamped, hstamped, rfl⟩ := List.mem_map.1 h
    exact List.mem_map_of_mem (Timed.mem_of_mem_expireAt l s hstamped)

theorem Retained.mem_of_mem_advance {r : Retained} {element : Value} {bound now : Nat} {x : Value}
    (h : x ∈ (r.advance l s element bound now).held.arrivals) : x ∈ r.arrivals ∨ x = element := by
  cases hnull : element.isNull with
  | false =>
    rw [advance_of_not_isNull l s r hnull] at h
    exact mem_of_mem_push l s h
  | true =>
    obtain rfl := eq_null_of_isNull hnull
    exact .inl (mem_of_mem_advance_null l s h)

/-! ### Rolling windows -/

namespace Rolling

theorem shrink_of_length_le {held : List Value} {bound : Nat} (h : held.length ≤ bound) :
    shrink l s held bound = ⟨s, held, .ok ()⟩ := by
  cases held with
  | nil => rfl
  | cons oldest rest =>
    have hdue : ¬ bound < (oldest :: rest).length := Nat.not_lt.2 h
    simp only [shrink, evict, hdue, decide_false, Bool.false_eq_true, if_false]

theorem held_shrink (held : List Value) (bound : Nat) :
    (shrink l s held bound).held = held.drop (held.length - bound) := by
  induction held generalizing s with
  | nil => rw [List.drop_nil, shrink_of_length_le l s (Nat.zero_le bound)]
  | cons oldest rest ih =>
    by_cases hdue : bound < (oldest :: rest).length
    · have hone : (oldest :: rest).length - bound = rest.length - bound + 1 := by
        simp only [List.length_cons] at hdue ⊢
        omega
      rw [hone, List.drop_succ_cons, ← ih (l.hear s (.popped oldest)).1]
      simp only [shrink, evict, hdue, decide_true, if_true, id_eq]
    · rw [shrink_of_length_le l s (Nat.not_lt.1 hdue), Nat.sub_eq_zero_of_le (Nat.not_lt.1 hdue),
        List.drop_zero]

theorem length_push_le (held : List Value) (element : Value) (bound : Nat) :
    (push l s held element bound).held.length ≤ bound := by
  simp only [push, held_shrink, List.length_drop]
  omega

theorem contents_shrink (held : List Value) (bound : Nat) :
    (shrink l s held bound).held.reverse = held.reverse.take bound := by
  rw [held_shrink, List.reverse_drop]
  rcases Nat.le_total held.length bound with h | h
  · rw [Nat.sub_eq_zero_of_le h, Nat.sub_zero, List.take_of_length_le (by simp),
      List.take_of_length_le (by simpa using h)]
  · rw [Nat.sub_sub_self h]

/-- The elements of which a push keeps the newest, from the newest on: the new one, unless its
arrival is refused, and those that were held. -/
def candidates (held : List Value) (element : Value) : List Value :=
  match (l.hear s (.pushed element)).2 with
  | .ok _ => element :: held.reverse
  | .error _ => held.reverse

theorem reverse_receive (held : List Value) (element : Value) :
    (receive l id s held element).held.reverse = candidates l s held element := by
  simp only [receive, candidates, id_eq]
  cases (l.hear s (.pushed element)).2 with
  | ok _ => exact List.reverse_concat
  | error e => rfl

theorem contents_push (held : List Value) (element : Value) (bound : Nat) :
    (push l s held element bound).held.reverse = (candidates l s held element).take bound := by
  simp only [push, contents_shrink, reverse_receive]

end Rolling

/-- A rolling window that was offered an element keeps to the bound. -/
theorem Retained.length_le_of_push {r : Retained} {element : Value} {bound now : Nat}
    {held : List Value} (h : (r.push l s element bound now).held = .rolling held) :
    held.length ≤ bound := by
  cases r with
  | rolling before =>
    obtain rfl := Retained.rolling.inj h
    exact Rolling.length_push_le l s before element bound
  | timed before => cases h

open Total (ofDoubles refusal)

/-- A number joins the window as its newest element. -/
theorem Rolling.contents_push_of_number {element : Value} (h : element.number?.isSome)
    (held : List Value) (total : Float) (bound : Nat) :
    (push ofDoubles total held element bound).held.reverse =
      (element :: held.reverse).take bound := by
  simp only [contents_push, candidates, Total.hear_eq, Notice.element, h, if_true]

/-- Anything else leaves the window and its total as they were, as long as the bound has not shrunk.
-/
theorem Rolling.push_of_refused {element : Value} (h : element.number? = none)
    {held : List Value} {bound : Nat} (hbound : held.length ≤ bound) (total : Float) :
    push ofDoubles total held element bound = ⟨total, held, .error (refusal element)⟩ := by
  have hrefused : receive ofDoubles id total held element =
      ⟨total, held, .error (refusal element)⟩ := by
    simp only [receive, id_eq, Total.hear_eq, Notice.element, h, Option.isSome_none,
      Bool.false_eq_true, if_false]
  simp only [push, hrefused, shrink_of_length_le ofDoubles total hbound, firstFailure]

end LiveQuery.Window
