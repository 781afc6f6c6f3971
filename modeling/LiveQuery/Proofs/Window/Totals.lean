import Mathlib.Algebra.BigOperators.Group.List.Basic
import Mathlib.Tactic.Abel
import LiveQuery.Proofs.Window.Notices
import LiveQuery.Window.Total

/-!
# A running total and the elements of its window

A total never looks at the window that it listens to. It still knows what the window holds: its
answers say of every element whether it is a number, so only numbers are admitted, what goes was
admitted before, and what was added and not subtracted since is what is held. In exact arithmetic
the total is then the sum of the elements; in doubles it is the same additions and subtractions in
the order of the notices.
-/

namespace LiveQuery.Window

/-- The notices that were accepted, in order. -/
def accepted (log : List Exchange) : List Notice :=
  log.filterMap fun
    | (notice, .ok _) => some notice
    | (_, .error _) => none

namespace Total

/-- The number that a countable element is. -/
def numberOf (element : Value) : Float := element.number?.getD 0.0

/-- A total after a notice: what arrives is added and what goes is subtracted. -/
def booked {ν : Type} [Add ν] [Sub ν] (number : Value → ν) (total : ν) : Notice → ν
  | .pushed element => total + number element
  | .popped element => total - number element

variable {log : List Exchange} {total after : Float}

/-- A total accepts a notice exactly if it is about a number, and books it then. -/
theorem hear_eq (total : Float) (notice : Notice) :
    ofDoubles.hear total notice =
      if notice.element.number?.isSome then (booked numberOf total notice, .ok ())
      else (total, .error (refusal notice.element)) := by
  cases notice with
  | pushed element =>
    cases h : element.number? <;> simp [ofDoubles, listener, Notice.element, booked, numberOf, h]
  | popped element =>
    cases h : element.number? <;> simp [ofDoubles, listener, Notice.element, booked, numberOf, h]

theorem eq_foldl_of_answers (h : ofDoubles.Answers total log after) :
    after = (accepted log).foldl (booked numberOf) total := by
  induction log generalizing total with
  | nil => exact h.symm
  | cons exchange rest ih =>
    obtain ⟨notice, answer⟩ := exchange
    obtain ⟨rfl, hrest⟩ := h
    rw [ih hrest, hear_eq]
    split <;> simp [accepted]

theorem answer_eq_ok_iff (h : ofDoubles.Answers total log after) {notice : Notice}
    {answer : Except QueryError Unit} (hmem : (notice, answer) ∈ log) :
    answer = .ok () ↔ notice.element.number?.isSome := by
  induction log generalizing total with
  | nil => cases hmem
  | cons exchange rest ih =>
    obtain ⟨head, reply⟩ := exchange
    obtain ⟨rfl, hrest⟩ := h
    rcases List.mem_cons.1 hmem with heq | hmem
    · obtain ⟨rfl, rfl⟩ := Prod.mk.inj heq
      rw [hear_eq]
      split <;> simp_all
    · exact ih hrest hmem

/-- Only numbers are admitted. -/
theorem isSome_of_mem_admitted (h : ofDoubles.Answers total log after) {element : Value}
    (hmem : element ∈ admitted log) : element.number?.isSome := by
  obtain ⟨⟨notice, answer⟩, hexchange, hadmitted⟩ := List.mem_filterMap.1 hmem
  have hanswer := answer_eq_ok_iff h hexchange
  cases notice with
  | popped v => simp [Exchange.admitted?] at hadmitted
  | pushed v =>
    cases answer with
    | error e => simp [Exchange.admitted?] at hadmitted
    | ok _ =>
      obtain rfl : v = element := by simpa [Exchange.admitted?] using hadmitted
      exact hanswer.1 rfl

/-- What goes has been counted, so letting it go is never refused. -/
theorem answer_popped (h : ofDoubles.Answers total log after) {arrivals : List Value}
    (hbalanced : Balanced [] log arrivals) {element : Value} {answer : Except QueryError Unit}
    (hmem : (.popped element, answer) ∈ log) : answer = .ok () := by
  refine (answer_eq_ok_iff h hmem).2 (isSome_of_mem_admitted h ?_)
  have hevicted : element ∈ evicted log :=
    List.mem_filterMap.2 ⟨(.popped element, answer), hmem, rfl⟩
  rw [hbalanced.admitted_eq]
  exact List.mem_append_left _ hevicted

/-- In exact arithmetic a total is what came in less what went. -/
theorem foldl_booked {G : Type} [AddCommGroup G] (number : Value → G) (start : G)
    {log : List Exchange} (hpopped : ∀ element answer, (.popped element, answer) ∈ log →
      answer = .ok ()) :
    (accepted log).foldl (booked number) start =
      start + ((admitted log).map number).sum - ((evicted log).map number).sum := by
  induction log generalizing start with
  | nil => simp [accepted, admitted, evicted]
  | cons exchange rest ih =>
    have hrest := fun start => ih start fun element answer hmem =>
      hpopped element answer (List.mem_cons_of_mem _ hmem)
    obtain ⟨notice, answer⟩ := exchange
    cases notice with
    | pushed element =>
      cases answer with
      | ok _ =>
        simp only [accepted, admitted, evicted, List.filterMap_cons, Exchange.admitted?,
          Exchange.evicted?, List.foldl_cons, List.map_cons, List.sum_cons, booked] at hrest ⊢
        rw [hrest]
        abel
      | error e =>
        simp only [accepted, admitted, evicted, List.filterMap_cons, Exchange.admitted?,
          Exchange.evicted?] at hrest ⊢
        exact hrest start
    | popped element =>
      obtain rfl := hpopped element answer List.mem_cons_self
      simp only [accepted, admitted, evicted, List.filterMap_cons, Exchange.admitted?,
        Exchange.evicted?, List.foldl_cons, List.map_cons, List.sum_cons, booked] at hrest ⊢
      rw [hrest]
      abel

/-- In exact arithmetic the total of a window that began empty is the sum of its elements. -/
theorem foldl_booked_eq_sum {G : Type} [AddCommGroup G] (number : Value → G)
    (h : ofDoubles.Answers total log after) {arrivals : List Value}
    (hbalanced : Balanced [] log arrivals) :
    (accepted log).foldl (booked number) 0 = (arrivals.map number).sum := by
  rw [foldl_booked number 0 fun element answer hmem => answer_popped h hbalanced hmem,
    hbalanced.admitted_eq, List.map_append, List.sum_append]
  abel

end Total

end LiveQuery.Window
