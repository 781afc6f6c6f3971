import LiveQuery.Proofs.Window.Expiry
import LiveQuery.Proofs.Window.Retention

/-!
# What a push does to a rolling window

Whether the listener admits the new element decides which elements are the candidates, and the bound
decides how many of them stay. Nothing else has a part in it: a listener that refuses departures is
told of all of them, gives the push its result, and changes nothing of what the window holds.
`PushLaw` says this of one push, and `push_keeps_newest` that it holds of every push.
-/

namespace LiveQuery.Window

/-! ### The first refusal -/

theorem Exchange.refusal?_eq_none_iff {x : Exchange} : x.refusal? = none ↔ x.2 = .ok () := by
  obtain ⟨notice, answer⟩ := x
  cases answer <;> simp [Exchange.refusal?]

theorem firstRefusal_eq_ok_iff {log : List Exchange} :
    firstRefusal log = .ok () ↔ ∀ x ∈ log, x.2 = .ok () := by
  simp only [← Exchange.refusal?_eq_none_iff, ← List.findSome?_eq_none_iff, firstRefusal]
  cases log.findSome? Exchange.refusal? <;> simp

theorem firstRefusal_eq_error_iff {log : List Exchange} {e : QueryError} :
    firstRefusal log = .error e ↔ ∃ front notice back,
      log = front ++ (notice, .error e) :: back ∧ ∀ x ∈ front, x.2 = .ok () := by
  have hfirst : firstRefusal log = .error e ↔ log.findSome? Exchange.refusal? = some e := by
    simp only [firstRefusal]
    cases log.findSome? Exchange.refusal? <;> simp
  rw [hfirst, List.findSome?_eq_some_iff]
  simp only [Exchange.refusal?_eq_none_iff]
  constructor
  · rintro ⟨front, ⟨notice, answer⟩, back, rfl, hrefused, hfront⟩
    cases answer with
    | ok _ => cases hrefused
    | error e' =>
      obtain rfl := Option.some.inj hrefused
      exact ⟨front, notice, back, rfl, hfront⟩
  · rintro ⟨front, notice, back, rfl, hfront⟩
    exact ⟨front, (notice, .error e), back, rfl, rfl, hfront⟩

/-- What holds of every answer of a listener holds of the exchanges with it. -/
theorem Listener.Answers.forall_mem {σ : Type} {l : Listener σ} {s t : σ} {log : List Exchange}
    (h : l.Answers s log t) {motive : Exchange → Prop}
    (hear : ∀ s notice, motive (notice, (l.hear s notice).2)) : ∀ x ∈ log, motive x := by
  induction log generalizing s with
  | nil => exact List.forall_mem_nil _
  | cons exchange rest ih =>
    obtain ⟨notice, answer⟩ := exchange
    obtain ⟨rfl, hrest⟩ := h
    exact List.forall_mem_cons.2 ⟨hear s notice, ih hrest⟩

namespace Rolling

variable {σ : Type}

/-- What a push does, given the exchanges with the listener during the push. -/
structure PushLaw (l : Listener σ) (s : σ) (held : List Value) (element : Value) (bound : Nat)
    (new : List Exchange) : Prop where
  /-- The newest candidates stay, as many as the bound allows. -/
  stays : (Retained.rolling (push l s held element bound).held).contents =
    (candidates l s held element).take bound
  /-- The new element is announced, and then each candidate that goes, the oldest first. -/
  announced : new.map Prod.fst = .pushed element ::
    ((candidates l s held element).drop bound).reverse.map Notice.popped
  /-- These are the exchanges that a record of the push shows, whatever it held before. -/
  recorded (log : List Exchange) : push l.recorded (s, log) held element bound =
    ⟨((push l s held element bound).state, log ++ new), (push l s held element bound).held,
      (push l s held element bound).result⟩
  answers : l.Answers s new (push l s held element bound).state
  succeeds : (push l s held element bound).result = .ok () ↔ ∀ x ∈ new, x.2 = .ok ()
  /-- Otherwise the first refusal is the result. -/
  fails (e : QueryError) : (push l s held element bound).result = .error e ↔
    ∃ front notice back, new = front ++ (notice, .error e) :: back ∧ ∀ x ∈ front, x.2 = .ok ()

/-- Shrinking announces the elements that are too many. The first refusal is the result. -/
theorem shrink_announces (l : Listener σ) (s : σ) (held : List Value) (bound : Nat) :
    let after := shrink l s held bound
    ∃ new, (∀ log, shrink l.recorded (s, log) held bound =
        ⟨(after.state, log ++ new), after.held, after.result⟩) ∧
      new.map Prod.fst = (held.take (held.length - bound)).map Notice.popped ∧
      l.Answers s new after.state ∧ after.result = firstRefusal new := by
  obtain ⟨gone, new, hheld, hfull, hnotices, hanswers, hresult⟩ :=
    evict_announces l id s (fun held => bound < held.length) held
  have hgone : gone = held.take (held.length - bound) := by
    have hstays := held_shrink l s held bound
    rw [shrink] at hstays
    rw [hstays] at hheld
    exact List.append_cancel_right (hheld.symm.trans (List.take_append_drop _ held).symm)
  refine ⟨new, hfull, ?_, hanswers, hresult⟩
  rw [hnotices, hgone, List.map_id]

theorem exists_pushLaw (l : Listener σ) (s : σ) (held : List Value) (element : Value)
    (bound : Nat) : ∃ new, PushLaw l s held element bound new := by
  obtain ⟨hreceive, harrival, hfirst⟩ := receive_announces l id s held element
  obtain ⟨departures, hshrink, hnotices, hanswers, hrest⟩ :=
    shrink_announces l (receive l id s held element).state (receive l id s held element).held bound
  let new : List Exchange := (.pushed element, (l.hear s (.pushed element)).2) :: departures
  have hresult : (push l s held element bound).result = firstRefusal new := by
    rw [firstRefusal_cons, ← hrest]
    exact congrArg (firstFailure · _) hfirst
  refine ⟨new, contents_push l s held element bound, ?_, fun log => ?_,
    harrival.append hanswers, hresult ▸ firstRefusal_eq_ok_iff,
    fun e => hresult ▸ firstRefusal_eq_error_iff⟩
  · rw [List.map_cons, hnotices, ← reverse_receive, List.drop_reverse, List.reverse_reverse]
  · simp only [push, hreceive, hshrink, List.append_assoc, List.singleton_append, new, id_eq]

/-- Only whether the new element is admitted tells the candidates of two listeners apart. -/
theorem candidates_congr {τ : Type} {l : Listener σ} {s : σ} {l' : Listener τ} {t : τ}
    {element : Value}
    (h : (l.hear s (.pushed element)).2.isOk = (l'.hear t (.pushed element)).2.isOk)
    (held : List Value) : candidates l s held element = candidates l' t held element := by
  simp only [candidates]
  cases hleft : (l.hear s (.pushed element)).2 <;>
    cases hright : (l'.hear t (.pushed element)).2 <;>
    first | rfl | (rw [hleft, hright] at h; cases h)

/-- A push announces the new element and keeps the newest candidates up to its bound. The others go,
the oldest first, and each of them is announced, whatever was answered before. The first refusal is
the result; if nothing is refused the push succeeds, and so it does if nobody listens, be it that
nobody ever did or that the listener is gone. What the window holds is the same for any two
listeners that agree on whether the new element is admitted. -/
theorem push_keeps_newest (l : Listener σ) (s : σ) (held : List Value) (element : Value)
    (bound : Nat) :
    let unheard := push .silent () held element bound
    (∃ new, PushLaw l s held element bound new) ∧
      ((Retained.rolling unheard.held).contents =
          (element :: (Retained.rolling held).contents).take bound ∧
        unheard.result = .ok ()) ∧
      ∀ {τ : Type} (l' : Listener τ) (t : τ),
        (l'.hear t (.pushed element)).2.isOk = (l.hear s (.pushed element)).2.isOk →
          (push l' t held element bound).held = (push l s held element bound).held := by
  refine ⟨exists_pushLaw l s held element bound, ⟨contents_push .silent () held element bound, ?_⟩,
    fun l' t h => ?_⟩
  · obtain ⟨new, hlaw⟩ := exists_pushLaw .silent () held element bound
    exact hlaw.succeeds.2 (hlaw.answers.forall_mem fun _ _ => rfl)
  · rw [← List.reverse_inj, contents_push, contents_push, candidates_congr h]

open Timed (stern)

/-- Three departures are refused, and yet the window holds what it would hold if nobody listened. -/
theorem push_keeps_newest_of_stern :
    let held := [Value.int 1, .int 2, .int 3]
    let heard := push stern () held (.int 4) 1
    (Listener.silent.hear () (.pushed (.int 4))).2.isOk =
        (stern.hear () (.pushed (.int 4))).2.isOk ∧
      (push .silent () held (.int 4) 1).held = heard.held ∧ heard.held = [.int 4] ∧
      heard.result = .error (.listener "not yet") :=
  ⟨rfl, (push_keeps_newest stern () _ (.int 4) 1).2.2 .silent () rfl, rfl, rfl⟩

/-- A refused element is not taken in, but the window shrinks to the bound all the same. -/
example : push stern () [.int 1, .int 2] (.int (-1)) 1 =
    ⟨(), [.int 2], .error (.listener "not below zero")⟩ := rfl

end Rolling

end LiveQuery.Window
