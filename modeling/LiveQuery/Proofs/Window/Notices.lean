import LiveQuery.Window.Retained

/-!
# The notices of a window account for its elements

A listener can be made to keep a record of what it is told and of its answers, and nothing else
changes by that. Whatever a window does, the record of it is complete: what was held before and what
was admitted since is, in order, what was announced as gone and what is held now. That is
`Balanced`, and `Accounted` says of one operation that its record exists and is balanced. An element
that is refused leaves no trace, and an element that has to go is announced once, whatever the
listener answers.
-/

namespace LiveQuery.Window

variable {σ α β : Type}

/-- A notice, and the listener's answer to it. -/
abbrev Exchange := Notice × Except QueryError Unit

/-- The element that an exchange let in. -/
def Exchange.admitted? : Exchange → Option Value
  | (.pushed element, .ok _) => some element
  | _ => none

/-- The element that an exchange announced as gone. -/
def Exchange.evicted? : Exchange → Option Value
  | (.popped element, _) => some element
  | _ => none

/-- The elements that came in during some exchanges, in order. -/
def admitted (log : List Exchange) : List Value := log.filterMap Exchange.admitted?

/-- The elements that were announced as gone during some exchanges, in order. -/
def evicted (log : List Exchange) : List Value := log.filterMap Exchange.evicted?

@[simp] theorem admitted_append (log more : List Exchange) :
    admitted (log ++ more) = admitted log ++ admitted more :=
  List.filterMap_append

@[simp] theorem evicted_append (log more : List Exchange) :
    evicted (log ++ more) = evicted log ++ evicted more :=
  List.filterMap_append

/-- A listener that also keeps a record of what it is told and of its answers. -/
def Listener.recorded (l : Listener σ) : Listener (σ × List Exchange) where
  hear s notice :=
    let (heard, answer) := l.hear s.1 notice
    ((heard, s.2 ++ [(notice, answer)]), answer)

/-- The refusal in an exchange. -/
def Exchange.refusal? : Exchange → Option QueryError
  | (_, .error e) => some e
  | (_, .ok _) => none

/-- The first refusal among some exchanges, or success if there is none. -/
def firstRefusal (log : List Exchange) : Except QueryError Unit :=
  (log.findSome? Exchange.refusal?).elim (.ok ()) .error

theorem firstRefusal_cons (notice : Notice) (answer : Except QueryError Unit) (log : List Exchange) :
    firstRefusal ((notice, answer) :: log) = firstFailure answer (firstRefusal log) := by
  cases answer <;> rfl

/-- These exchanges are what the listener answers from one state on, and they leave it in the other.
-/
def Listener.Answers (l : Listener σ) : σ → List Exchange → σ → Prop
  | s, [], t => s = t
  | s, (notice, answer) :: rest, t =>
    (l.hear s notice).2 = answer ∧ l.Answers (l.hear s notice).1 rest t

theorem Listener.Answers.append {l : Listener σ} {s t u : σ} {log more : List Exchange}
    (first : l.Answers s log t) (second : l.Answers t more u) : l.Answers s (log ++ more) u := by
  induction log generalizing s with
  | nil => exact first ▸ second
  | cons exchange rest ih => exact ⟨first.1, ih first.2⟩

/-- Nothing is lost and nothing is out of order: what was held and then came in is what went and
what is held now. -/
def Balanced (before : List Value) (log : List Exchange) (after : List Value) : Prop :=
  before ++ admitted log = evicted log ++ after

theorem Balanced.refl (held : List Value) : Balanced held [] held := List.append_nil held

/-- If nothing was held before, then what came in is what went and what is held now. -/
theorem Balanced.admitted_eq {log : List Exchange} {after : List Value} (h : Balanced [] log after) :
    admitted log = evicted log ++ after := h

theorem Balanced.append {before between after : List Value} {log more : List Exchange}
    (first : Balanced before log between) (second : Balanced between more after) :
    Balanced before (log ++ more) after := by
  unfold Balanced at *
  rw [admitted_append, evicted_append, ← List.append_assoc, first, List.append_assoc, second,
    List.append_assoc]

/-- An operation that leaves `plain` behind leaves `full` behind when the listener keeps a record:
the same, with the exchanges of the operation added to the record. They are the listener's own, and
they account for every element. -/
def Accounted (l : Listener σ) (arrivals : β → List Value) (s : σ) (log : List Exchange) (held : β)
    (plain : Outcome σ β) (full : Outcome (σ × List Exchange) β) : Prop :=
  ∃ new, full = ⟨(plain.state, log ++ new), plain.held, plain.result⟩ ∧
    l.Answers s new plain.state ∧ Balanced (arrivals held) new (arrivals plain.held)

/-- What holds of the elements as a list holds of them in any other form. -/
theorem Accounted.map {γ : Type} {l : Listener σ} {arrivals : β → List Value}
    {arrivals' : γ → List Value} {s : σ} {log : List Exchange} {held : β} {plain : Outcome σ β}
    {full : Outcome (σ × List Exchange) β} (h : Accounted l arrivals s log held plain full)
    (f : β → γ) (same : ∀ b, arrivals' (f b) = arrivals b) :
    Accounted l arrivals' s log (f held) ⟨plain.state, f plain.held, plain.result⟩
      ⟨full.state, f full.held, full.result⟩ := by
  obtain ⟨new, hfull, hanswers, hbalanced⟩ := h
  refine ⟨new, ?_, hanswers, ?_⟩
  · rw [hfull]
  · rw [same, same]
    exact hbalanced

section Elements

variable (l : Listener σ) (view : α → Value) (s : σ) (log : List Exchange)

/-- An eviction lets go of a front part of the elements, announces each of them in turn, and gives
the first refusal that it meets. -/
theorem evict_announces (due : List α → Bool) (held : List α) :
    let after := evict l view due s held
    ∃ gone new, held = gone ++ after.held ∧
      (∀ log, evict l.recorded view due (s, log) held =
        ⟨(after.state, log ++ new), after.held, after.result⟩) ∧
      new.map Prod.fst = (gone.map view).map Notice.popped ∧
      l.Answers s new after.state ∧ after.result = firstRefusal new := by
  induction held generalizing s with
  | nil => exact ⟨[], [], rfl, fun log => by simp [evict], rfl, rfl, rfl⟩
  | cons oldest rest ih =>
    by_cases hdue : due (oldest :: rest)
    · obtain ⟨gone, new, hheld, hfull, hnotices, hanswers, hresult⟩ :=
        ih (l.hear s (.popped (view oldest))).1
      refine ⟨oldest :: gone, (.popped (view oldest), (l.hear s (.popped (view oldest))).2) :: new,
        ?_, fun log => ?_, ?_, ?_, ?_⟩
      · simp only [evict, hdue, if_true, List.cons_append]
        exact congrArg (oldest :: ·) hheld
      · simp only [Listener.recorded] at hfull
        simp only [evict, hdue, if_true, Listener.recorded, hfull, List.append_assoc,
          List.singleton_append]
      · exact congrArg (Notice.popped (view oldest) :: ·) hnotices
      · simp only [evict, hdue, if_true]
        exact ⟨rfl, hanswers⟩
      · simp only [evict, hdue, if_true]
        rw [hresult, firstRefusal_cons]
    · simp only [evict, hdue, if_false, Bool.false_eq_true]
      exact ⟨[], [], rfl, fun log => by rw [List.append_nil], rfl, rfl, rfl⟩

theorem admitted_of_popped {gone : List Value} {log : List Exchange}
    (h : log.map Prod.fst = gone.map Notice.popped) : admitted log = [] ∧ evicted log = gone := by
  induction log generalizing gone with
  | nil => exact ⟨rfl, (List.map_eq_nil_iff.1 h.symm).symm⟩
  | cons exchange rest ih =>
    obtain ⟨notice, answer⟩ := exchange
    obtain ⟨element, others, rfl, rfl, hrest⟩ := List.map_eq_cons_iff.1 h.symm
    obtain ⟨hadmitted, hevicted⟩ := ih hrest.symm
    refine ⟨?_, ?_⟩
    · rw [admitted, List.filterMap_cons]
      exact hadmitted
    · rw [evicted, List.filterMap_cons]
      exact congrArg (element :: ·) hevicted

theorem evict_accounted (due : List α → Bool) (held : List α) :
    Accounted l (List.map view) s log held (evict l view due s held)
      (evict l.recorded view due (s, log) held) := by
  obtain ⟨gone, new, hheld, hfull, hnotices, hanswers, -⟩ := evict_announces l view s due held
  obtain ⟨hadmitted, hevicted⟩ := admitted_of_popped hnotices
  refine ⟨new, hfull log, hanswers, ?_⟩
  rw [Balanced, hadmitted, hevicted, List.append_nil, ← List.map_append, ← hheld]

/-- An offer announces the element, and its result is the listener's answer. -/
theorem receive_announces (held : List α) (element : α) :
    let admitted := receive l view s held element
    let arrival : Exchange := (.pushed (view element), (l.hear s (.pushed (view element))).2)
    (∀ log, receive l.recorded view (s, log) held element =
        ⟨(admitted.state, log ++ [arrival]), admitted.held, admitted.result⟩) ∧
      l.Answers s [arrival] admitted.state ∧ admitted.result = arrival.2 := by
  simp only [receive, Listener.recorded]
  cases hanswer : (l.hear s (.pushed (view element))).2 <;>
    exact ⟨fun _ => rfl, ⟨hanswer, rfl⟩, rfl⟩

theorem receive_accounted (held : List α) (element : α) :
    Accounted l (List.map view) s log held (receive l view s held element)
      (receive l.recorded view (s, log) held element) := by
  obtain ⟨hfull, hanswers, -⟩ := receive_announces l view s held element
  refine ⟨_, hfull log, hanswers, ?_⟩
  simp only [receive]
  cases (l.hear s (.pushed (view element))).2 with
  | ok _ => simp [Balanced, admitted, evicted, Exchange.admitted?, Exchange.evicted?]
  | error e => exact List.append_nil _

end Elements

section Windows

variable (l : Listener σ) (s : σ) (log : List Exchange)

theorem Rolling.push_accounted (held : List Value) (element : Value) (bound : Nat) :
    Accounted l id s log held (Rolling.push l s held element bound)
      (Rolling.push l.recorded (s, log) held element bound) := by
  obtain ⟨arrival, hreceive, hanswers, hbalanced⟩ := receive_accounted l id s log held element
  obtain ⟨departures, hshrink, hanswers', hbalanced'⟩ :=
    evict_accounted l id (receive l id s held element).state (log ++ arrival)
      (fun held => bound < held.length) (receive l id s held element).held
  refine ⟨arrival ++ departures, ?_, hanswers.append hanswers', ?_⟩
  · simp only [Rolling.push, Rolling.shrink, hreceive, hshrink, List.append_assoc]
  · simp only [List.map_id_fun, id_eq] at hbalanced hbalanced'
    exact hbalanced.append hbalanced'

theorem Timed.expireAt_accounted (held : List Stamped) (length now : Nat) :
    Accounted l (List.map Stamped.value) s log held (Timed.expireAt l s held length now)
      (Timed.expireAt l.recorded (s, log) held length now) := by
  by_cases horigin : now < length
  · refine ⟨[], ?_, ?_, ?_⟩ <;> simp only [Timed.expireAt, horigin, if_true]
    · rw [List.append_nil]
    · rfl
    · exact Balanced.refl _
  · simp only [Timed.expireAt, horigin, if_false]
    exact evict_accounted l Stamped.value s log _ held

theorem Timed.pushAt_accounted (held : List Stamped) (element : Value) (length now : Nat) :
    Accounted l (List.map Stamped.value) s log held (Timed.pushAt l s held element length now)
      (Timed.pushAt l.recorded (s, log) held element length now) := by
  obtain ⟨arrival, hreceive, hanswers, hbalanced⟩ :=
    receive_accounted l Stamped.value s log held ⟨element, now⟩
  obtain ⟨departures, hexpire, hanswers', hbalanced'⟩ :=
    Timed.expireAt_accounted l (receive l Stamped.value s held ⟨element, now⟩).state
      (log ++ arrival) (receive l Stamped.value s held ⟨element, now⟩).held length now
  refine ⟨arrival ++ departures, ?_, hanswers.append hanswers', hbalanced.append hbalanced'⟩
  simp only [Timed.pushAt, hreceive, hexpire, List.append_assoc]

theorem Retained.push_rolling (held : List Value) (element : Value) (bound now : Nat) :
    (Retained.rolling held).push l s element bound now =
      ⟨(Rolling.push l s held element bound).state,
        .rolling (Rolling.push l s held element bound).held,
        (Rolling.push l s held element bound).result⟩ := rfl

theorem Retained.push_timed (held : List Stamped) (element : Value) (bound now : Nat) :
    (Retained.timed held).push l s element bound now =
      ⟨(Timed.pushAt l s held element (bound * second) now).state,
        .timed (Timed.pushAt l s held element (bound * second) now).held,
        (Timed.pushAt l s held element (bound * second) now).result⟩ := rfl

theorem Retained.push_accounted (r : Retained) (element : Value) (bound now : Nat) :
    Accounted l Retained.arrivals s log r (r.push l s element bound now)
      (r.push l.recorded (s, log) element bound now) := by
  cases r with
  | rolling held =>
    rw [Retained.push_rolling, Retained.push_rolling]
    exact (Rolling.push_accounted l s log held element bound).map Retained.rolling fun _ => rfl
  | timed held =>
    rw [Retained.push_timed, Retained.push_timed]
    exact (Timed.pushAt_accounted l s log held element (bound * second) now).map Retained.timed
      fun _ => rfl

theorem Retained.advance_of_not_isNull (r : Retained) {element : Value} (h : element.isNull = false)
    (bound now : Nat) : r.advance l s element bound now = r.push l s element bound now := by
  simp only [Retained.advance, h, Bool.false_eq_true, if_false]

theorem Retained.advance_rolling_null (held : List Value) (bound now : Nat) :
    (Retained.rolling held).advance l s .null bound now = ⟨s, .rolling held, .ok ()⟩ := rfl

theorem Retained.advance_timed_null (held : List Stamped) (bound now : Nat) :
    (Retained.timed held).advance l s .null bound now =
      ⟨(Timed.expireAt l s held (bound * second) now).state,
        .timed (Timed.expireAt l s held (bound * second) now).held,
        (Timed.expireAt l s held (bound * second) now).result⟩ := rfl

theorem eq_null_of_isNull {v : Value} (h : v.isNull = true) : v = .null := by
  cases v <;> simp [Value.isNull] at h ⊢

theorem Retained.advance_accounted (r : Retained) (element : Value) (bound now : Nat) :
    Accounted l Retained.arrivals s log r (r.advance l s element bound now)
      (r.advance l.recorded (s, log) element bound now) := by
  cases hnull : element.isNull with
  | false =>
    rw [Retained.advance_of_not_isNull l s r hnull,
      Retained.advance_of_not_isNull l.recorded (s, log) r hnull]
    exact Retained.push_accounted l s log r element bound now
  | true =>
    obtain rfl := eq_null_of_isNull hnull
    cases r with
    | rolling held =>
      rw [Retained.advance_rolling_null, Retained.advance_rolling_null]
      exact ⟨[], by rw [List.append_nil], rfl, Balanced.refl _⟩
    | timed held =>
      rw [Retained.advance_timed_null, Retained.advance_timed_null]
      exact (Timed.expireAt_accounted l s log held (bound * second) now).map Retained.timed
        fun _ => rfl

end Windows

end LiveQuery.Window
