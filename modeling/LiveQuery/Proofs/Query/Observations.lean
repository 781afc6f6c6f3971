import LiveQuery.Proofs.Query.Aggregates

/-!
# A window and a listener that may refuse

A window under observation is offered elements, made to let old ones go and evaluated on events, in
any order, while its listener refuses whatever notice it likes. The window announces an element that
it is offered once and first, and then those that go (`Heralds`). Nothing is lost and nothing is out
of order over a whole run: the elements whose arrival was accepted are, in this order, those that
were announced as gone and those that are held.
-/

namespace LiveQuery

open Window (Exchange Notice Retained Balanced admitted evicted)

namespace Window

variable {σ α : Type}

/-! ### The order of the notices of one operation -/

/-- The record has grown by the announcement of the element that was offered, if one was, and behind
it by those of the elements that went. -/
def Heralds (offered : Option Value) (log after : List Exchange) : Prop :=
  ∃ arrivals departures, after = log ++ arrivals ++ departures ∧
    arrivals.map Prod.fst = offered.toList.map Notice.pushed ∧
    ∀ exchange ∈ departures, ∃ element answer, exchange = (.popped element, answer)

theorem Heralds.refl (log : List Exchange) : Heralds none log log :=
  ⟨[], [], by simp, rfl, List.forall_mem_nil _⟩

theorem Heralds.trans {offered : Option Value} {log between after : List Exchange}
    (first : Heralds offered log between) (second : Heralds none between after) :
    Heralds offered log after := by
  obtain ⟨arrivals, departures, rfl, harrivals, hdepartures⟩ := first
  obtain ⟨none', departures', rfl, hnone, hdepartures'⟩ := second
  obtain rfl : none' = [] := List.map_eq_nil_iff.1 hnone
  refine ⟨arrivals, departures ++ departures', by simp, harrivals, fun exchange hmem => ?_⟩
  rcases List.mem_append.1 hmem with hmem | hmem
  · exact hdepartures exchange hmem
  · exact hdepartures' exchange hmem

/-- It does not matter in what form the elements are held. -/
theorem Heralds.map {β : Type} {offered : Option Value} {log : List Exchange}
    {operated : Outcome (σ × List Exchange) α} (h : Heralds offered log operated.state.2)
    (held : β) : Heralds offered log (Outcome.mk operated.state held operated.result).state.2 := h

variable (l : Listener σ) (s : σ × List Exchange)

theorem heralds_evict (view : α → Value) (due : List α → Bool) (held : List α) :
    Heralds none s.2 (evict l.recorded view due s held).state.2 := by
  obtain ⟨gone, new, -, hfull, hnotices, -, -⟩ := evict_announces l view s.1 due held
  rw [hfull s.2]
  refine ⟨[], new, by rw [List.append_nil], rfl, fun exchange hmem => ?_⟩
  have hnotice : exchange.1 ∈ (gone.map view).map Notice.popped :=
    hnotices ▸ List.mem_map_of_mem hmem
  obtain ⟨element, -, helement⟩ := List.mem_map.1 hnotice
  exact ⟨element, exchange.2, Prod.ext helement.symm rfl⟩

theorem heralds_receive (view : α → Value) (held : List α) (element : α) :
    Heralds (some (view element)) s.2 (receive l.recorded view s held element).state.2 := by
  refine ⟨[(.pushed (view element), (l.hear s.1 (.pushed (view element))).2)], [], ?_, rfl,
    List.forall_mem_nil _⟩
  simp only [receive, Listener.recorded, List.append_nil]
  split <;> rfl

theorem Rolling.heralds_push (held : List Value) (element : Value) (bound : Nat) :
    Heralds (some element) s.2 (Rolling.push l.recorded s held element bound).state.2 :=
  (heralds_receive l s id held element).trans (heralds_evict l _ id _ _)

theorem Timed.heralds_expireAt (held : List Stamped) (length now : Nat) :
    Heralds none s.2 (Timed.expireAt l.recorded s held length now).state.2 := by
  unfold Timed.expireAt
  split
  · exact Heralds.refl s.2
  · exact heralds_evict l s _ _ held

theorem Timed.heralds_pushAt (held : List Stamped) (element : Value) (length now : Nat) :
    Heralds (some element) s.2 (Timed.pushAt l.recorded s held element length now).state.2 :=
  (heralds_receive l s Stamped.value held ⟨element, now⟩).trans
    (Timed.heralds_expireAt l _ _ length now)

theorem Retained.heralds_push (r : Retained) (element : Value) (bound now : Nat) :
    Heralds (some element) s.2 (r.push l.recorded s element bound now).state.2 := by
  cases r with
  | rolling held =>
    rw [Retained.push_rolling]
    exact (Rolling.heralds_push l s held element bound).map _
  | timed held =>
    rw [Retained.push_timed]
    exact (Timed.heralds_pushAt l s held element (bound * second) now).map _

theorem Retained.heralds_advance (r : Retained) (element : Value) (bound now : Nat) :
    Heralds (if element.isNull then none else some element) s.2
      (r.advance l.recorded s element bound now).state.2 := by
  cases hnull : element.isNull with
  | false =>
    rw [Retained.advance_of_not_isNull l.recorded s r hnull]
    exact Retained.heralds_push l s r element bound now
  | true =>
    obtain rfl := eq_null_of_isNull hnull
    cases r with
    | rolling held =>
      rw [Retained.advance_rolling_null]
      exact Heralds.refl s.2
    | timed held =>
      rw [Retained.advance_timed_null]
      exact (Timed.heralds_expireAt l s held (bound * second) now).map _

end Window

open Window (Heralds)

namespace ObservedWindow

variable {σ : Type} (l : Window.Listener σ) (w : ObservedWindow σ)

/-! ### Runs -/

/-- What can be done to a window under observation. -/
inductive Operation where
  | push (element : Value) (bound now : Nat)
  | pushAt (element : Value) (length now : Nat)
  | expireAt (length now : Nat)
  | evaluate (o : Occasion)

def perform : Operation → ObservedWindow σ
  | .push element bound now => (w.push l element bound now).1
  | .pushAt element length now => (w.pushAt l element length now).1
  | .expireAt length now => (w.expireAt l length now).1
  | .evaluate o => (w.evalOn l o).1

/-- The window after a run of operations. -/
def after (ops : List Operation) : ObservedWindow σ := ops.foldl (perform l) w

/-- The window with a listener that has kept this record. -/
def recording (log : List Exchange) : ObservedWindow (σ × List Exchange) :=
  ⟨w.retained, w.element, w.bound, (w.state, log)⟩

/-- What the listener is told during a run, and what it answers. -/
def heard (ops : List Operation) : List Exchange :=
  ((w.recording []).after l.recorded ops).state.2

/-- The element that an operation offers to the window, if it offers one. An event offers what the
window's element gives, unless that is `null` or there is no bound. -/
def offered? : Operation → Option Value
  | .push element _ _ => some element
  | .pushAt element _ _ =>
    match w.retained with
    | .timed _ => some element
    | .rolling _ => none
  | .expireAt _ _ => none
  | .evaluate o =>
    match (w.element.evalOn (o.within 0)).2, (w.bound.evalOn (o.within 1)).2 with
    | .ok element, .ok (.int (.ofNat _)) => if element.isNull then none else some element
    | _, _ => none

/-! ### One operation -/

/-- An operation with a listener that keeps a record is the operation, and its record accounts for
the elements. -/
theorem perform_recorded (log : List Exchange) (op : Operation) :
    ∃ new, (w.recording log).perform l.recorded op = (w.perform l op).recording (log ++ new) ∧
      l.Answers w.state new (w.perform l op).state ∧
      Balanced w.retained.arrivals new (w.perform l op).retained.arrivals := by
  obtain ⟨retained, element, bound, state⟩ := w
  cases op with
  | push v n now =>
    obtain ⟨new, hfull, haccounts⟩ := Retained.push_accounted l state log retained v n now
    exact ⟨new, by simp only [perform, push, settle, recording, hfull], haccounts⟩
  | pushAt v length now =>
    cases retained with
    | rolling held => exact ⟨[], by simp [perform, pushAt, recording], rfl, Balanced.refl _⟩
    | timed held =>
      obtain ⟨new, hfull, haccounts⟩ := Window.Timed.pushAt_accounted l state log held v length now
      exact ⟨new, by simp only [perform, pushAt, settle, recording, hfull], haccounts⟩
  | expireAt length now =>
    cases retained with
    | rolling held => exact ⟨[], by simp [perform, expireAt, recording], rfl, Balanced.refl _⟩
    | timed held =>
      obtain ⟨new, hfull, haccounts⟩ := Window.Timed.expireAt_accounted l state log held length now
      exact ⟨new, by simp only [perform, expireAt, settle, recording, hfull], haccounts⟩
  | evaluate o =>
    obtain ⟨new, hfull, haccounts⟩ := Expr.advance_accounted l state log retained (o.now [])
      (Expr.inTurn (element.evalOn (o.within 0)) bound fun _ => bound.evalOn (o.within 1)).2.2
    exact ⟨new, by simp only [perform, evalOn, recording, hfull], haccounts⟩

theorem heralds_evalOn (log : List Exchange) (o : Occasion) :
    Heralds (w.offered? (.evaluate o)) log ((w.recording log).evalOn l.recorded o).1.state.2 := by
  obtain ⟨retained, element, bound, state⟩ := w
  simp only [evalOn, recording, offered?]
  rcases element.evalOn (o.within 0) with ⟨element', x⟩
  cases x with
  | error e => exact Heralds.refl log
  | ok x =>
    rcases bound.evalOn (o.within 1) with ⟨bound', y⟩
    cases y with
    | error e => exact Heralds.refl log
    | ok y =>
      simp only [Expr.inTurn, Expr.advance]
      cases y with
      | int n =>
        cases n with
        | ofNat n => exact Retained.heralds_advance l (state, log) retained x n (o.now [])
        | negSucc n => exact Heralds.refl log
      | _ => exact Heralds.refl log

theorem heralds_perform (log : List Exchange) (op : Operation) :
    Heralds (w.offered? op) log ((w.recording log).perform l.recorded op).state.2 := by
  cases op with
  | push v n now => exact Retained.heralds_push l (w.state, log) w.retained v n now
  | pushAt v length now =>
    obtain ⟨retained, element, bound, state⟩ := w
    cases retained with
    | rolling held => exact Heralds.refl log
    | timed held => exact Window.Timed.heralds_pushAt l (state, log) held v length now
  | expireAt length now =>
    obtain ⟨retained, element, bound, state⟩ := w
    cases retained with
    | rolling held => exact Heralds.refl log
    | timed held => exact Window.Timed.heralds_expireAt l (state, log) held length now
  | evaluate o => exact heralds_evalOn l w log o

/-! ### All operations -/

theorem after_recorded (log : List Exchange) (ops : List Operation) :
    ∃ new, (w.recording log).after l.recorded ops = (w.after l ops).recording (log ++ new) ∧
      l.Answers w.state new (w.after l ops).state ∧
      Balanced w.retained.arrivals new (w.after l ops).retained.arrivals := by
  induction ops generalizing w log with
  | nil => exact ⟨[], by rw [List.append_nil]; rfl, rfl, Balanced.refl _⟩
  | cons op ops ih =>
    obtain ⟨first, hfirst, hanswers, hbalanced⟩ := w.perform_recorded l log op
    obtain ⟨rest, hrest, hanswers', hbalanced'⟩ := ih (w.perform l op) (log ++ first)
    refine ⟨first ++ rest, ?_, hanswers.append hanswers', hbalanced.append hbalanced'⟩
    rw [← List.append_assoc]
    exact (congrArg (after l.recorded · ops) hfirst).trans hrest

theorem after_concat (ops : List Operation) (op : Operation) :
    w.after l (ops ++ [op]) = (w.after l ops).perform l op := by
  rw [after, List.foldl_append]
  rfl

/-- A listener that grants a request and refuses the next, in turn. -/
def fickle : Window.Listener Nat where
  hear n _ := (n + 1, if n % 2 = 0 then .ok () else .error (.listener "not now"))

/-- A window of the last elements that nobody has offered anything yet. -/
def lastUnderFickle : ObservedWindow Nat :=
  ⟨.rolling [], .lookup (.literal (.str "v")), .literal (.int 1), 0⟩

/-- Of a window that was empty when its listener began to listen: the record of a run is what the
listener itself answers, and keeping it changes nothing. The elements whose arrival was accepted
are those that were announced as gone and those that are held, in this order, whatever the listener
answered to the departures. The next operation announces the element that it offers, if it offers
one, before all that go. -/
theorem window_accounts_for_elements (h : w.retained.arrivals = []) (ops : List Operation) :
    let now := w.after l ops
    let log := w.heard l ops
    (w.recording []).after l.recorded ops = now.recording log ∧
      l.Answers w.state log now.state ∧
      admitted log = evicted log ++ now.retained.contents.reverse ∧
      ∀ op, Heralds (now.offered? op) log (w.heard l (ops ++ [op])) := by
  intro now log
  obtain ⟨new, hrecorded, hanswers, hbalanced⟩ := w.after_recorded l [] ops
  obtain rfl : log = new := congrArg (fun w => w.state.2) hrecorded
  rw [List.nil_append] at hrecorded
  rw [h] at hbalanced
  refine ⟨hrecorded, hanswers, ?_, fun op => ?_⟩
  · rw [Retained.contents, List.reverse_reverse]
    exact hbalanced.admitted_eq
  · rw [heard, after_concat, hrecorded]
    exact now.heralds_perform l log op

/-- Of three elements the second is refused, and the first goes although its departure is refused.
-/
theorem window_accounts_for_elements_of_fickle :
    let ops := [Operation.push (.int 1) 1 0, .push (.int 2) 1 0, .push (.int 3) 1 0]
    lastUnderFickle.heard fickle ops =
        [(.pushed (.int 1), .ok ()), (.pushed (.int 2), .error (.listener "not now")),
          (.pushed (.int 3), .ok ()), (.popped (.int 1), .error (.listener "not now"))] ∧
      admitted (lastUnderFickle.heard fickle ops) =
        evicted (lastUnderFickle.heard fickle ops) ++ [.int 3] :=
  ⟨rfl, (window_accounts_for_elements fickle lastUnderFickle rfl _).2.2.1⟩

end ObservedWindow

end LiveQuery
