import LiveQuery.Proofs.Query.Places
import LiveQuery.Proofs.Query.Rendering
import LiveQuery.Proofs.Window.Totals
import LiveQuery.Query.Observed

/-!
# The aggregates of a statement

An aggregate evaluates its window with its total listening. What the two tell each other at a place
of the tree is put together over a run (`Expr.record`), and the state of the aggregate is what this
record makes of its state at the beginning (`Follows`). A tree that has just been read begins with
an empty window and a total of zero, so its aggregates and their windows stay in step.
-/

namespace LiveQuery

open Window (Exchange Notice Retained Balanced admitted evicted accepted)
open Window.Total (ofDoubles booked numberOf)

/-! ### A window under observation -/

theorem Expr.advance_accounted {σ : Type} (l : Window.Listener σ) (s : σ) (log : List Exchange)
    (r : Retained) (now : Nat) (inputs : Except QueryError (Value × Value)) :
    Window.Accounted l Retained.arrivals s log r (advance l s r now inputs)
      (advance l.recorded (s, log) r now inputs) := by
  have idle : ∀ e, Window.Accounted l Retained.arrivals s log r ⟨s, r, .error e⟩
      ⟨(s, log), r, .error e⟩ := fun e =>
    ⟨[], by rw [List.append_nil], rfl, Balanced.refl _⟩
  cases inputs with
  | error e => exact idle e
  | ok pair =>
    obtain ⟨element, bound⟩ := pair
    simp only [advance]
    cases boundOf r.functionName bound with
    | error e => exact idle e
    | ok n => exact Retained.advance_accounted l s log r element n now

namespace ObservedWindow

/-- The window on an occasion, with a listener that keeps a record of this occasion. -/
def recordedOn {σ : Type} (l : Window.Listener σ) (o : Occasion) (w : ObservedWindow σ) :
    ObservedWindow (σ × List Exchange) × QueryResult :=
  evalOn l.recorded o ⟨w.retained, w.element, w.bound, (w.state, [])⟩

/-- The record is that of the window itself: everything else is as without a record. -/
theorem recordedOn_spec {σ : Type} (l : Window.Listener σ) (o : Occasion) (w : ObservedWindow σ) :
    (∃ log, w.recordedOn l o = ({ (w.evalOn l o).1 with state := ((w.evalOn l o).1.state, log) },
        (w.evalOn l o).2)) ∧
      l.Answers w.state (w.recordedOn l o).1.state.2 (w.evalOn l o).1.state ∧
      Balanced w.retained.arrivals (w.recordedOn l o).1.state.2
        (w.evalOn l o).1.retained.arrivals := by
  obtain ⟨new, hfull, hanswers, hbalanced⟩ := Expr.advance_accounted l w.state [] w.retained
    (o.now []) (Expr.inTurn (w.element.evalOn (o.within 0)) w.bound
      fun _ => w.bound.evalOn (o.within 1)).2.2
  simp only [recordedOn, evalOn, hfull, List.nil_append]
  exact ⟨⟨new, rfl⟩, hanswers, hbalanced⟩

end ObservedWindow

namespace Expr

theorem evalOn_aggregate (o : Occasion) (kind : Aggregate) (retained : Retained)
    (element bound : Expr) (total : Float) :
    (aggregate kind retained element bound total).evalOn o =
      let after := ObservedWindow.evalOn ofDoubles o ⟨retained, element, bound, total⟩
      (.aggregate kind after.1.retained after.1.element after.1.bound after.1.state,
        after.2 >>= fun _ => aggregated kind after.1.state after.1.retained.size) := by
  simp only [evalOn, ObservedWindow.evalOn]
  cases (advance ofDoubles total retained (o.now []) _).result <;> rfl

/-! ### The record of a place -/

/-- What the aggregate at a place is told on one occasion, and what it answers. -/
def told : Place → Occasion → Expr → List Exchange
  | [], o, .aggregate _ retained element bound total =>
    (ObservedWindow.recordedOn ofDoubles o ⟨retained, element, bound, total⟩).1.state.2
  | [], _, _ => []
  | i :: place, o, e =>
    if e.visits o i then e.parts[i]?.elim [] (told place (o.within i)) else []

/-- What the aggregate at a place is told during a run, and what it answers. -/
def record (place : Place) : List Occasion → Expr → List Exchange
  | [], _ => []
  | o :: os, e => e.told place o ++ (e.evalOn o).1.record place os

/-- An aggregate at the place afterwards was one of the same kind before, and these exchanges lead
from one state to the other. -/
def Follows (place : Place) (before : Expr) (log : List Exchange) (after : Expr) : Prop :=
  ∀ kind retained element bound total,
    after.at? place = some (.aggregate kind retained element bound total) →
    ∃ retained₀ element₀ bound₀ total₀,
      before.at? place = some (.aggregate kind retained₀ element₀ bound₀ total₀) ∧
      ofDoubles.Answers total₀ log total ∧ Balanced retained₀.arrivals log retained.arrivals

theorem Follows.refl (place : Place) (e : Expr) : Follows place e [] e :=
  fun _ retained element bound total hat =>
    ⟨retained, element, bound, total, hat, rfl, Balanced.refl _⟩

theorem Follows.trans {place : Place} {a b c : Expr} {log more : List Exchange}
    (first : Follows place a log b) (second : Follows place b more c) :
    Follows place a (log ++ more) c := by
  intro kind retained element bound total hat
  obtain ⟨r₁, e₁, b₁, t₁, hat₁, hanswers₁, hbalanced₁⟩ := second _ _ _ _ _ hat
  obtain ⟨r₀, e₀, b₀, t₀, hat₀, hanswers₀, hbalanced₀⟩ := first _ _ _ _ _ hat₁
  exact ⟨r₀, e₀, b₀, t₀, hat₀, hanswers₀.append hanswers₁, hbalanced₀.append hbalanced₁⟩

theorem follows_told (place : Place) (o : Occasion) (e : Expr) :
    Follows place e (e.told place o) (e.evalOn o).1 := by
  induction place generalizing o e with
  | nil =>
    intro kind retained element bound total hat
    rw [at?_nil] at hat
    cases e with
    | aggregate kind₀ r₀ e₀ b₀ t₀ =>
      rw [evalOn_aggregate] at hat
      obtain ⟨rfl, rfl, -, -, rfl⟩ := Expr.aggregate.inj (Option.some.inj hat)
      obtain ⟨-, hanswers, hbalanced⟩ :=
        ObservedWindow.recordedOn_spec ofDoubles o ⟨r₀, e₀, b₀, t₀⟩
      exact ⟨r₀, e₀, b₀, t₀, at?_nil _, hanswers, hbalanced⟩
    | _ => cases hat
  | cons i place ih =>
    intro kind retained element bound total hat
    rw [at?_evalOn_cons] at hat
    cases hpart : e.parts[i]? with
    | none => simp [hpart] at hat
    | some part =>
      rw [hpart, Option.bind_some] at hat
      simp only [told, hpart, at?_cons, Option.bind_some, Option.elim_some]
      by_cases hvisits : e.visits o i = true
      · rw [if_pos hvisits] at hat ⊢
        exact ih (o.within i) part _ _ _ _ _ hat
      · rw [if_neg hvisits] at hat ⊢
        exact Follows.refl place part _ _ _ _ _ hat

theorem follows_record (place : Place) (os : List Occasion) (e : Expr) :
    Follows place e (e.record place os) (e.after os) := by
  induction os generalizing e with
  | nil => exact Follows.refl place e
  | cons o os ih => exact (follows_told place o e).trans (ih (e.evalOn o).1)

/-! ### Aggregates that began with nothing -/

theorem Fresh.at? {e : Expr} (h : e.Fresh) {place : Place} {part : Expr}
    (hat : e.at? place = some part) : part.Fresh := by
  refine at?_induction (fun e h => ?_) h hat
  cases e <;> simp only [Fresh] at h <;> simp [parts, h]

/-- The state of an aggregate agrees with what it was told since its window was empty and its total
zero. -/
structure InStep (log : List Exchange) (retained : Retained) (total : Float) : Prop where
  numeric : ∀ element ∈ retained.arrivals, element.number?.isSome
  /-- What the window holds came in and has not gone since. -/
  held : admitted log = evicted log ++ retained.arrivals
  popped : ∀ element answer, (.popped element, answer) ∈ log → answer = .ok ()
  /-- The total in doubles, in the order of the notices. -/
  total : total = (accepted log).foldl (booked numberOf) 0.0
  /-- The total in exact arithmetic. -/
  exactTotal (G : Type) [AddCommGroup G] (number : Value → G) :
    (accepted log).foldl (booked number) 0 = (retained.arrivals.map number).sum

theorem inStep_of_answers {log : List Exchange} {retained : Retained} {total : Float}
    (hanswers : ofDoubles.Answers 0.0 log total) (hbalanced : Balanced [] log retained.arrivals) :
    InStep log retained total where
  numeric := by
    intro element helement
    refine Window.Total.isSome_of_mem_admitted hanswers ?_
    rw [hbalanced.admitted_eq]
    exact List.mem_append_right _ helement
  held := hbalanced.admitted_eq
  popped := fun _ _ hmem => Window.Total.answer_popped hanswers hbalanced hmem
  total := Window.Total.eq_foldl_of_answers hanswers
  exactTotal := fun _ _ number => Window.Total.foldl_booked_eq_sum number hanswers hbalanced

theorem answers_of_fresh {t : Expr} (h : t.Fresh) (os : List Occasion) (place : Place)
    {kind : Aggregate} {retained : Retained} {element bound : Expr} {total : Float}
    (hat : (t.after os).at? place = some (.aggregate kind retained element bound total)) :
    ofDoubles.Answers 0.0 (t.record place os) total ∧
      Balanced [] (t.record place os) retained.arrivals := by
  obtain ⟨r₀, e₀, b₀, t₀, hat₀, hanswers, hbalanced⟩ := follows_record place os t _ _ _ _ _ hat
  obtain ⟨hempty, -, -, rfl⟩ := h.at? hat₀
  rw [hempty] at hbalanced
  exact ⟨hanswers, hbalanced⟩

/-- What an aggregate tells of its window, which has just been evaluated. -/
structure Tells (kind : Aggregate) (window : ObservedWindow Float × QueryResult)
    (result : QueryResult) : Prop where
  sum (value : Value) (h : result = .ok value) (is_sum : kind = .sum) :
    value = .float window.1.state
  average (value : Value) (h : result = .ok value) (is_average : kind = .average) :
    value = .float (window.1.state / Decimal.nearestInt window.1.retained.arrivals.length)
  /-- If the window took part in the event, then only an average of nothing fails. -/
  empty (newest : Value) (h : window.2 = .ok newest) (e : QueryError) :
    result = .error e ↔ e = .emptyWindow ∧ kind = .average ∧ window.1.retained.arrivals = []
  /-- If the window failed, the aggregate fails in the same way. -/
  failed (e : QueryError) (h : window.2 = .error e) : result = .error e

theorem size_eq_length_arrivals (r : Retained) : r.size = r.arrivals.length := by
  cases r with
  | rolling held => rfl
  | timed held => exact (List.length_map Window.Stamped.value).symm

theorem tells_evalOn (o : Occasion) (kind : Aggregate) (retained : Retained) (element bound : Expr)
    (total : Float) :
    Tells kind (ObservedWindow.evalOn ofDoubles o ⟨retained, element, bound, total⟩)
      ((aggregate kind retained element bound total).evalOn o).2 := by
  rw [evalOn_aggregate]
  generalize ObservedWindow.evalOn ofDoubles o ⟨retained, element, bound, total⟩ = window
  obtain ⟨w, answer⟩ := window
  cases answer with
  | error e => exact ⟨nofun, nofun, nofun, fun _ h => congrArg _ (Except.error.inj h)⟩
  | ok newest =>
    simp only [bind, Except.bind, size_eq_length_arrivals]
    cases kind with
    | sum =>
      exact ⟨fun _ h _ => (Except.ok.inj h).symm, nofun,
        fun _ _ e => ⟨nofun, fun h => nomatch h.2.1⟩, nofun⟩
    | average =>
      by_cases hempty : w.retained.arrivals = []
      · simp only [aggregated, hempty, List.length_nil, if_true]
        exact ⟨nofun, nofun, fun _ _ e => ⟨fun h => ⟨(Except.error.inj h).symm, rfl, hempty⟩,
          fun h => congrArg _ h.1.symm⟩, nofun⟩
      · have hsize : ¬ w.retained.arrivals.length = 0 := fun h =>
          hempty (List.eq_nil_of_length_eq_zero h)
        simp only [aggregated, hsize, if_false]
        exact ⟨nofun, fun _ h _ => (Except.ok.inj h).symm,
          fun _ _ e => ⟨nofun, fun h => absurd h.2.2 hempty⟩, nofun⟩

/-- An average whose elements are themselves averages, of a window that forgets between any two
readings of the clock. -/
def averageOfAverages : Expr :=
  .aggregate .average (.rolling [])
    (.aggregate .average (.timed []) (.lookup (.literal (.str "v"))) (.literal (.int 0)) 0.0)
    (.literal (.int 5)) 0.0

theorem parse_averageOfAverages :
    Expr.parse "WindowAve(RollingWindow(WindowAve(TimedWindow(v,0)),5))" =
      .ok averageOfAverages := by
  have hpath : Renders ['v'] (.lookup (.literal (.str "v"))) := .path rfl nofun
  have hzero : Renders ['0'] (.literal (.int 0)) := .literal rfl
  have hfive : Renders ['5'] (.literal (.int 5)) := .literal rfl
  have hinner := (hpath.binary hzero (.timedWindow _ _)).unary (.aggregate .average _ _ _)
  have houter := (hinner.binary hfive (.rollingWindow _ _)).unary (.aggregate .average _ _ _)
  exact read_of_renders houter

/-- An event with a number for it. -/
def numberedOccasion : Occasion := ⟨.object [("v", .int 1)], fun _ => 0, fun _ => 0.0⟩

/-- An event without one, later. -/
def blankOccasion : Occasion := ⟨.object [], fun _ => 1, fun _ => 0.0⟩

/-- Wherever an aggregate stands in a statement that has been read, and after any run of events, the
aggregate and its window are in step. They are so again behind the next event, and the aggregate
tells of its window what the total and the elements are then. -/
theorem aggregate_in_step {statement : String} {t : Expr} (h : Expr.parse statement = .ok t)
    (os : List Occasion) (place : Place) {kind : Aggregate} {retained : Retained}
    {element bound : Expr} {total : Float}
    (hat : (t.after os).at? place = some (.aggregate kind retained element bound total)) :
    InStep (t.record place os) retained total ∧
      ∀ o : Occasion,
        let node := Expr.aggregate kind retained element bound total
        let window := ObservedWindow.evalOn ofDoubles o ⟨retained, element, bound, total⟩
        (node.evalOn o).1 = .aggregate kind window.1.retained window.1.element window.1.bound
            window.1.state ∧
          InStep (t.record place os ++ node.told [] o) window.1.retained window.1.state ∧
          Tells kind window (node.evalOn o).2 := by
  obtain ⟨hanswers, hbalanced⟩ := answers_of_fresh (renders_of_read _ h).fresh os place hat
  refine ⟨inStep_of_answers hanswers hbalanced, fun o => ⟨?_, ?_, ?_⟩⟩
  · rw [evalOn_aggregate]
  · obtain ⟨-, hanswers', hbalanced'⟩ :=
      ObservedWindow.recordedOn_spec ofDoubles o ⟨retained, element, bound, total⟩
    exact inStep_of_answers (hanswers.append hanswers') (hbalanced.append hbalanced')
  · exact tells_evalOn o kind retained element bound total

theorem aggregate_in_step_of_averages :
    ∃ retained element bound total,
      (averageOfAverages.after [numberedOccasion]).at? [] =
          some (.aggregate .average retained element bound total) ∧
        retained.arrivals.length = 1 ∧
        InStep (averageOfAverages.record [] [numberedOccasion]) retained total :=
  ⟨_, _, _, _, rfl, rfl,
    (aggregate_in_step parse_averageOfAverages [numberedOccasion] [] rfl).1⟩

/-- The failure of an inner average is the failure of the outer one, which holds an element. -/
theorem emptyWindow_of_inner :
    ¬ ∀ (statement : String) (t : Expr), Expr.parse statement = .ok t →
      ∀ (os : List Occasion) (place : Place) (retained : Retained) (element bound : Expr)
        (total : Float),
        (t.after os).at? place = some (.aggregate .average retained element bound total) →
        ∀ o : Occasion,
          let window := ObservedWindow.evalOn ofDoubles o ⟨retained, element, bound, total⟩
          (((Expr.aggregate .average retained element bound total).evalOn o).2 =
            .error .emptyWindow ↔
            window.2.isOk = true ∧ window.1.retained.arrivals = []) := by
  intro claim
  have houter := claim _ _ parse_averageOfAverages [numberedOccasion] [] _ _ _ _ rfl blankOccasion
  have hwindow := (houter.1 rfl).1
  cases hwindow

end Expr

end LiveQuery
