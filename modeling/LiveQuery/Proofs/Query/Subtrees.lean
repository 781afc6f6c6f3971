import LiveQuery.Proofs.Query.Chance

/-!
# Parts that stay in step with the events

Some parts of an expression see every event: both operands of an operator, a value and its name, the
key of a look-up, and the first part of a window, of an aggregate, of a counter and of a sample
(`Serves`). Such a part never misses an event because something beside it or above it fails. What it
remembers and what it gives are the same as if it stood alone.
-/

namespace LiveQuery

/-- The occasion as the part at a place meets it. -/
def Occasion.metAt (o : Occasion) : Place → Occasion
  | [] => o
  | i :: place => (o.within i).metAt place

namespace Expr

/-- Whether a part is evaluated on every event, whatever the others give: both operands of an
operator, both parts of a labelled expression, and the first part of anything else. -/
def alwaysVisits : Expr → Nat → Bool
  | .labelled _ _ _, _ | .arithmetic _ _ _, _ => true
  | _, i => i == 0

/-- The part stands at the place, and every step of the way to it leads to a part that is always
visited. The window of an aggregate is no part of its own. -/
inductive Serves : Expr → Place → Expr → Prop
  | itself (e : Expr) : Serves e [] e
  | part {e child part : Expr} {i : Nat} {place : Place} (hchild : e.parts[i]? = some child)
    (halways : e.alwaysVisits i = true) (h : Serves child place part) : Serves e (i :: place) part

/-- What the part at a place gives on an occasion, if it is evaluated. -/
def resultAt : Place → Occasion → Expr → Option QueryResult
  | [], o, e => some (e.evalOn o).2
  | i :: place, o, e =>
    if e.visits o i then e.parts[i]?.bind (resultAt place (o.within i)) else none

/-- What the part at a place gives during a run. -/
def resultsAt (place : Place) : List Occasion → Expr → List (Option QueryResult)
  | [], _ => []
  | o :: os, e => e.resultAt place o :: (e.evalOn o).1.resultsAt place os

/-! ### One event -/

theorem visits_of_alwaysVisits {e : Expr} {i : Nat} (h : e.alwaysVisits i = true) (o : Occasion) :
    e.visits o i = true := by
  cases e with
  | labelled | arithmetic | literal | lookup => rfl
  | _ => obtain rfl : i = 0 := beq_iff_eq.1 h; rfl

theorem alwaysVisits_evalOn (o : Occasion) (e : Expr) :
    (e.evalOn o).1.alwaysVisits = e.alwaysVisits := by
  cases e <;> rfl

theorem Serves.at? {e part : Expr} {place : Place} (h : e.Serves place part) :
    e.at? place = some part := by
  induction h with
  | itself e => exact at?_nil e
  | part hchild _ _ ih => rw [at?_cons, hchild, Option.bind_some, ih]

/-- An event reaches the part, which takes it as it would alone. -/
theorem Serves.evalOn {e part : Expr} {place : Place} (h : e.Serves place part) (o : Occasion) :
    (e.evalOn o).1.Serves place (part.evalOn (o.metAt place)).1 ∧
      e.resultAt place o = some (part.evalOn (o.metAt place)).2 := by
  induction h generalizing o with
  | itself e => exact ⟨.itself _, rfl⟩
  | @part e child part i place hchild halways _ ih =>
    have hvisits := visits_of_alwaysVisits halways o
    obtain ⟨hserves, hresult⟩ := ih (o.within i)
    refine ⟨.part ?_ ?_ hserves, ?_⟩
    · rw [parts_evalOn, List.getElem?_mapIdx, hchild, Option.map_some, if_pos hvisits]
    · rw [alwaysVisits_evalOn, halways]
    · rw [resultAt, if_pos hvisits, hchild, Option.bind_some, hresult]
      rfl

theorem Serves.certain {e part : Expr} {place : Place} (h : e.Serves place part) {o : Occasion}
    (hcertain : e.Certain o) : part.Certain (o.metAt place) := by
  induction h generalizing o with
  | itself e => exact hcertain
  | @part e child part i place hchild halways _ ih =>
    refine ih ?_
    cases e with
    | literal value => cases hchild
    | labelled | arithmetic =>
      rcases i with _ | _ | i <;> cases hchild
      · exact hcertain.1
      · exact hcertain.2
    | lookup key =>
      obtain rfl : i = 0 := beq_iff_eq.1 halways
      cases hchild
      exact hcertain
    | _ =>
      obtain rfl : i = 0 := beq_iff_eq.1 halways
      cases hchild
      exact hcertain.1

/-! ### Runs -/

theorem Serves.run {e part : Expr} {place : Place} (h : e.Serves place part)
    (os : List Occasion) :
    (e.after os).Serves place (part.after (os.map (·.metAt place))) ∧
      e.resultsAt place os = (part.results (os.map (·.metAt place))).map some := by
  induction os generalizing e part with
  | nil => exact ⟨h, rfl⟩
  | cons o os ih =>
    obtain ⟨hserves, hresult⟩ := h.evalOn o
    obtain ⟨hafter, hresults⟩ := ih hserves
    refine ⟨hafter, ?_⟩
    rw [resultsAt, hresult, hresults]
    rfl

theorem Serves.certainDuring {e part : Expr} {place : Place} (h : e.Serves place part)
    {os : List Occasion} (hcertain : e.CertainDuring os) :
    part.CertainDuring (os.map (·.metAt place)) := by
  induction os generalizing e part with
  | nil => trivial
  | cons o os ih => exact ⟨h.certain hcertain.1, ih (h.evalOn o).1 hcertain.2⟩

/-- A part that every event is served to remembers and gives during a run what it would alone, on
the events as it meets them, whatever becomes of the rest of the expression. Alone it may even see
other draws, as long as chance plays no part. -/
theorem part_in_step {t part : Expr} {place : Place} (h : t.Serves place part)
    (os : List Occasion) :
    let met := os.map (·.metAt place)
    ((t.after os).at? place = some (part.after met) ∧
        t.resultsAt place os = (part.results met).map some) ∧
      (t.CertainDuring os → ∀ alone, List.Forall₂ Occasion.Redrawn met alone →
        (t.after os).at? place = some (part.after alone) ∧
          t.resultsAt place os = (part.results alone).map some) := by
  intro met
  obtain ⟨hserves, hresults⟩ := h.run os
  refine ⟨⟨hserves.at?, hresults⟩, fun hcertain alone hdraws => ?_⟩
  obtain ⟨hafter, hsame⟩ := (h.certainDuring hcertain).run_eq hdraws
  rw [hafter, hsame]
  exact ⟨hserves.at?, hresults⟩

/-- An average, which fails as long as it has no elements. -/
def averageOfThree : Expr :=
  .aggregate .average (.rolling []) (.lookup (.literal (.str "a"))) (.literal (.int 3)) 0.0

/-- A sum of samples, each of which passes. -/
def sumOfSamples : Expr :=
  .aggregate .sum (.rolling []) (.sample (.lookup (.literal (.str "b"))) (.literal (.int 1)))
    (.literal (.int 3)) 0.0

def averageBesideSum : Expr := .arithmetic .add averageOfThree sumOfSamples

theorem parse_averageBesideSum :
    Expr.parse
        "Add(WindowAve(RollingWindow(a,3)),WindowSum(RollingWindow(RandomSample(b,1),3)))" =
      .ok averageBesideSum := by
  have hfirst : Renders ['a'] (.lookup (.literal (.str "a"))) := .path rfl nofun
  have hsecond : Renders ['b'] (.lookup (.literal (.str "b"))) := .path rfl nofun
  have hone : Renders ['1'] (.literal (.int 1)) := .literal rfl
  have hthree : Renders ['3'] (.literal (.int 3)) := .literal rfl
  have haverage := (hfirst.binary hthree (.rollingWindow _ _)).unary (.aggregate .average _ _ _)
  have hsamples := hsecond.binary hone (.sample _ _)
  have hsum := (hsamples.binary hthree (.rollingWindow _ _)).unary (.aggregate .sum _ _ _)
  exact read_of_renders (haverage.binary hsum (.arithmetic .add _ _))

/-- An event without an element for the average, and one with both elements. -/
def sumOccasions (draw : Float) : List Occasion :=
  [⟨.object [("b", .int 5)], fun _ => 0, fun _ => draw⟩,
    ⟨.object [("a", .int 1), ("b", .int 7)], fun _ => 1, fun _ => draw⟩]

theorem certain_averageBesideSum (o : Occasion) : averageBesideSum.Certain o :=
  ⟨⟨trivial, fun _ => trivial⟩, ⟨.sample_one trivial, fun _ => trivial⟩⟩

theorem certainDuring_averageBesideSum (draw : Float) :
    averageBesideSum.CertainDuring (sumOccasions draw) := by
  have hboth : ∀ o o', averageBesideSum.CertainDuring [o, o'] := by
    intro o o'
    have hnext := certain_averageBesideSum o'
    refine ⟨certain_averageBesideSum o, ?_⟩
    simp only [CertainDuring, averageBesideSum, averageOfThree, sumOfSamples, Certain, evalOn,
      inTurn_fst, inTurn_snd, ite_self, and_true] at hnext ⊢
    exact hnext
  exact hboth _ _

/-- The sum goes on although the expression fails on the first event, and it does not heed the
draws. -/
theorem part_in_step_of_sum :
    Expr.parse
        "Add(WindowAve(RollingWindow(a,3)),WindowSum(RollingWindow(RandomSample(b,1),3)))" =
      .ok averageBesideSum ∧
      (averageBesideSum.results (sumOccasions 0.0))[0]? = some (.error .emptyWindow) ∧
      averageBesideSum.resultsAt [1] (sumOccasions 0.0) =
        (sumOfSamples.results (sumOccasions 0.5)).map some := by
  have hserves : averageBesideSum.Serves [1] sumOfSamples := .part rfl rfl (.itself _)
  have hdraws : List.Forall₂ Occasion.Redrawn ((sumOccasions 0.0).map (·.metAt [1]))
      (sumOccasions 0.5) :=
    .cons ⟨rfl, rfl, fun _ => isDraw_zero, fun _ => isDraw_half⟩
      (.cons ⟨rfl, rfl, fun _ => isDraw_zero, fun _ => isDraw_half⟩ .nil)
  have hfails : (averageOfThree.evalOn ((sumOccasions 0.0)[0].within 0)).2 =
      .error .emptyWindow := rfl
  have hfirst : (averageBesideSum.evalOn (sumOccasions 0.0)[0]).2 = .error .emptyWindow := by
    rw [averageBesideSum, evalOn]
    simp only [hfails]
    rfl
  obtain ⟨-, hredrawn⟩ := part_in_step hserves (sumOccasions 0.0)
  exact ⟨parse_averageBesideSum, congrArg some hfirst,
    (hredrawn (certainDuring_averageBesideSum 0.0) _ hdraws).2⟩

end Expr

end LiveQuery
