import LiveQuery.Proofs.Query.Chance

/-!
# Labels do not show in the results

A labelled expression gives what its value gives. Its name is evaluated as well, but whether that
fails, gives no string or counts events of its own, it decides only what the value is called. So an
expression without its labels (`unlabelled`) gives the same results on the same events, and taking
the labels off commutes with a run.

The parts of the expression without labels stand higher up than they did. `origin` says where each
of them stood, so that each is shown the same readings of the clock as before.
-/

namespace LiveQuery

namespace Expr

/-- The expression without its labels, at any depth. -/
def unlabelled : Expr → Expr
  | .literal value => .literal value
  | .lookup key => .lookup key.unlabelled
  | .labelled value _ _ => value.unlabelled
  | .arithmetic op left right => .arithmetic op left.unlabelled right.unlabelled
  | .window retained element bound => .window retained element.unlabelled bound.unlabelled
  | .aggregate kind retained element bound total =>
    .aggregate kind retained element.unlabelled bound.unlabelled total
  | .everyNth element count seen => .everyNth element.unlabelled count.unlabelled seen
  | .sample element probability => .sample element.unlabelled probability.unlabelled

/-- The place in an expression of the part that stands at a place of the expression without its
labels. -/
def origin : Expr → Place → Place
  | .labelled value _ _, place => 0 :: value.origin place
  | .lookup key, 0 :: place => 0 :: key.origin place
  | .arithmetic _ left _, 0 :: place => 0 :: left.origin place
  | .arithmetic _ _ right, 1 :: place => 1 :: right.origin place
  | .window _ element _, 0 :: place => 0 :: element.origin place
  | .window _ _ bound, 1 :: place => 1 :: bound.origin place
  | .aggregate _ _ element _ _, 0 :: place => 0 :: element.origin place
  | .aggregate _ _ _ bound _, 1 :: place => 1 :: bound.origin place
  | .everyNth element _ _, 0 :: place => 0 :: element.origin place
  | .everyNth _ count _, 1 :: place => 1 :: count.origin place
  | .sample element _, 0 :: place => 0 :: element.origin place
  | .sample _ probability, 1 :: place => 1 :: probability.origin place
  | _, place => place

end Expr

/-- The occasion as the expression without its labels meets it. -/
def Occasion.via (o : Occasion) (e : Expr) : Occasion :=
  ⟨o.event, fun place => o.now (e.origin place), fun place => o.draw (e.origin place)⟩

namespace Expr

/-- Every part of the expression without labels is what is left of the part where it stood. -/
theorem at?_unlabelled (e : Expr) (place : Place) :
    e.unlabelled.at? place = (e.at? (e.origin place)).map unlabelled := by
  induction e generalizing place with
  | labelled value name label hvalue =>
    simpa [unlabelled, origin, at?_cons, parts] using hvalue place
  | literal value => rcases place with _ | ⟨i, place⟩ <;> simp [unlabelled, origin, at?_cons, parts]
  | lookup key hkey =>
    rcases place with _ | ⟨_ | i, place⟩ <;> simp [unlabelled, origin, at?_cons, parts, hkey]
  | _ =>
    rename_i hfirst hsecond
    rcases place with _ | ⟨_ | _ | i, place⟩ <;>
      simp [unlabelled, origin, at?_cons, parts, hfirst, hsecond]

/-! ### One event -/

theorem inTurn_unlabelled (first : Expr × QueryResult) (second : Expr)
    (evalSecond : Unit → Expr × QueryResult) :
    inTurn (first.1.unlabelled, first.2) second.unlabelled
        (fun _ => ((evalSecond ()).1.unlabelled, (evalSecond ()).2)) =
      ((inTurn first second evalSecond).1.unlabelled,
        (inTurn first second evalSecond).2.1.unlabelled,
        (inTurn first second evalSecond).2.2) := by
  obtain ⟨a, x⟩ := first
  cases x with
  | error e => rfl
  | ok x =>
    rcases h : evalSecond () with ⟨b, y⟩
    cases y <;> simp only [inTurn, h]

/-- Taking the labels off an expression is the same before an event as after it, and the results
agree. -/
def SameOn (e : Expr) (o : Occasion) : Prop :=
  e.unlabelled.evalOn (o.via e) = ((e.evalOn o).1.unlabelled, (e.evalOn o).2)

theorem inTurn_via {first second : Expr} {o : Occasion} (hfirst : first.SameOn (o.within 0))
    (hsecond : second.SameOn (o.within 1)) :
    let inputs := inTurn (first.evalOn (o.within 0)) second fun _ => second.evalOn (o.within 1)
    inTurn (first.unlabelled.evalOn ((o.within 0).via first)) second.unlabelled
        (fun _ => second.unlabelled.evalOn ((o.within 1).via second)) =
      (inputs.1.unlabelled, inputs.2.1.unlabelled, inputs.2.2) := by
  intro inputs
  rw [hfirst, hsecond]
  exact inTurn_unlabelled (first.evalOn (o.within 0)) second fun _ => second.evalOn (o.within 1)

theorem sameOn (e : Expr) (o : Occasion) : e.SameOn o := by
  induction e generalizing o with
  | literal value => rfl
  | lookup key hkey =>
    have hkey := hkey (o.within 0)
    simp only [SameOn, Occasion.via, Occasion.within] at hkey
    simp only [SameOn, unlabelled, evalOn, Occasion.via, Occasion.within, origin, hkey]
  | labelled value name label hvalue => exact hvalue (o.within 0)
  | arithmetic op left right hleft hright =>
    have hleft := hleft (o.within 0)
    have hright := hright (o.within 1)
    simp only [SameOn, Occasion.via, Occasion.within] at hleft hright
    simp only [SameOn, unlabelled, evalOn, Occasion.via, Occasion.within, origin, hleft, hright]
  | _ =>
    -- the second part is asked in one expression exactly if it is asked in the other
    rename_i hfirst hsecond
    have hinputs := inTurn_via (hfirst (o.within 0)) (hsecond (o.within 1))
    simp only [Occasion.via, Occasion.within] at hinputs
    simp only [SameOn, unlabelled, evalOn, Occasion.via, Occasion.within, origin, hinputs]

theorem origin_evalOn (e : Expr) (o : Occasion) : (e.evalOn o).1.origin = e.origin := by
  induction e generalizing o with
  | literal value => rfl
  | lookup key hkey =>
    funext place
    rcases place with _ | ⟨_ | i, place⟩ <;> simp only [evalOn, origin, hkey]
  | labelled value name label hvalue =>
    funext place
    simp only [evalOn, origin, hvalue]
  | _ =>
    rename_i hfirst hsecond
    funext place
    rcases place with _ | ⟨_ | _ | i, place⟩ <;>
      simp only [evalOn, origin, inTurn_fst, inTurn_snd, Nat.zero_add, apply_ite origin, hfirst,
        hsecond, ite_self]

theorem result_unlabelled (e : Expr) (o : Occasion) :
    (e.unlabelled.evalOn (o.via e)).2 = (e.evalOn o).2 := by
  rw [e.sameOn o]

theorem Certain.unlabelled {e : Expr} {o : Occasion} (h : e.Certain o) :
    e.unlabelled.Certain (o.via e) := by
  induction e generalizing o with
  | literal value => trivial
  | lookup key hkey => exact hkey h
  | labelled value name label hvalue => exact hvalue h.1
  | arithmetic op left right hleft hright => exact ⟨hleft h.1, hright h.2⟩
  | sample element probability helement hprobability =>
    refine ⟨helement h.1, fun hok => ?_⟩
    obtain ⟨hasked, hcertain⟩ := h.2 (result_unlabelled element (o.within 0) ▸ hok)
    exact ⟨hprobability hasked, fun v p hv =>
      hcertain v p ((result_unlabelled probability (o.within 1)).symm.trans hv)⟩
  | _ =>
    rename_i first second hfirst hsecond
    refine ⟨hfirst h.1, fun hok => hsecond (h.2 ?_)⟩
    exact result_unlabelled _ (o.within 0) ▸ hok

/-! ### Runs -/

theorem unlabelled_run (e : Expr) (os : List Occasion) :
    e.unlabelled.after (os.map (·.via e)) = (e.after os).unlabelled ∧
      e.unlabelled.results (os.map (·.via e)) = e.results os := by
  induction os generalizing e with
  | nil => exact ⟨rfl, rfl⟩
  | cons o os ih =>
    obtain ⟨hafter, hresults⟩ := ih (e.evalOn o).1
    have hvia : ∀ o' : Occasion, o'.via (e.evalOn o).1 = o'.via e := fun o' => by
      simp only [Occasion.via, origin_evalOn]
    simp only [hvia] at hafter hresults
    rw [List.map_cons, after_cons, results, e.sameOn o, hafter, hresults]
    exact ⟨rfl, rfl⟩

theorem CertainDuring.unlabelled {e : Expr} {os : List Occasion} (h : e.CertainDuring os) :
    e.unlabelled.CertainDuring (os.map (·.via e)) := by
  induction os generalizing e with
  | nil => trivial
  | cons o os ih =>
    have hrest := ih h.2
    simp only [Occasion.via, origin_evalOn] at hrest
    refine ⟨h.1.unlabelled, ?_⟩
    rw [e.sameOn o]
    exact hrest

/-- A labelled expression gives on every event what it gives without its labels, as a value or as
an error, whatever its names do, and but for the labels it remembers the same. Both look at the
clock in the same places. The draws need not be the same as long as chance plays no part. -/
theorem labels_transparent (t : Expr) (os : List Occasion) :
    (∀ place, t.unlabelled.at? place = (t.at? (t.origin place)).map unlabelled) ∧
      t.unlabelled.after (os.map (·.via t)) = (t.after os).unlabelled ∧
      t.unlabelled.results (os.map (·.via t)) = t.results os ∧
      (t.CertainDuring os → ∀ os', List.Forall₂ Occasion.Redrawn (os.map (·.via t)) os' →
        t.unlabelled.results os' = t.results os) := by
  obtain ⟨hafter, hresults⟩ := t.unlabelled_run os
  refine ⟨t.at?_unlabelled, hafter, hresults, fun hcertain os' hdraws => ?_⟩
  rw [(hcertain.unlabelled.run_eq hdraws).2, hresults]

/-- A sample that always passes, under a name that always fails. -/
def misnamedSample : Expr :=
  .labelled (.sample (.lookup (.literal (.str "v"))) (.literal (.int 1)))
    (.everyNth (.lookup (.literal (.str "v"))) (.literal (.int 0)) 0) none

theorem parse_misnamedSample :
    Expr.parse "As(RandomSample(v,1),EveryNth(v,0))" = .ok misnamedSample := by
  have hpath : Renders ['v'] (.lookup (.literal (.str "v"))) := .path rfl nofun
  have hone : Renders ['1'] (.literal (.int 1)) := .literal rfl
  have hzero : Renders ['0'] (.literal (.int 0)) := .literal rfl
  have hvalue := hpath.binary hone (.sample _ _)
  have hname := hpath.binary hzero (.everyNth _ _)
  exact read_of_renders (hvalue.binary hname (.labelled _ _))

theorem labels_transparent_of_misnamed :
    Expr.parse "As(RandomSample(v,1),EveryNth(v,0))" = .ok misnamedSample ∧
      misnamedSample.unlabelled.results [{ numberedOccasion with draw := fun _ => 0.5 }] =
        misnamedSample.results [numberedOccasion] := by
  have hcertain : misnamedSample.CertainDuring [numberedOccasion] :=
    ⟨⟨.sample_one trivial, ⟨trivial, fun _ => trivial⟩⟩, trivial⟩
  obtain ⟨-, -, -, hredrawn⟩ := labels_transparent misnamedSample [numberedOccasion]
  refine ⟨parse_misnamedSample, hredrawn hcertain _ ?_⟩
  exact .cons ⟨rfl, rfl, fun _ => isDraw_zero, fun _ => isDraw_half⟩ .nil

end Expr

end LiveQuery
