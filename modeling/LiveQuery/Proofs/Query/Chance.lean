import LiveQuery.Proofs.Query.RollingAggregates

/-!
# Where chance plays no part

Chance draws a number for every sample. A sample whose probability is zero or one does not heed it,
because a draw is at least zero and less than one. So an expression that asks no other sample
evaluates in the same way whatever is drawn, and a whole run of it leads to the same state and the
same results.
-/

namespace LiveQuery

open Float.Model (UnpackedFloat)

/-! ### Draws -/

theorem unpack_zero : (0.0 : Float).toModel.unpack = .zero .positive := rfl

theorem unpack_one :
    (1.0 : Float).toModel.unpack = .finite .positive (Nat.pow 2 52) (-52) (by decide) := rfl

theorem lt_iff_compare {x y : Float} :
    x < y ↔ x.toModel.unpack.compare y.toModel.unpack = some .lt := by
  change Float.lt x y = true ↔ _
  simp only [Float.lt, decide_eq_true_eq]
  change (_ == _) = true ↔ _
  rw [beq_iff_eq]

theorem le_iff_compare {x y : Float} :
    x ≤ y ↔ (x.toModel.unpack.compare y.toModel.unpack).any (·.isLE) = true := by
  change Float.le x y = true ↔ _
  simp only [Float.le, decide_eq_true_eq]
  rfl

/-- A double from zero to one that is not strictly between them is one of them. -/
theorem unpack_of_not_between {p : Float} (hp : 0.0 ≤ p ∧ p ≤ 1.0) (h : ¬ (0.0 < p ∧ p < 1.0)) :
    (∃ sign, p.toModel.unpack = .zero sign) ∨
      p.toModel.unpack = (1.0 : Float).toModel.unpack := by
  obtain ⟨hpos, hle⟩ := hp
  simp only [le_iff_compare, lt_iff_compare, unpack_zero, unpack_one] at hpos hle h ⊢
  cases hunpack : p.toModel.unpack with
  | notANumber => simp [hunpack, UnpackedFloat.compare] at hpos
  | infinity sign => cases sign <;> simp [hunpack, UnpackedFloat.compare] at hpos hle
  | zero sign => exact .inl ⟨sign, rfl⟩
  | finite sign m e hm =>
    cases sign with
    | negative => simp [hunpack, UnpackedFloat.compare] at hpos
    | positive =>
      simp only [hunpack, UnpackedFloat.compare, true_and, Option.any_some, Option.some.injEq]
        at hle h
      rcases hcompare : (compare e (-52)).then (compare m (Nat.pow 2 52)) with _ | _ | _
      · exact absurd hcompare h
      · obtain ⟨he, hm'⟩ := Ordering.then_eq_eq.1 hcompare
        obtain rfl := Std.LawfulEqCmp.eq_of_compare he
        obtain rfl := Std.LawfulEqCmp.eq_of_compare hm'
        exact .inr rfl
      · rw [hcompare] at hle
        cases hle

/-- A draw is at least zero and less than one. -/
def IsDraw (d : Float) : Prop := 0.0 ≤ d ∧ d < 1.0

instance (d : Float) : Decidable (IsDraw d) := inferInstanceAs (Decidable (_ ∧ _))

theorem isDraw_zero : IsDraw 0.0 := by decide +kernel

theorem isDraw_half : IsDraw 0.5 := by decide +kernel

/-- The draw decides nothing if the probability is not strictly between zero and one. -/
theorem IsDraw.lt_iff {d p : Float} (hd : IsDraw d) (hp : 0.0 ≤ p ∧ p ≤ 1.0)
    (h : ¬ (0.0 < p ∧ p < 1.0)) : d < p ↔ 0.0 < p := by
  obtain ⟨hpos, hlt⟩ := hd
  rcases unpack_of_not_between hp h with ⟨sign, hzero⟩ | hone
  · have hdraw : ¬ d < p := by
      simp only [le_iff_compare, lt_iff_compare, unpack_zero, hzero] at hpos ⊢
      intro hless
      cases hunpack : d.toModel.unpack with
      | notANumber => simp [hunpack, UnpackedFloat.compare] at hpos
      | zero sign => simp [hunpack, UnpackedFloat.compare] at hless
      | infinity sign => cases sign <;> simp [hunpack, UnpackedFloat.compare] at hpos hless
      | finite sign m e hm => cases sign <;> simp [hunpack, UnpackedFloat.compare] at hpos hless
    have hprobability : ¬ 0.0 < p := by
      rw [lt_iff_compare, unpack_zero, hzero]
      exact nofun
    exact iff_of_false hdraw hprobability
  · refine iff_of_true ?_ ?_
    · rw [lt_iff_compare] at hlt ⊢
      rwa [hone]
    · rw [lt_iff_compare, hone]
      rfl

/-! ### One occasion -/

/-- Of two occasions with the same event and the same clock the second shows what chance might as
well have drawn. -/
structure Occasion.Redrawn (o o' : Occasion) : Prop where
  event : o'.event = o.event
  now : o'.now = o.now
  drawn : ∀ place, IsDraw (o.draw place)
  redrawn : ∀ place, IsDraw (o'.draw place)

theorem Occasion.Redrawn.within {o o' : Occasion} (h : o.Redrawn o') (part : Nat) :
    (o.within part).Redrawn (o'.within part) where
  event := h.event
  now := funext fun place => congrFun h.now (part :: place)
  drawn := fun place => h.drawn (part :: place)
  redrawn := fun place => h.redrawn (part :: place)

namespace Expr

/-- No sample that is asked on an occasion has a probability strictly between zero and one. -/
def Certain : Occasion → Expr → Prop
  | _, .literal _ => True
  | o, .lookup key => key.Certain (o.within 0)
  | o, .labelled value name _ => value.Certain (o.within 0) ∧ name.Certain (o.within 1)
  | o, .arithmetic _ left right => left.Certain (o.within 0) ∧ right.Certain (o.within 1)
  | o, .window _ element bound =>
    element.Certain (o.within 0) ∧
      ((element.evalOn (o.within 0)).2.isOk → bound.Certain (o.within 1))
  | o, .aggregate _ _ element bound _ =>
    element.Certain (o.within 0) ∧
      ((element.evalOn (o.within 0)).2.isOk → bound.Certain (o.within 1))
  | o, .everyNth element count _ =>
    element.Certain (o.within 0) ∧
      ((element.evalOn (o.within 0)).2.isOk → count.Certain (o.within 1))
  | o, .sample element probability =>
    element.Certain (o.within 0) ∧
      ((element.evalOn (o.within 0)).2.isOk → probability.Certain (o.within 1) ∧
        ∀ v p, (probability.evalOn (o.within 1)).2 = .ok v → v.number? = some p →
          ¬ (0.0 < p ∧ p < 1.0))

/-- A sample that always passes is certain. -/
theorem Certain.sample_one {element : Expr} {o : Occasion} (h : element.Certain (o.within 0)) :
    (sample element (.literal (.int 1))).Certain o := by
  refine ⟨h, fun _ => ⟨trivial, fun v p hv hp => ?_⟩⟩
  obtain rfl := Except.ok.inj hv
  obtain rfl := Option.some.inj hp
  decide +kernel

/-- Two parts taken in turn give the same if the first does and, where it is asked, the second. -/
theorem inTurn_congr {first second : Expr} {o o' : Occasion}
    (hfirst : first.evalOn (o'.within 0) = first.evalOn (o.within 0))
    (hsecond : (first.evalOn (o.within 0)).2.isOk = true →
      second.evalOn (o'.within 1) = second.evalOn (o.within 1)) :
    inTurn (first.evalOn (o'.within 0)) second (fun _ => second.evalOn (o'.within 1)) =
      inTurn (first.evalOn (o.within 0)) second fun _ => second.evalOn (o.within 1) := by
  rw [hfirst]
  rcases hgiven : first.evalOn (o.within 0) with ⟨a, x⟩
  cases x with
  | error e => rfl
  | ok x =>
    rw [hgiven] at hsecond
    simp only [inTurn, hsecond rfl]

theorem chance_congr {d d' : Float} (hd : IsDraw d) (hd' : IsDraw d')
    {inputs : Except QueryError (Value × Value)}
    (h : ∀ element v p, inputs = .ok (element, v) → v.number? = some p →
      ¬ (0.0 < p ∧ p < 1.0)) : chance d' inputs = chance d inputs := by
  rcases inputs with e | ⟨element, v⟩
  · rfl
  · simp only [chance, bind, Except.bind]
    cases hp : v.number? with
    | none => rfl
    | some p =>
      simp only
      split
      · rename_i hrange
        have hnot := h element v p rfl hp
        simp only [hd.lt_iff hrange hnot, hd'.lt_iff hrange hnot]
      · rfl

/-- What is drawn does not matter where every sample is certain. -/
theorem Certain.evalOn_eq {e : Expr} {o o' : Occasion} (h : e.Certain o) (hdraw : o.Redrawn o') :
    e.evalOn o' = e.evalOn o := by
  induction e generalizing o o' with
  | literal value => rfl
  | lookup key hkey => simp only [evalOn, hkey h (hdraw.within 0), hdraw.event]
  | labelled value name label hvalue hname =>
    simp only [evalOn, hvalue h.1 (hdraw.within 0), hname h.2 (hdraw.within 1)]
  | arithmetic op left right hleft hright =>
    simp only [evalOn, hleft h.1 (hdraw.within 0), hright h.2 (hdraw.within 1)]
  | window retained element bound helement hbound =>
    have hinputs := inTurn_congr (helement h.1 (hdraw.within 0))
      fun hok => hbound (h.2 hok) (hdraw.within 1)
    simp only [evalOn, hinputs, hdraw.now]
  | aggregate kind retained element bound total helement hbound =>
    have hinputs := inTurn_congr (helement h.1 (hdraw.within 0))
      fun hok => hbound (h.2 hok) (hdraw.within 1)
    simp only [evalOn, hinputs, hdraw.now]
  | everyNth element count seen helement hcount =>
    have hinputs := inTurn_congr (helement h.1 (hdraw.within 0))
      fun hok => hcount (h.2 hok) (hdraw.within 1)
    simp only [evalOn, hinputs]
  | sample element probability helement hprobability =>
    have hinputs := inTurn_congr (helement h.1 (hdraw.within 0))
      fun hok => hprobability (h.2 hok).1 (hdraw.within 1)
    simp only [evalOn, hinputs]
    refine congrArg _ (chance_congr (hdraw.drawn []) (hdraw.redrawn []) fun v w p hboth hp => ?_)
    obtain ⟨hgiven, hprobability'⟩ := inTurn_eq_ok hboth
    exact (h.2 (by rw [hgiven]; rfl)).2 w p hprobability' hp

/-! ### Runs -/

/-- Every sample that is asked during a run is certain. -/
def CertainDuring : List Occasion → Expr → Prop
  | [], _ => True
  | o :: os, e => e.Certain o ∧ (e.evalOn o).1.CertainDuring os

/-- A run in which every sample is certain goes the same way whatever is drawn. -/
theorem CertainDuring.run_eq {e : Expr} {os os' : List Occasion} (h : e.CertainDuring os)
    (hdraw : List.Forall₂ Occasion.Redrawn os os') :
    e.after os' = e.after os ∧ e.results os' = e.results os := by
  induction hdraw generalizing e with
  | nil => exact ⟨rfl, rfl⟩
  | cons hfirst _ ih =>
    obtain ⟨hafter, hresults⟩ := ih h.2
    rw [after_cons, after_cons, results, results, h.1.evalOn_eq hfirst, hafter, hresults]
    exact ⟨rfl, rfl⟩

end Expr

end LiveQuery
