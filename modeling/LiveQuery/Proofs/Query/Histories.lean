import Mathlib.Data.List.DropRight
import LiveQuery.Proofs.Decimal.Units
import LiveQuery.Proofs.Query.RollingAggregates

/-!
# What the total of an aggregate remembers

A total in doubles is updated and never computed anew, so it may remember more than its window
holds: what was rounded off while a large element was there does not come back when that element
goes. Along a history without rounding it remembers nothing else, because the exact total is the sum
of the elements held and determines the double. Over look-ups and arithmetic on them, two such
histories with the same elements lead to the same aggregate.
-/

namespace LiveQuery

open Window (Exchange Notice Retained accepted)
open Window.Total (booked numberOf ofDoubles)

namespace Window.Total

open Decimal (units? Counts)

/-- The units of a double that is finite. -/
def unitsIn (x : Float) : Int := (units? x).getD 0

/-- The units of a countable element that is finite. -/
def unitsOf (element : Value) : Int := unitsIn (numberOf element)

/-- A total books a notice without rounding: everything is finite, and the units of the new total
are those of the old one with the element's units added or subtracted. -/
def Unrounded (total : Float) (notice : Notice) : Prop :=
  units? total = some (unitsIn total) ∧
    units? (numberOf notice.element) = some (unitsOf notice.element) ∧
    units? (booked numberOf total notice) = some (booked unitsOf (unitsIn total) notice)

instance (total : Float) (notice : Notice) : Decidable (Unrounded total notice) :=
  inferInstanceAs (Decidable (_ ∧ _ ∧ _))

/-- A total books all these notices, one after the other, without rounding. -/
def UnroundedRun : Float → List Notice → Prop
  | _, [] => True
  | total, notice :: rest =>
    Unrounded total notice ∧ UnroundedRun (booked numberOf total notice) rest

instance decidableUnroundedRun : (total : Float) → (notices : List Notice) →
    Decidable (UnroundedRun total notices)
  | _, [] => isTrue trivial
  | total, notice :: rest =>
    have := decidableUnroundedRun (booked numberOf total notice) rest
    inferInstanceAs (Decidable (Unrounded total notice ∧ UnroundedRun _ rest))

theorem Unrounded.counts {total : Float} {notice : Notice} (h : Unrounded total notice) {n : Int}
    (hcounts : Counts total n) :
    Counts (booked numberOf total notice) (booked unitsOf n notice) := by
  obtain ⟨htotal, helement, hbooked⟩ := h
  obtain rfl : n = unitsIn total := Option.some.inj (hcounts.units.symm.trans htotal)
  cases notice with
  | pushed element => exact hcounts.add helement hbooked
  | popped element => exact hcounts.sub helement hbooked

theorem UnroundedRun.counts {total : Float} {notices : List Notice}
    (h : UnroundedRun total notices) {n : Int} (hcounts : Counts total n) :
    Counts (notices.foldl (booked numberOf) total) (notices.foldl (booked unitsOf) n) := by
  induction notices generalizing total n with
  | nil => exact hcounts
  | cons notice rest ih => exact ih h.2 (h.1.counts hcounts)

theorem counts_zero : Counts 0.0 0 := ⟨by decide, by decide⟩

end Window.Total

open Window.Total (Unrounded UnroundedRun unitsOf)

namespace Expr

/-- The elements that an aggregate's window holds, from the newest to the oldest. -/
def heldBy : Expr → List Value
  | .aggregate _ retained _ _ _ => retained.contents
  | _ => []

/-- The aggregate at the root books everything during a run without rounding. -/
def UnroundedDuring (os : List Occasion) (t : Expr) : Prop :=
  UnroundedRun 0.0 (accepted (t.record [] os))

instance (os : List Occasion) (t : Expr) : Decidable (t.UnroundedDuring os) :=
  inferInstanceAs (Decidable (UnroundedRun 0.0 _))

/-- A look-up of a path, or arithmetic on such. -/
def OverPaths : Expr → Prop
  | .lookup (.literal (.str _)) => True
  | .arithmetic _ left right => left.OverPaths ∧ right.OverPaths
  | _ => False

theorem OverPaths.evalOn {e : Expr} (h : e.OverPaths) (o : Occasion) : (e.evalOn o).1 = e := by
  induction e generalizing o with
  | lookup key _ =>
    cases key with
    | literal value => rfl
    | _ => cases h
  | arithmetic op left right hleft hright =>
    simp only [Expr.evalOn, hleft h.1, hright h.2]
  | _ => cases h

/-- A total that never rounded counts the units of the elements held. -/
theorem counts_of_unroundedDuring {t : Expr} (h : t.Fresh) {os : List Occasion}
    (hrun : t.UnroundedDuring os) {kind : Aggregate} {retained : Retained} {element bound : Expr}
    {total : Float} (hafter : t.after os = .aggregate kind retained element bound total) :
    Decimal.Counts total (retained.arrivals.map unitsOf).sum := by
  have hat : (t.after os).at? [] = some (.aggregate kind retained element bound total) := by
    rw [at?_nil, hafter]
  obtain ⟨hanswers, hbalanced⟩ := answers_of_fresh h os [] hat
  have hstep := inStep_of_answers hanswers hbalanced
  rw [hstep.total, ← hstep.exactTotal Int unitsOf]
  exact hrun.counts Window.Total.counts_zero

/-! ### Aggregates over paths -/

section OverPaths

variable {e : Expr} {kind : Aggregate} {held : List Value} {k : Int} {total : Float}

/-- What the parts of a window over paths give on an occasion. -/
def inputsOf (e : Expr) (k : Int) (o : Occasion) : Inputs :=
  (inputsOn o e (.literal (.int k))).2.2

theorem OverPaths.inputsOn (h : e.OverPaths) (o : Occasion) :
    inputsOn o e (.literal (.int k)) = (e, .literal (.int k), inputsOf e k o) := by
  refine Prod.ext ?_ (Prod.ext ?_ rfl)
  · rw [Expr.inputsOn, inTurn_fst]
    exact h.evalOn _
  · rw [Expr.inputsOn, inTurn_snd]
    split <;> rfl

theorem OverPaths.inputsDuring (h : e.OverPaths) (os : List Occasion) :
    inputsDuring os e (.literal (.int k)) = os.map (inputsOf e k) := by
  induction os with
  | nil => rfl
  | cons o os ih =>
    rw [Expr.inputsDuring, h.inputsOn]
    exact congrArg (inputsOf e k o :: ·) ih

/-- The parts of the window stay as they are. -/
theorem OverPaths.parts_after (h : e.OverPaths) (kind : Aggregate) (k : Int) (retained : Retained)
    (total : Float) (os : List Occasion) :
    ∃ retained' total', (aggregate kind retained e (.literal (.int k)) total).after os =
      .aggregate kind retained' e (.literal (.int k)) total' := by
  induction os generalizing retained total with
  | nil => exact ⟨retained, total, rfl⟩
  | cons o os ih =>
    rw [after_cons, evalOn_rolling, h.inputsOn]
    exact ih _ _

/-- The elements of the accepted events, with the bound of each. -/
def acceptances (e : Expr) (k : Int) (os : List Occasion) : List (Value × Nat) :=
  os.filterMap fun o => (inputsOf e k o).accepted?

theorem bound_of_mem_acceptances {os : List Occasion} {v : Value} {n : Nat}
    (h : (v, n) ∈ acceptances e k os) : k = n := by
  obtain ⟨o, -, ho⟩ := List.mem_filterMap.1 h
  have hinputs := (Inputs.eq_of_accepted? ho).1
  have hk : (Expr.literal (.int k)).integer? = some (.ofNat n) :=
    integer?_of_inputsOn hinputs trivial
  exact Option.some.inj hk

theorem OverPaths.after (h : e.OverPaths) (kind : Aggregate) (k : Int) (total : Float)
    (os : List Occasion) :
    ∃ held total', (aggregate kind (.rolling []) e (.literal (.int k)) total).after os =
        .aggregate kind (.rolling held) e (.literal (.int k)) total' ∧
      held.reverse = ((acceptances e k os).map Prod.fst).reverse.take k.toNat := by
  have hfits : Fits (.literal (.int k)) [] := ⟨trivial, fun _ _ => Nat.zero_le _⟩
  obtain ⟨held, element', bound', total', hafter, -, hnewest⟩ := hfits.after kind e total os
  obtain ⟨retained, total'', hparts⟩ := h.parts_after kind k (.rolling []) total os
  obtain ⟨-, -, rfl, rfl, -⟩ := Expr.aggregate.inj (hparts.symm.trans hafter)
  refine ⟨held, total', hafter, ?_⟩
  rw [h.inputsDuring, List.filterMap_map] at hnewest
  cases k with
  | ofNat k =>
    have hcontents := hnewest.contents k rfl
    rwa [List.reverse_nil, List.append_nil] at hcontents
  | negSucc k =>
    -- A negative bound fails on every event, and nothing is held.
    have hnone : acceptances e (.negSucc k) os = [] := by
      refine List.eq_nil_iff_forall_not_mem.2 fun ⟨v, n⟩ hmem => ?_
      have hk := bound_of_mem_acceptances hmem
      cases hk
    rw [hnewest.unchanged hnone, hnone]
    rfl

theorem OverPaths.heldBy_after (h : e.OverPaths) (os : List Occasion) :
    ((aggregate kind (.rolling []) e (.literal (.int k)) total).after os).heldBy =
      ((acceptances e k os).map Prod.fst).reverse.take k.toNat := by
  obtain ⟨held, total', hafter, hheld⟩ := h.after kind k total os
  rw [hafter, ← hheld]
  rfl

/-- The events whose elements the window still holds. -/
def keptOf (e : Expr) (k : Int) (os : List Occasion) : List Occasion :=
  (os.filter fun o => (inputsOf e k o).accepted?.isSome).rtake k.toNat

theorem filterMap_rtake_filter {α β : Type} (f : α → Option β) (n : Nat) (l : List α) :
    ((l.filter fun a => (f a).isSome).rtake n).filterMap f = (l.filterMap f).rtake n := by
  induction l using List.reverseRecOn generalizing n with
  | nil => rw [List.filter_nil, List.rtake_nil, List.filterMap_nil, List.rtake_nil]
  | append_singleton l a ih =>
    rw [List.filter_append, List.filterMap_append]
    cases ha : f a with
    | none => simpa [ha] using ih n
    | some b =>
      rw [List.filter_cons_of_pos (by rw [ha]; rfl), List.filter_nil,
        List.filterMap_cons_some ha, List.filterMap_nil]
      cases n with
      | zero => rw [List.rtake_zero, List.rtake_zero, List.filterMap_nil]
      | succ n =>
        rw [List.rtake_concat_succ, List.rtake_concat_succ, List.filterMap_append, ih,
          List.filterMap_cons_some ha, List.filterMap_nil]

theorem acceptances_keptOf (os : List Occasion) :
    acceptances e k (keptOf e k os) = (acceptances e k os).rtake k.toNat :=
  filterMap_rtake_filter _ _ _

theorem keptOf_sublist (os : List Occasion) : (keptOf e k os).Sublist os :=
  (List.drop_sublist _ _).trans List.filter_sublist

theorem length_keptOf (os : List Occasion) :
    (keptOf e k os).length = min k.toNat (acceptances e k os).length := by
  rw [keptOf, List.rtake, List.length_drop, acceptances, List.length_filterMap_eq_countP,
    List.countP_eq_length_filter]
  omega

/-- A fresh aggregate that sees only the events whose elements are held ends up with the same
elements. -/
theorem OverPaths.heldBy_keptOf (h : e.OverPaths) (os : List Occasion) :
    ((aggregate kind (.rolling []) e (.literal (.int k)) total).after (keptOf e k os)).heldBy =
      ((aggregate kind (.rolling []) e (.literal (.int k)) total).after os).heldBy := by
  rw [h.heldBy_after, h.heldBy_after, acceptances_keptOf, List.rtake_eq_reverse_take_reverse,
    List.map_reverse, List.reverse_reverse, List.map_take, List.map_reverse, List.take_take,
    Nat.min_self]

/-- Histories without rounding that leave the same elements behind leave the same aggregate behind. -/
theorem OverPaths.after_eq_of_heldBy_eq (h : e.OverPaths)
    (hfresh : (aggregate kind (.rolling []) e (.literal (.int k)) total).Fresh)
    {os os' : List Occasion}
    (hheld : ((aggregate kind (.rolling []) e (.literal (.int k)) total).after os).heldBy =
      ((aggregate kind (.rolling []) e (.literal (.int k)) total).after os').heldBy)
    (hrun : (aggregate kind (.rolling []) e (.literal (.int k)) total).UnroundedDuring os)
    (hrun' : (aggregate kind (.rolling []) e (.literal (.int k)) total).UnroundedDuring os') :
    (aggregate kind (.rolling []) e (.literal (.int k)) total).after os =
      (aggregate kind (.rolling []) e (.literal (.int k)) total).after os' := by
  obtain ⟨held, total₁, hafter, -⟩ := h.after kind k total os
  obtain ⟨held', total₂, hafter', -⟩ := h.after kind k total os'
  have hcounts := counts_of_unroundedDuring hfresh hrun hafter
  have hcounts' := counts_of_unroundedDuring hfresh hrun' hafter'
  -- Both totals are exactly the sum of the same elements, and a double is known by its units.
  rw [hafter, hafter'] at hheld ⊢
  obtain rfl : held = held' := List.reverse_injective hheld
  obtain rfl : total₁ = total₂ := hcounts.unique hcounts'
  rfl

end OverPaths

/-- A sum of the last element at a path. -/
def lastValue : Expr :=
  .aggregate .sum (.rolling []) (.lookup (.literal (.str "v"))) (.literal (.int 1)) 0.0

theorem parse_lastValue : Expr.parse "WindowSum(RollingWindow(v,1))" = .ok lastValue := by
  have hpath : Renders ['v'] (.lookup (.literal (.str "v"))) := .path rfl nofun
  have hone : Renders ['1'] (.literal (.int 1)) := .literal rfl
  exact read_of_renders
    ((hpath.binary hone (.rollingWindow _ _)).unary (.aggregate .sum _ _ _))

/-- An event with a number at each of two paths. -/
def pairOccasion (v w : Float) : Occasion :=
  ⟨.object [("v", .float v), ("w", .float w)], fun _ => 0, fun _ => 0.0⟩

/-- Over look-ups and arithmetic on them, two histories without rounding that leave the same
elements behind are followed by the same results, so what is gone leaves no trace. The events whose
elements are held make up such a history on their own. -/
theorem aggregate_of_contents {statement : String} {kind : Aggregate} {start : List Value}
    {e : Expr} {k : Int} {total₀ : Float}
    (h : Expr.parse statement =
      .ok (.aggregate kind (.rolling start) e (.literal (.int k)) total₀)) (hpaths : e.OverPaths) :
    let t := Expr.aggregate kind (.rolling start) e (.literal (.int k)) total₀
    (∀ os os', (t.after os).heldBy = (t.after os').heldBy →
      t.UnroundedDuring os → t.UnroundedDuring os' →
      ∀ more, (t.after os).results more = (t.after os').results more) ∧
    ∀ os, (keptOf e k os).Sublist os ∧
      (keptOf e k os).length = (t.after os).heldBy.length ∧
      (t.after (keptOf e k os)).heldBy = (t.after os).heldBy ∧
      (t.UnroundedDuring os → t.UnroundedDuring (keptOf e k os) →
        ∀ more, (t.after os).results more = (t.after (keptOf e k os)).results more) := by
  intro t
  have hfresh : t.Fresh := (renders_of_read _ h).fresh
  obtain ⟨rfl, -⟩ := fits_of_fresh hfresh
  have hsame : ∀ os os', (t.after os).heldBy = (t.after os').heldBy → t.UnroundedDuring os →
      t.UnroundedDuring os' → ∀ more, (t.after os).results more = (t.after os').results more := by
    intro os os' hheld hrun hrun' more
    rw [hpaths.after_eq_of_heldBy_eq hfresh hheld hrun hrun']
  refine ⟨hsame, fun os => ⟨keptOf_sublist os, ?_, hpaths.heldBy_keptOf os, fun hrun hkept => ?_⟩⟩
  · rw [length_keptOf, hpaths.heldBy_after, List.length_take, List.length_reverse, List.length_map]
  · exact hsame os _ (hpaths.heldBy_keptOf os).symm hrun hkept

theorem heldBy_lastValue (v w : Float) :
    (lastValue.after [pairOccasion v w]).heldBy = [.float v] := rfl

theorem heldBy_lastValue_pair (v w v' w' : Float) :
    (lastValue.after [pairOccasion v w, pairOccasion v' w']).heldBy = [.float v'] := rfl

theorem aggregate_of_contents_of_last :
    lastValue.UnroundedDuring [pairOccasion 2.0 0.0, pairOccasion 1.0 0.0] ∧
      lastValue.UnroundedDuring [pairOccasion 1.0 0.0] ∧
      ∀ more, (lastValue.after [pairOccasion 2.0 0.0, pairOccasion 1.0 0.0]).results more =
        (lastValue.after [pairOccasion 1.0 0.0]).results more := by
  have hrun : lastValue.UnroundedDuring [pairOccasion 2.0 0.0, pairOccasion 1.0 0.0] := by
    decide +kernel
  have hrun' : lastValue.UnroundedDuring [pairOccasion 1.0 0.0] := by decide +kernel
  have hheld := (heldBy_lastValue_pair 2.0 0.0 1.0 0.0).trans (heldBy_lastValue 1.0 0.0).symm
  exact ⟨hrun, hrun', (aggregate_of_contents parse_lastValue trivial).1 _ _ hheld hrun hrun'⟩

/-- The last of the quotients at two paths. -/
def lastQuotient : Expr :=
  .aggregate .sum (.rolling [])
    (.arithmetic .divide (.lookup (.literal (.str "v"))) (.lookup (.literal (.str "w"))))
    (.literal (.int 1)) 0.0

theorem parse_lastQuotient :
    Expr.parse "WindowSum(RollingWindow(Divide(v,w),1))" = .ok lastQuotient := by
  have hv : Renders ['v'] (.lookup (.literal (.str "v"))) := .path rfl nofun
  have hw : Renders ['w'] (.lookup (.literal (.str "w"))) := .path rfl nofun
  have hone : Renders ['1'] (.literal (.int 1)) := .literal rfl
  have hquotient := hv.binary hw (.arithmetic .divide _ _)
  exact read_of_renders ((hquotient.binary hone (.rollingWindow _ _)).unary (.aggregate .sum _ _ _))

/-- Without the condition the elements held do not determine the next result: a large element makes
the total forget what is added to it, and an infinity that has gone leaves no number behind. -/
theorem gone_elements_leave_traces :
    (¬ ∀ (statement : String) (kind : Aggregate) (start : List Value) (e : Expr) (k : Int)
        (total₀ : Float),
        let t := Expr.aggregate kind (.rolling start) e (.literal (.int k)) total₀
        Expr.parse statement = .ok t → e.OverPaths →
        ∀ os os', (t.after os).heldBy = (t.after os').heldBy →
        ∀ o, ((t.after os).evalOn o).2 = ((t.after os').evalOn o).2) ∧
      ¬ ∀ (statement : String) (kind : Aggregate) (start : List Value) (e : Expr) (k : Int)
        (total₀ : Float),
        let t := Expr.aggregate kind (.rolling start) e (.literal (.int k)) total₀
        Expr.parse statement = .ok t → e.OverPaths →
        ∀ os, (∀ x, .float x ∈ (t.after os).heldBy → (Decimal.units? x).isSome) →
        ∀ o, ((t.after os).evalOn o).2 = ((t.after (keptOf e k os)).evalOn o).2 := by
  constructor
  · intro claim
    have hheld := (heldBy_lastValue_pair 1e16 0.0 1.0 0.0).trans (heldBy_lastValue 1.0 0.0).symm
    have hlarge : ((lastValue.after [pairOccasion 1e16 0.0, pairOccasion 1.0 0.0]).evalOn
      blankOccasion).2 = .ok (.float (0.0 + 1e16 + 1.0 - 1e16)) := rfl
    have hsmall : ((lastValue.after [pairOccasion 1.0 0.0]).evalOn blankOccasion).2 =
      .ok (.float (0.0 + 1.0)) := rfl
    have hdifferent : (0.0 + 1e16 + 1.0 - 1e16 : Float) ≠ 0.0 + 1.0 := by decide +kernel
    have hsame := claim _ _ _ _ _ _ parse_lastValue trivial _ _ hheld blankOccasion
    exact hdifferent (Value.float.inj (Except.ok.inj (hlarge.symm.trans (hsame.trans hsmall))))
  · intro claim
    have hheld : (lastQuotient.after [pairOccasion 1.0 0.0, pairOccasion 1.0 1.0]).heldBy =
      [.float (1.0 / 1.0)] := rfl
    have hinfinite : ((lastQuotient.after [pairOccasion 1.0 0.0, pairOccasion 1.0 1.0]).evalOn
      (pairOccasion 1.0 1.0)).2 =
        .ok (.float (0.0 + 1.0 / 0.0 + 1.0 / 1.0 - 1.0 / 0.0 + 1.0 / 1.0 - 1.0 / 1.0)) := rfl
    have hkept : ((lastQuotient.after [pairOccasion 1.0 1.0]).evalOn (pairOccasion 1.0 1.0)).2 =
      .ok (.float (0.0 + 1.0 / 1.0 + 1.0 / 1.0 - 1.0 / 1.0)) := rfl
    have hdifferent : (0.0 + 1.0 / 0.0 + 1.0 / 1.0 - 1.0 / 0.0 + 1.0 / 1.0 - 1.0 / 1.0 : Float) ≠
      0.0 + 1.0 / 1.0 + 1.0 / 1.0 - 1.0 / 1.0 := by decide +kernel
    have hsame := claim _ _ _ _ _ _ parse_lastQuotient ⟨trivial, trivial⟩
      [pairOccasion 1.0 0.0, pairOccasion 1.0 1.0] (fun x hx => ?_) (pairOccasion 1.0 1.0)
    · exact hdifferent
        (Value.float.inj (Except.ok.inj (hinfinite.symm.trans (hsame.trans hkept))))
    · have hx' : .float x ∈ (lastQuotient.after
        [pairOccasion 1.0 0.0, pairOccasion 1.0 1.0]).heldBy := hx
      rw [hheld, List.mem_singleton] at hx'
      rw [Value.float.inj hx']
      decide +kernel

end Expr

end LiveQuery
