import LiveQuery.Proofs.Query.Aggregates
import LiveQuery.Proofs.Query.Integers

/-!
# Aggregates of rolling windows

All that reaches an aggregate is what the element and the bound of its window give on each event
(`Inputs`). An event is accepted if they give a number and a bound, refused if one of them fails or
if it gives something else, and neither if the element is `null`. A bound gives the same integer
whenever it gives one, so the window always holds the newest accepted elements up to that number. A
refused event never finds the window longer than its bound, and nothing remembers it.
-/

namespace LiveQuery

open Window (Retained)
open Window.Total (ofDoubles refusal)

/-- What the element and the bound of a window give on one event. -/
abbrev Inputs := Except QueryError (Value × Value)

namespace Inputs

/-- The element and the bound of an accepted event. -/
def accepted? : Inputs → Option (Value × Nat)
  | .ok (element, .int (.ofNat k)) => if element.number?.isSome then some (element, k) else none
  | _ => none

/-- Why an event is refused, if it is. -/
def refusal? : Inputs → Option QueryError
  | .error e => some e
  | .ok (element, .int (.ofNat _)) =>
    if element.isNull || element.number?.isSome then none else some (refusal element)
  | .ok (_, bound) => some (.invalidBound "RollingWindow" bound.type)

/-- What another event may give in place of this one: the same, or a `null` for an event that is
refused. -/
inductive Muted : Inputs → Inputs → Prop
  | same (inputs : Inputs) : Muted inputs inputs
  | refused {inputs : Inputs} {e : QueryError} (h : inputs.refusal? = some e) (k : Nat) :
    Muted inputs (.ok (.null, .int k))

theorem eq_of_accepted? {inputs : Inputs} {element : Value} {k : Nat}
    (h : inputs.accepted? = some (element, k)) :
    inputs = .ok (element, .int (.ofNat k)) ∧ element.number?.isSome := by
  simp only [accepted?] at h
  split at h
  · split at h
    · obtain ⟨rfl, rfl⟩ := Prod.mk.inj (Option.some.inj h)
      exact ⟨rfl, ‹_›⟩
    · cases h
  · cases h

theorem refusal?_of_accepted? {inputs : Inputs} {element : Value} {k : Nat}
    (h : inputs.accepted? = some (element, k)) : inputs.refusal? = none := by
  obtain ⟨rfl, hnumber⟩ := eq_of_accepted? h
  simp only [refusal?, hnumber, Bool.or_true, if_true]

theorem accepted?_of_refusal? {inputs : Inputs} {e : QueryError}
    (h : inputs.refusal? = some e) : inputs.accepted? = none := by
  cases haccepted : inputs.accepted? with
  | none => rfl
  | some pair =>
    rw [refusal?_of_accepted? haccepted] at h
    cases h

end Inputs

namespace Expr

/-- What becomes of the element and the bound of a window on an occasion, and what they give. -/
def inputsOn (o : Occasion) (element bound : Expr) : Expr × Expr × Inputs :=
  inTurn (element.evalOn (o.within 0)) bound fun _ => bound.evalOn (o.within 1)

/-- What they give during a run. -/
def inputsDuring : List Occasion → Expr → Expr → List Inputs
  | [], _, _ => []
  | o :: os, element, bound =>
    let (element, bound, inputs) := inputsOn o element bound
    inputs :: inputsDuring os element bound

/-- What an aggregate tells of its rolling window when these inputs reach it. Such a window does not
look at the clock. -/
def responses (kind : Aggregate) : Retained → Float → List Inputs → List QueryResult
  | _, _, [] => []
  | retained, total, inputs :: rest =>
    let after := advance ofDoubles total retained 0 inputs
    (after.result >>= fun _ => aggregated kind after.state after.held.size) ::
      responses kind after.held after.state rest

/-- The results of an expression during a run. -/
def results : List Occasion → Expr → List QueryResult
  | [], _ => []
  | o :: os, e => (e.evalOn o).2 :: (e.evalOn o).1.results os

/-! ### One event -/

theorem advance_of_accepted? {inputs : Inputs} {element : Value} {k : Nat}
    (h : inputs.accepted? = some (element, k)) (held : List Value) (total : Float) (now : Nat) :
    advance ofDoubles total (.rolling held) now inputs =
      (Retained.rolling held).push ofDoubles total element k now := by
  obtain ⟨rfl, hnumber⟩ := Inputs.eq_of_accepted? h
  have hnull : element.isNull = false := by
    cases element <;> first | rfl | cases hnumber
  exact Retained.advance_of_not_isNull ofDoubles total (.rolling held) hnull k now

/-- An event that is not accepted leaves everything as it was, and fails exactly if it is refused. -/
theorem advance_of_not_accepted {inputs : Inputs} {held : List Value}
    (h : inputs.accepted? = none)
    (hbound : ∀ element k, inputs = .ok (element, .int (.ofNat k)) → held.length ≤ k)
    (total : Float) (now : Nat) :
    advance ofDoubles total (.rolling held) now inputs =
      ⟨total, .rolling held, inputs.refusal?.elim (.ok ()) .error⟩ := by
  rcases inputs with e | ⟨element, bound⟩
  · rfl
  cases bound with
  | int n =>
    cases n with
    | ofNat k =>
      have hnumber : element.number? = none := by
        cases hnumber : element.number? with
        | none => rfl
        | some x => simp [Inputs.accepted?, hnumber] at h
      cases hnull : element.isNull with
      | true =>
        obtain rfl := Window.eq_null_of_isNull hnull
        rfl
      | false =>
        have hpush := Window.Rolling.push_of_refused hnumber (hbound element k rfl) total
        simp only [advance, boundOf, Retained.advance_of_not_isNull _ _ _ hnull,
          Retained.push_rolling, hpush, Inputs.refusal?, hnull, hnumber, Option.isSome_none,
          Bool.or_self, Bool.false_eq_true, if_false, Option.elim_some]
    | negSucc k => rfl
  | _ => rfl

/-- The bound is uniform, and no more is held than the integer that it gives. -/
structure Fits (bound : Expr) (held : List Value) : Prop where
  uniform : bound.Uniform
  length_le (k : Nat) (h : bound.integer? = some (.ofNat k)) : held.length ≤ k

theorem integer?_of_inputsOn {o : Occasion} {element bound : Expr} {v : Value} {n : Int}
    (h : (inputsOn o element bound).2.2 = .ok (v, .int n)) (huniform : bound.Uniform) :
    bound.integer? = some n :=
  (huniform.evalOn _).2 n (inTurn_eq_ok h).2

theorem uniform_inputsOn {bound : Expr} (h : bound.Uniform) (o : Occasion) (element : Expr) :
    (inputsOn o element bound).2.1.Uniform ∧
      (inputsOn o element bound).2.1.integer? = bound.integer? := by
  rw [inputsOn, inTurn_snd]
  split
  · exact ⟨(h.evalOn _).1, integer?_evalOn _ _⟩
  · exact ⟨h, rfl⟩

theorem evalOn_rolling (kind : Aggregate) (retained : Retained) (element bound : Expr)
    (total : Float) (o : Occasion) :
    (aggregate kind retained element bound total).evalOn o =
      let inputs := inputsOn o element bound
      let after := advance ofDoubles total retained (o.now []) inputs.2.2
      (.aggregate kind after.held inputs.1 inputs.2.1 after.state,
        after.result >>= fun _ => aggregated kind after.state after.held.size) := rfl

/-- What the inputs of one event make of a rolling window and its total. -/
structure Step (inputs : Inputs) (held : List Value) (total : Float)
    (after : Window.Outcome Float (List Value)) : Prop where
  /-- The window does not look at the clock. -/
  advance_eq (now : Nat) : advance ofDoubles total (.rolling held) now inputs =
    ⟨after.state, .rolling after.held, after.result⟩
  idle (h : inputs.accepted? = none) : after = ⟨total, held, inputs.refusal?.elim (.ok ()) .error⟩
  taken (element : Value) (k : Nat) (h : inputs.accepted? = some (element, k)) :
    after.held.reverse = (element :: held.reverse).take k

theorem Fits.exists_step {bound : Expr} {held : List Value} (h : Fits bound held) (o : Occasion)
    (element : Expr) (total : Float) :
    ∃ after, Step (inputsOn o element bound).2.2 held total after ∧
      Fits (inputsOn o element bound).2.1 after.held := by
  obtain ⟨huniform, hinteger⟩ := uniform_inputsOn h.uniform o element
  cases haccepted : (inputsOn o element bound).2.2.accepted? with
  | none =>
    have hidle := advance_of_not_accepted haccepted
      (fun v k hinputs => h.length_le k (integer?_of_inputsOn hinputs h.uniform)) total
    exact ⟨_, ⟨hidle, fun _ => rfl, by simp [haccepted]⟩, huniform,
      fun k hk => h.length_le k (hinteger ▸ hk)⟩
  | some pair =>
    obtain ⟨v, k⟩ := pair
    obtain ⟨hinputs, hnumber⟩ := Inputs.eq_of_accepted? haccepted
    have hcontents := Window.Rolling.contents_push_of_number hnumber held total k
    refine ⟨Window.Rolling.push ofDoubles total held v k, ⟨fun _ => ?_, ?_, ?_⟩, huniform, ?_⟩
    · rw [advance_of_accepted? haccepted, Retained.push_rolling]
    · simp [haccepted]
    · intro v' k' hsame
      rw [haccepted] at hsame
      obtain ⟨rfl, rfl⟩ := Prod.mk.inj (Option.some.inj hsame)
      exact hcontents
    · intro k' hk'
      rw [hinteger, integer?_of_inputsOn hinputs h.uniform] at hk'
      obtain rfl : k = k' := by simpa using hk'
      rw [← List.length_reverse, hcontents]
      exact List.length_take_le _ _

/-! ### Runs -/

/-- What the accepted events of a run make of the elements of a window. -/
structure Newest (bound : Expr) (accepted : List (Value × Nat)) (before after : List Value) :
    Prop where
  unchanged (h : accepted = []) : after = before
  bounds (v : Value) (k : Nat) (h : (v, k) ∈ accepted) : bound.integer? = some (.ofNat k)
  contents (k : Nat) (h : bound.integer? = some (.ofNat k)) :
    after.reverse = ((accepted.map Prod.fst).reverse ++ before.reverse).take k

theorem take_append_take {α : Type} (k : Nat) (front back : List α) :
    (front ++ back.take k).take k = (front ++ back).take k := by
  rw [List.take_append, List.take_append, List.take_take, Nat.min_eq_left (Nat.sub_le _ _)]

theorem Fits.after {bound : Expr} {held : List Value} (h : Fits bound held) (kind : Aggregate)
    (element : Expr) (total : Float) (os : List Occasion) :
    ∃ held' element' bound' total',
      (aggregate kind (.rolling held) element bound total).after os =
          .aggregate kind (.rolling held') element' bound' total' ∧
        Fits bound' held' ∧
        Newest bound ((inputsDuring os element bound).filterMap Inputs.accepted?) held held' := by
  induction os generalizing held element bound total with
  | nil =>
    refine ⟨held, element, bound, total, rfl, h, fun _ => rfl, nofun, fun k hk => ?_⟩
    exact (List.take_of_length_le (by simpa using h.length_le k hk)).symm
  | cons o os ih =>
    obtain ⟨next, hstep, hfits⟩ := h.exists_step o element total
    obtain ⟨held', element', bound', total', hafter, hfits', hnewest⟩ :=
      ih hfits (inputsOn o element bound).1 next.state
    -- The bound still gives the same integer, so the rest of the run is cut at the same length.
    have hinteger := (uniform_inputsOn h.uniform o element).2
    refine ⟨held', element', bound', total', ?_, hfits', ?_⟩
    · rw [after_cons, evalOn_rolling, ← hafter]
      simp only [hstep.advance_eq]
    · simp only [inputsDuring]
      cases haccepted : (inputsOn o element bound).2.2.accepted? with
      | none =>
        rw [List.filterMap_cons_none haccepted]
        obtain rfl := hstep.idle haccepted
        exact ⟨hnewest.unchanged, fun v k h => hinteger ▸ hnewest.bounds v k h,
          fun k hk => hnewest.contents k (hinteger ▸ hk)⟩
      | some pair =>
        obtain ⟨v, k⟩ := pair
        have hk := integer?_of_inputsOn (Inputs.eq_of_accepted? haccepted).1 h.uniform
        rw [List.filterMap_cons_some haccepted]
        refine ⟨nofun, fun v' k' hmem => ?_, fun k' hk' => ?_⟩
        · rcases List.mem_cons.1 hmem with heq | hmem
          · obtain ⟨rfl, rfl⟩ := Prod.mk.inj heq
            exact hk
          · exact hinteger ▸ hnewest.bounds v' k' hmem
        · obtain rfl : k = k' := by simpa [hk] using hk'
          rw [hnewest.contents k (hinteger ▸ hk), hstep.taken v k haccepted, take_append_take,
            List.map_cons, List.reverse_cons, List.append_assoc, List.singleton_append]

theorem Fits.results {bound : Expr} {held : List Value} (h : Fits bound held) (kind : Aggregate)
    (element : Expr) (total : Float) (os : List Occasion) :
    (aggregate kind (.rolling held) element bound total).results os =
      responses kind (.rolling held) total (inputsDuring os element bound) := by
  induction os generalizing held element bound total with
  | nil => rfl
  | cons o os ih =>
    obtain ⟨next, hstep, hfits⟩ := h.exists_step o element total
    simp only [Expr.results, evalOn_rolling, inputsDuring, responses, hstep.advance_eq]
    rw [ih hfits]

/-- Muting the refused events of a run changes no result but theirs. -/
theorem Fits.responses_muted {bound : Expr} {held : List Value} (h : Fits bound held)
    (kind : Aggregate) (element : Expr) (total : Float) (os : List Occasion) {others : List Inputs}
    (hmuted : List.Forall₂ Inputs.Muted (inputsDuring os element bound) others) {i : Nat}
    {inputs : Inputs} (hi : (inputsDuring os element bound)[i]? = some inputs)
    (haccepted : inputs.refusal? = none) :
    (responses kind (.rolling held) total (inputsDuring os element bound))[i]? =
      (responses kind (.rolling held) total others)[i]? := by
  induction os generalizing held element bound total others i with
  | nil => cases hi
  | cons o os ih =>
    obtain ⟨next, hstep, hfits⟩ := h.exists_step o element total
    simp only [inputsDuring] at hmuted hi ⊢
    cases hmuted with
    | cons hhead htail =>
      cases hhead with
      | same =>
        cases i with
        | zero => rfl
        | succ i =>
          simp only [responses, hstep.advance_eq, List.getElem?_cons_succ] at hi ⊢
          exact ih hfits _ _ htail hi
      | refused hrefused k =>
        cases i with
        | zero =>
          obtain rfl := Option.some.inj hi
          rw [hrefused] at haccepted
          cases haccepted
        | succ i =>
          -- Neither the refused event nor the `null` in its place changes what the aggregate holds.
          have hidle := hstep.idle (Inputs.accepted?_of_refusal? hrefused)
          subst hidle
          simp only [responses, hstep.advance_eq, List.getElem?_cons_succ] at hi ⊢
          exact ih hfits _ _ htail hi

theorem inputsDuring_append {kind kind' : Aggregate} {retained retained' : Retained}
    {element bound element' bound' : Expr} {total total' : Float} {os : List Occasion}
    (h : (aggregate kind retained element bound total).after os =
      .aggregate kind' retained' element' bound' total') (more : List Occasion) :
    inputsDuring (os ++ more) element bound =
      inputsDuring os element bound ++ inputsDuring more element' bound' := by
  induction os generalizing retained element bound total with
  | nil =>
    obtain ⟨-, -, rfl, rfl, -⟩ := Expr.aggregate.inj h
    rfl
  | cons o os ih =>
    rw [after_cons, evalOn_rolling] at h
    exact congrArg (_ :: ·) (ih h)

theorem after_concat (e : Expr) (os : List Occasion) (o : Occasion) :
    e.after (os ++ [o]) = ((e.after os).evalOn o).1 := by
  rw [after, List.foldl_append]
  rfl

theorem fits_of_fresh {kind : Aggregate} {held : List Value} {element bound : Expr} {total : Float}
    (h : (aggregate kind (.rolling held) element bound total).Fresh) :
    held = [] ∧ Fits bound held := by
  obtain ⟨rfl, -, hbound, -⟩ := h
  exact ⟨rfl, hbound.uniform, fun k _ => Nat.zero_le k⟩

/-- A sum of the last two elements. -/
def sumOfTwo : Expr :=
  .aggregate .sum (.rolling []) (.lookup (.literal (.str "v"))) (.literal (.int 2)) 0.0

theorem parse_sumOfTwo : Expr.parse "WindowSum(RollingWindow(v,2))" = .ok sumOfTwo := by
  have hpath : Renders ['v'] (.lookup (.literal (.str "v"))) := .path rfl nofun
  have htwo : Renders ['2'] (.literal (.int 2)) := .literal rfl
  exact read_of_renders
    ((hpath.binary htwo (.rollingWindow _ _)).unary (.aggregate .sum _ _ _))

/-- An event with a text where a number is asked for. -/
def wordedOccasion : Occasion := ⟨.object [("v", .str "x")], fun _ => 0, fun _ => 0.0⟩

/-- After any run of events the window of an aggregate holds the elements of the last accepted ones,
as many as the bound allows. An event that is not accepted changes neither the window nor the total,
and it fails if it is refused. So muting refused events changes no other result. -/
theorem rolling_aggregate_holds_newest {statement : String} {kind : Aggregate} {start : List Value}
    {element bound : Expr} {total₀ : Float}
    (h : Expr.parse statement = .ok (.aggregate kind (.rolling start) element bound total₀))
    (os : List Occasion) :
    let t := Expr.aggregate kind (.rolling start) element bound total₀
    let inputs := inputsDuring os element bound
    let accepted := inputs.filterMap Inputs.accepted?
    (∃ held element' bound' total,
      t.after os = .aggregate kind (.rolling held) element' bound' total ∧
      (accepted = [] → (Retained.rolling held).contents = []) ∧
      (∀ v k, (v, k) ∈ accepted →
        (Retained.rolling held).contents = (accepted.map Prod.fst).reverse.take k) ∧
      ∀ o : Occasion,
        let next := inputsOn o element' bound'
        inputsDuring (os ++ [o]) element bound = inputs ++ [next.2.2] ∧
          (next.2.2.accepted? = none →
            t.after (os ++ [o]) = .aggregate kind (.rolling held) next.1 next.2.1 total) ∧
          ∀ e, next.2.2.refusal? = some e → ((t.after os).evalOn o).2 = .error e) ∧
    t.results os = responses kind (.rolling start) total₀ inputs ∧
    ∀ others, List.Forall₂ Inputs.Muted inputs others →
      ∀ (i : Nat) (given : Inputs), inputs[i]? = some given → given.refusal? = none →
        (t.results os)[i]? = (responses kind (.rolling start) total₀ others)[i]? := by
  intro t inputs accepted
  obtain ⟨rfl, hfits⟩ := fits_of_fresh (renders_of_read _ h).fresh
  have hresults := hfits.results kind element total₀ os
  refine ⟨?_, hresults, fun others hmuted i given hi hgiven => ?_⟩
  · obtain ⟨held, element', bound', total, hafter, hfits', hnewest⟩ :=
      hfits.after kind element total₀ os
    refine ⟨held, element', bound', total, hafter, ?_, ?_, fun o => ⟨?_, ?_, ?_⟩⟩
    · intro hnone
      rw [hnewest.unchanged hnone]
      rfl
    · intro v k hmem
      have hcontents := hnewest.contents k (hnewest.bounds v k hmem)
      rwa [List.reverse_nil, List.append_nil] at hcontents
    · exact inputsDuring_append hafter [o]
    · intro hnone
      obtain ⟨next, hstep, -⟩ := hfits'.exists_step o element' total
      rw [after_concat, hafter, evalOn_rolling]
      simp only [hstep.advance_eq, hstep.idle hnone]
    · intro e he
      obtain ⟨next, hstep, -⟩ := hfits'.exists_step o element' total
      rw [hafter, evalOn_rolling]
      simp only [hstep.advance_eq, hstep.idle (Inputs.accepted?_of_refusal? he), he]
      rfl
  · rw [hresults]
    exact hfits.responses_muted kind element total₀ os hmuted hi hgiven

theorem rolling_aggregate_holds_newest_of_word :
    let one : Value := .float (Decimal.nearestInt 1)
    let os := [numberedOccasion, wordedOccasion, numberedOccasion]
    (∃ held element bound total,
      sumOfTwo.after os = .aggregate .sum (.rolling held) element bound total ∧
        (Retained.rolling held).contents = [one, one]) ∧
      (sumOfTwo.results os)[2]? =
        (responses .sum (.rolling []) 0.0
          [.ok (one, .int 2), .ok (.null, .int 2), .ok (one, .int 2)])[2]? := by
  intro one os
  obtain ⟨⟨held, element, bound, total, hafter, -, hcontents, -⟩, -, hmuted⟩ :=
    rolling_aggregate_holds_newest parse_sumOfTwo os
  refine ⟨⟨held, element, bound, total, hafter, hcontents one 2 List.mem_cons_self⟩, ?_⟩
  exact hmuted _ (.cons (.same _) (.cons (.refused rfl 2) (.cons (.same _) .nil))) 2 _ rfl rfl

end Expr

end LiveQuery
