import Mathlib
import LiveQuery.Proofs.Query.RollingAggregates

/-!
# Every so many values

With a constant stride `EveryNth` thins what its element gives: failures pass and are not counted,
and of every `n` values the first passes and the others become `null`. Whether a value passes
depends only on how many values came before it, so the results of a run are those that the element
gives on its own, `thinned`. A rolling window takes in what passes and is not `null`.
-/

namespace LiveQuery

open Window (Retained)

namespace Expr

/-- The values among some results. -/
def successes (results : List QueryResult) : List Value := results.filterMap Except.toOption

/-- Some results of which the first value of every `n` passes, with `seen` values before them. -/
def thinned (n : Nat) : Nat → List QueryResult → List QueryResult
  | _, [] => []
  | seen, .error e :: rest => .error e :: thinned n seen rest
  | seen, .ok v :: rest => .ok (if n ∣ seen then v else .null) :: thinned n (seen + 1) rest

/-- The values with the numbers `0`, `n`, `2 * n` and so on. -/
def multiples (n : Nat) (values : List Value) : List Value :=
  values.zipIdx.filterMap fun (v, m) => if n ∣ m then some v else none

/-- The values that a window takes in. -/
def offered (results : List QueryResult) : List Value :=
  (successes results).filter fun v => !v.isNull

@[simp] theorem successes_nil : successes [] = [] := rfl

@[simp] theorem successes_error_cons (e : QueryError) (rest : List QueryResult) :
    successes (.error e :: rest) = successes rest := rfl

@[simp] theorem successes_ok_cons (v : Value) (rest : List QueryResult) :
    successes (.ok v :: rest) = v :: successes rest := rfl

theorem offered_cons (result : QueryResult) (results : List QueryResult) :
    offered (result :: results) = offered [result] ++ offered results := by
  rw [← List.singleton_append, offered, successes, List.filterMap_append, List.filter_append]
  rfl

/-! ### Thinning -/

theorem getElem?_thinned (n seen : Nat) (results : List QueryResult) (i : Nat) :
    (thinned n seen results)[i]? =
      results[i]?.map (Except.map fun v =>
        if n ∣ seen + (successes (results.take i)).length then v else .null) := by
  induction results generalizing seen i with
  | nil => rfl
  | cons result rest ih =>
    cases i with
    | zero => cases result <;> rfl
    | succ i =>
      cases result with
      | error e => exact ih seen i
      | ok v =>
        have hrest := ih (seen + 1) i
        rw [Nat.add_right_comm] at hrest
        exact hrest

theorem successes_thinned (n seen : Nat) (results : List QueryResult) :
    successes (thinned n seen results) =
      ((successes results).zipIdx seen).map fun (v, m) => if n ∣ m then v else .null := by
  induction results generalizing seen with
  | nil => rfl
  | cons result rest ih =>
    cases result with
    | error e => exact ih seen
    | ok v => exact congrArg (_ :: ·) (ih (seen + 1))

/-- A `null` in the place of a value is not taken in, and neither is a value that is `null`. -/
theorem offered_thinned (n : Nat) (results : List QueryResult) :
    offered (thinned n 0 results) =
      (multiples n (successes results)).filter fun v => !v.isNull := by
  rw [offered, successes_thinned, multiples, ← List.filterMap_eq_filter, List.filterMap_map,
    List.filterMap_filterMap]
  refine congrArg (List.filterMap · _) (funext fun (v, m) => ?_)
  by_cases hpasses : n ∣ m
  · simp only [Function.comp_apply, hpasses, if_true, Option.bind_some]
  · simp only [Function.comp_apply, hpasses, if_false, Option.bind_none]
    rfl

/-! ### One event -/

variable {n : Nat} (element : Expr) (o : Occasion)

theorem evalOn_everyNth_of_error {e : QueryError} (h : (element.evalOn (o.within 0)).2 = .error e)
    (count : Expr) (seen : UInt64) :
    (everyNth element count seen).evalOn o =
      (.everyNth (element.evalOn (o.within 0)).1 count seen, .error e) := by
  have hpair : element.evalOn (o.within 0) = ((element.evalOn (o.within 0)).1, .error e) :=
    Prod.ext rfl h
  rw [evalOn, hpair]
  rfl

/-- Only a value moves the counter on. -/
theorem evalOn_everyNth_of_ok (hn : 1 ≤ n) {v : Value}
    (h : (element.evalOn (o.within 0)).2 = .ok v) (seen : UInt64) :
    (everyNth element (.literal (.int n)) seen).evalOn o =
      (.everyNth (element.evalOn (o.within 0)).1 (.literal (.int n)) (seen + 1),
        .ok (if n ∣ seen.toNat then v else .null)) := by
  have hpair : element.evalOn (o.within 0) = ((element.evalOn (o.within 0)).1, .ok v) :=
    Prod.ext rfl h
  obtain ⟨m, rfl⟩ := Nat.exists_eq_add_of_le' hn
  simp only [evalOn, Nat.dvd_iff_mod_eq_zero]
  rw [hpair]
  rfl

theorem evalOn_rollingWindow {held : List Value} {k : Nat} (h : held.length ≤ k) :
    ∃ held', ((window (.rolling held) element (.literal (.int k))).evalOn o).1 =
        .window (.rolling held') (element.evalOn (o.within 0)).1 (.literal (.int k)) ∧
      held'.reverse =
        ((offered [(element.evalOn (o.within 0)).2]).reverse ++ held.reverse).take k := by
  have hunchanged : held.reverse = held.reverse.take k :=
    (List.take_of_length_le (by simpa using h)).symm
  simp only [evalOn]
  cases element.evalOn (o.within 0) with
  | mk next result =>
    cases result with
    | error e => exact ⟨held, rfl, hunchanged⟩
    | ok v =>
      cases hnull : v.isNull with
      | true =>
        obtain rfl := Window.eq_null_of_isNull hnull
        exact ⟨held, rfl, hunchanged⟩
      | false =>
        have hoffered : offered [.ok v] = [v] := List.filter_cons_of_pos (by simp [hnull])
        refine ⟨(Window.Rolling.push .silent () held v k).held, ?_, ?_⟩
        · simp only [inTurn, advance, boundOf, Retained.advance_of_not_isNull _ _ _ hnull,
            Retained.push_rolling]
        · rw [hoffered, Window.Rolling.contents_push]
          rfl

/-! ### Runs -/

/-- The counter does not overflow during the run. -/
theorem results_everyNth (hn : 1 ≤ n) {seen : UInt64} {os : List Occasion}
    (hos : seen.toNat + os.length < 2 ^ 64) :
    (everyNth element (.literal (.int n)) seen).results os =
      thinned n seen.toNat (element.results (os.map (·.within 0))) := by
  induction os generalizing element seen with
  | nil => rfl
  | cons o os ih =>
    rw [List.length_cons] at hos
    rw [List.map_cons, results, results]
    cases hresult : (element.evalOn (o.within 0)).2 with
    | error e =>
      have hrest : seen.toNat + os.length < 2 ^ 64 := by omega
      rw [evalOn_everyNth_of_error element o hresult, thinned, ih _ hrest]
    | ok v =>
      have hnext : (seen + 1).toNat = seen.toNat + 1 := by
        rw [UInt64.toNat_add, UInt64.toNat_one]
        exact Nat.mod_eq_of_lt (by omega)
      have hrest : (seen + 1).toNat + os.length < 2 ^ 64 := by omega
      rw [evalOn_everyNth_of_ok element o hn hresult, thinned, ih _ hrest, hnext]

/-- A rolling window with a constant bound holds the newest values that it was offered. -/
theorem after_rollingWindow {held : List Value} {k : Nat} (h : held.length ≤ k)
    (os : List Occasion) :
    ∃ held' element', (window (.rolling held) element (.literal (.int k))).after os =
        .window (.rolling held') element' (.literal (.int k)) ∧
      held'.reverse =
        ((offered (element.results (os.map (·.within 0)))).reverse ++ held.reverse).take k := by
  induction os generalizing held element with
  | nil => exact ⟨held, element, rfl, (List.take_of_length_le (by simpa using h)).symm⟩
  | cons o os ih =>
    obtain ⟨next, hnext, hcontents⟩ := evalOn_rollingWindow element o h
    have hfits : next.length ≤ k := by
      rw [← List.length_reverse, hcontents]
      exact List.length_take_le _ _
    obtain ⟨held', element', hafter, hnewest⟩ := ih (element.evalOn (o.within 0)).1 hfits
    refine ⟨held', element', ?_, ?_⟩
    · rw [after_cons, hnext, hafter]
    · rw [List.map_cons, results, offered_cons, List.reverse_append, List.append_assoc, hnewest,
        hcontents, take_append_take]

/-- With a constant stride `n`, the results of a run are those of the element on its own, but of its
values only those pass before which a multiple of `n` values came; the others become `null`. A
rolling window over it holds the newest of the values number `0`, `n`, `2 * n` and so on that are
not `null`, as many as its bound allows. -/
theorem everyNth_passes_multiples (element : Expr) {n : Nat} (hn : 1 ≤ n) {os : List Occasion}
    (hos : os.length < 2 ^ 64) :
    let strided := everyNth element (.literal (.int n)) 0
    let alone := element.results (os.map (·.within 0))
    let below := element.results (os.map fun o => (o.within 0).within 0)
    (∀ i : Nat, (strided.results os)[i]? = alone[i]?.map (Except.map fun v =>
      if n ∣ (successes (alone.take i)).length then v else .null)) ∧
    ∀ k : Nat, ((window (.rolling []) strided (.literal (.int k))).after os).retained?.map
        Retained.contents =
      some (((multiples n (successes below)).filter fun v => !v.isNull).reverse.take k) := by
  intro strided alone below
  refine ⟨fun i => ?_, fun k => ?_⟩
  · have hresults : strided.results os = thinned n 0 alone :=
      results_everyNth element hn (by simpa using hos)
    rw [hresults, getElem?_thinned, Nat.zero_add]
  · have hempty : ([] : List Value).length ≤ k := Nat.zero_le k
    obtain ⟨held, next, hafter, hcontents⟩ := after_rollingWindow strided hempty os
    have hresults : strided.results (os.map (·.within 0)) = thinned n 0 below := by
      have hthinned : strided.results (os.map (·.within 0)) = thinned n 0 _ :=
        results_everyNth element hn (by simpa using hos)
      rwa [List.map_map] at hthinned
    rw [hresults, offered_thinned, List.reverse_nil, List.append_nil] at hcontents
    rw [hafter]
    exact congrArg some hcontents

/-- A sum that fails on the second of four events: it is not counted, so the third is left out. -/
theorem everyNth_passes_multiples_of_word :
    let plusOne : Expr := .arithmetic .add (.lookup (.literal (.str "v"))) (.literal (.int 1))
    let strided := everyNth plusOne (.literal (.int 2)) 0
    let os := [numberedOccasion, wordedOccasion, numberedOccasion, numberedOccasion]
    let two : Value := .float (Decimal.nearestInt 1 + Decimal.nearestInt 1)
    strided.results os =
        [.ok two, .error (.operandType "Add" 1 .string), .ok .null, .ok two] ∧
      ((window (.rolling []) strided (.literal (.int 3))).after os).retained?.map
        Retained.contents = some [two, two] := by
  intro plusOne strided os two
  obtain ⟨hresults, hcontents⟩ := @everyNth_passes_multiples plusOne 2 (by decide) os (by decide)
  have halone : plusOne.results (os.map (·.within 0)) =
      [.ok two, .error (.operandType "Add" 1 .string), .ok two, .ok two] := rfl
  refine ⟨List.ext_getElem? fun i => (hresults i).trans ?_, (hcontents 3).trans rfl⟩
  rw [halone]
  match i with
  | 0 | 1 | 2 | 3 => simp [Except.map]
  | _ + 4 => rfl

end Expr

end LiveQuery
