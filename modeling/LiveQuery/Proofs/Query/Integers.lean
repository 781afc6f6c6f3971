import LiveQuery.Proofs.Query.Places
import LiveQuery.Proofs.Query.Trees
import LiveQuery.Proofs.Window.Retention

/-!
# The integers of an expression

The numbers of events are doubles, and so is whatever is computed from numbers. An integer can only
be a literal of the statement that is handed on, by a label, a window, a counter or a sample, so an
expression that gives integers always gives the same one. Windows may hand it on from an earlier
event; `Uniform` says that what they hold agrees.
-/

namespace LiveQuery.Expr

open Window (Retained)

/-- The integer that an expression gives whenever it gives one. -/
def integer? : Expr → Option Int
  | .literal (.int n) => some n
  | .literal _ => none
  | .lookup _ => none
  | .labelled value _ _ => value.integer?
  | .arithmetic _ _ _ => none
  | .window _ element _ => element.integer?
  | .aggregate _ _ _ _ _ => none
  | .everyNth element _ _ => element.integer?
  | .sample element _ => element.integer?

/-- The windows that hand on an element hold no integer but the one that the element gives. -/
def Uniform : Expr → Prop
  | .labelled value _ _ => value.Uniform
  | .window retained element _ =>
    element.Uniform ∧ ∀ n, .int n ∈ retained.arrivals → element.integer? = some n
  | .everyNth element _ _ => element.Uniform
  | .sample element _ => element.Uniform
  | _ => True

theorem Fresh.uniform {e : Expr} (h : e.Fresh) : e.Uniform := by
  induction e with
  | labelled value name label hvalue _ => exact hvalue h.1
  | window retained element bound helement _ =>
    refine ⟨helement h.2.1, fun n hmem => ?_⟩
    rw [h.1] at hmem
    cases hmem
  | everyNth element count seen helement _ => exact helement h.1
  | sample element probability helement _ => exact helement h.1
  | _ => trivial

theorem integer?_evalOn (o : Occasion) (e : Expr) : (e.evalOn o).1.integer? = e.integer? := by
  induction e generalizing o with
  | labelled value name label hvalue _ => exact hvalue _
  | window retained element bound helement _ =>
    simp only [evalOn, integer?, inTurn_fst, helement]
  | everyNth element count seen helement _ => simp only [evalOn, integer?, inTurn_fst, helement]
  | sample element probability helement _ => simp only [evalOn, integer?, inTurn_fst, helement]
  | _ => simp only [evalOn, integer?]

/-! ### Where a value comes from -/

theorem exists_of_bind_eq_ok {ε α β : Type} {x : Except ε α} {f : α → Except ε β} {y : β}
    (h : x >>= f = .ok y) : ∃ a, x = .ok a ∧ f a = .ok y := by
  cases x with
  | error e => cases h
  | ok a => exact ⟨a, rfl, h⟩

theorem inTurn_eq_ok {first : Expr × QueryResult} {second : Expr}
    {evalSecond : Unit → Expr × QueryResult} {x y : Value}
    (h : (inTurn first second evalSecond).2.2 = .ok (x, y)) :
    first.2 = .ok x ∧ (evalSecond ()).2 = .ok y := by
  obtain ⟨a, answer⟩ := first
  cases answer with
  | error e => cases h
  | ok v =>
    rcases hsecond : evalSecond () with ⟨b, answer⟩
    cases answer with
    | error e => simp only [inTurn, hsecond] at h; cases h
    | ok w =>
      simp only [inTurn, hsecond] at h
      obtain ⟨rfl, rfl⟩ := Prod.mk.inj (Except.ok.inj h)
      exact ⟨rfl, rfl⟩

/-- What a window holds after an event was held before or is the element of the event. -/
theorem mem_of_mem_advance {σ : Type} {l : Window.Listener σ} {s : σ} {r : Retained} {now : Nat}
    {inputs : Except QueryError (Value × Value)} {v : Value}
    (h : v ∈ (advance l s r now inputs).held.arrivals) :
    v ∈ r.arrivals ∨ ∃ bound, inputs = .ok (v, bound) := by
  simp only [advance] at h
  split at h
  · exact .inl h
  · rename_i element bound
    split at h
    · exact .inl h
    · rcases Retained.mem_of_mem_advance l s h with hheld | rfl
      · exact .inl hheld
      · exact .inr ⟨bound, rfl⟩

theorem newest_mem {r : Retained} (h : r.newest ≠ .null) : r.newest ∈ r.arrivals := by
  rw [Retained.newest] at h ⊢
  cases hlast : r.arrivals.getLast? with
  | none =>
    rw [hlast] at h
    exact absurd rfl h
  | some v => exact List.mem_of_getLast? hlast

theorem ofJson_ne_int (document : Json) (n : Int) : Value.ofJson document ≠ .int n := by
  cases document <;> exact nofun

theorem resolve_eq_ok {event : Json} {key v : Value} (h : resolve event key = .ok v) :
    v = .null ∨ ∃ document, v = .ofJson document := by
  cases key with
  | str path =>
    simp only [resolve] at h
    split at h
    · cases h
    · obtain rfl := Except.ok.inj h
      cases event.at? path with
      | none => exact .inl rfl
      | some document => exact .inr ⟨document, rfl⟩
  | _ => cases h

theorem operate_eq_ok {op : Operator} {left right : QueryResult} {v : Value}
    (h : operate op left right = .ok v) : ∃ x, v = .float x := by
  obtain ⟨x, -, h⟩ := exists_of_bind_eq_ok h
  obtain ⟨y, -, h⟩ := exists_of_bind_eq_ok h
  obtain ⟨a, -, h⟩ := exists_of_bind_eq_ok h
  obtain ⟨b, -, h⟩ := exists_of_bind_eq_ok h
  exact ⟨_, (Except.ok.inj h).symm⟩

theorem aggregated_eq_ok {kind : Aggregate} {total : Float} {size : Nat} {v : Value}
    (h : aggregated kind total size = .ok v) : ∃ x, v = .float x := by
  cases kind with
  | sum => exact ⟨total, (Except.ok.inj h).symm⟩
  | average =>
    simp only [aggregated] at h
    split at h
    · cases h
    · exact ⟨_, (Except.ok.inj h).symm⟩

theorem stride_eq_ok {seen : UInt64} {inputs : Except QueryError (Value × Value)} {v : Value}
    (h : (stride seen inputs).2 = .ok v) : v = .null ∨ ∃ count, inputs = .ok (v, count) := by
  simp only [stride] at h
  split at h
  · cases h
  · rename_i element count
    split at h
    · cases h
    · cases h
    · have hvalue := Except.ok.inj h
      split at hvalue
      · exact .inr ⟨count, by rw [hvalue]⟩
      · exact .inl hvalue.symm

theorem chance_eq_ok {draw : Float} {inputs : Except QueryError (Value × Value)} {v : Value}
    (h : chance draw inputs = .ok v) :
    v = .null ∨ ∃ probability, inputs = .ok (v, probability) := by
  obtain ⟨⟨element, probability⟩, rfl, hpassed⟩ := exists_of_bind_eq_ok h
  simp only at hpassed
  split at hpassed
  · cases hpassed
  · split at hpassed
    · have hvalue := Except.ok.inj hpassed
      split at hvalue
      · exact .inr ⟨probability, by rw [hvalue]⟩
      · exact .inl hvalue.symm
    · cases hpassed

/-! ### Evaluation -/

/-- An expression gives no other integer, and its windows stay uniform. -/
theorem Uniform.evalOn {e : Expr} (h : e.Uniform) (o : Occasion) :
    (e.evalOn o).1.Uniform ∧ ∀ n, (e.evalOn o).2 = .ok (.int n) → e.integer? = some n := by
  induction e generalizing o with
  | literal value =>
    refine ⟨trivial, fun n hn => ?_⟩
    obtain rfl := Except.ok.inj hn
    rfl
  | lookup key _ =>
    refine ⟨trivial, fun n hn => ?_⟩
    obtain ⟨v, -, hn⟩ := exists_of_bind_eq_ok hn
    rcases resolve_eq_ok hn with hnull | ⟨document, hdocument⟩
    · cases hnull
    · exact absurd hdocument.symm (ofJson_ne_int document n)
  | labelled value name label hvalue _ => exact hvalue h (o.within 0)
  | arithmetic op left right _ _ =>
    refine ⟨trivial, fun n hn => ?_⟩
    obtain ⟨x, hx⟩ := operate_eq_ok hn
    cases hx
  | window retained element bound helement _ =>
    obtain ⟨huniform, hint⟩ := helement h.1 (o.within 0)
    simp only [Expr.evalOn, Uniform, integer?, inTurn_fst, integer?_evalOn]
    generalize hinputs : (inTurn (element.evalOn (o.within 0)) bound _).2.2 = inputs
    -- What the window hands on is what it held before or what the element gives now.
    have hheld : ∀ n, .int n ∈ (advance .silent () retained (o.now []) inputs).held.arrivals →
        element.integer? = some n := by
      intro n hmem
      rcases mem_of_mem_advance hmem with hmem | ⟨b, rfl⟩
      · exact h.2 n hmem
      · exact hint n (inTurn_eq_ok hinputs).1
    refine ⟨⟨huniform, hheld⟩, fun n hn => hheld n ?_⟩
    cases hresult : (advance Window.Listener.silent () retained (o.now []) inputs).result with
    | error e => rw [hresult] at hn; cases hn
    | ok _ =>
      rw [hresult] at hn
      have hnewest := Except.ok.inj hn
      rw [← hnewest]
      refine newest_mem fun hnull => ?_
      cases hnewest.symm.trans hnull
  | aggregate kind retained element bound total _ _ =>
    refine ⟨trivial, fun n hn => ?_⟩
    obtain ⟨_, -, hn⟩ := exists_of_bind_eq_ok hn
    obtain ⟨x, hx⟩ := aggregated_eq_ok hn
    cases hx
  | everyNth element count seen helement _ =>
    obtain ⟨huniform, hint⟩ := helement h (o.within 0)
    simp only [Expr.evalOn, Uniform, integer?, inTurn_fst]
    refine ⟨huniform, fun n hn => ?_⟩
    rcases stride_eq_ok hn with hnull | ⟨_, hinputs⟩
    · cases hnull
    · exact hint n (inTurn_eq_ok hinputs).1
  | sample element probability helement _ =>
    obtain ⟨huniform, hint⟩ := helement h (o.within 0)
    simp only [Expr.evalOn, Uniform, integer?, inTurn_fst]
    refine ⟨huniform, fun n hn => ?_⟩
    rcases chance_eq_ok hn with hnull | ⟨_, hinputs⟩
    · cases hnull
    · exact hint n (inTurn_eq_ok hinputs).1

end LiveQuery.Expr
