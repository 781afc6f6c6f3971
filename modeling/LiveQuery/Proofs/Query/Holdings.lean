import LiveQuery.Proofs.Query.Integers
import LiveQuery.Proofs.Query.Aggregates

/-!
# What the windows of a statement hold

Every integer that an expression gives is the literal at the end of its chain of first parts
(`chainEnd`). So the bound of a window is the same for all events, and a rolling window holds no
more elements than the statement says. `Orderly` is the invariant behind it, for every window of a
tree at any depth: what it holds is not `null`, is no composite value but an array or an object, and
is no integer but the one of its element.
-/

namespace LiveQuery

open Window (Retained)

/-- A composite value is an array or an object. -/
def Value.Proper : Value → Prop
  | .composite (.array _) | .composite (.object _) => True
  | .composite _ => False
  | _ => True

/-- A value where no integer is expected but `only`. -/
def Value.Admissible (only : Option Int) (v : Value) : Prop :=
  v.Proper ∧ ∀ n, v = .int n → only = some n

namespace Window.Retained

/-- What a window holds whose element gives no integer but `only`, and whose bound gives none but
`most`. -/
structure Orderly (only most : Option Int) (r : Retained) : Prop where
  elements : ∀ v ∈ r.arrivals, v ≠ .null ∧ v.Admissible only
  few : ∀ held, r = .rolling held → held.length ≤ (most.getD 0).toNat

end Window.Retained

namespace Expr

/-- The end of the chain of first parts that hand on what they are given. -/
def chainEnd : Expr → Expr
  | .labelled value _ _ => value.chainEnd
  | .window _ element _ => element.chainEnd
  | .everyNth element _ _ => element.chainEnd
  | .sample element _ => element.chainEnd
  | e => e

theorem integer?_eq_some_iff {e : Expr} {n : Int} :
    e.integer? = some n ↔ e.chainEnd = .literal (.int n) := by
  induction e with
  | literal value => cases value <;> simp [integer?, chainEnd]
  | labelled value name label hvalue _ => exact hvalue
  | window retained element bound helement _ => exact helement
  | everyNth element count seen helement _ => exact helement
  | sample element probability helement _ => exact helement
  | _ => simp [integer?, chainEnd]

/-- All literals are proper, and all windows are orderly, those of aggregates as well. -/
def Orderly : Expr → Prop
  | .literal value => value.Proper
  | .lookup key => key.Orderly
  | .labelled value name _ => value.Orderly ∧ name.Orderly
  | .arithmetic _ left right => left.Orderly ∧ right.Orderly
  | .window retained element bound | .aggregate _ retained element bound _ =>
    (element.Orderly ∧ bound.Orderly) ∧ retained.Orderly element.integer? bound.integer?
  | .everyNth element count _ => element.Orderly ∧ count.Orderly
  | .sample element probability => element.Orderly ∧ probability.Orderly

theorem Orderly.uniform {e : Expr} (h : e.Orderly) : e.Uniform := by
  induction e with
  | labelled value name label hvalue _ => exact hvalue h.1
  | window retained element bound helement _ =>
    exact ⟨helement h.1.1, fun n hn => (h.2.elements _ hn).2.2 n rfl⟩
  | everyNth element count seen helement _ => exact helement h.1
  | sample element probability helement _ => exact helement h.1
  | _ => trivial

theorem Orderly.at? {e part : Expr} (h : e.Orderly) {place : Place}
    (hpart : e.at? place = some part) : part.Orderly := by
  refine at?_induction (fun e h => ?_) h hpart
  cases e <;> simp only [Orderly] at h <;> simp [parts, h]

/-! ### One event -/

theorem boundOf_eq_ok {function : String} {v : Value} {n : Nat} (h : boundOf function v = .ok n) :
    v = .int n := by
  unfold boundOf at h
  split at h
  · rw [Except.ok.inj h]
    rfl
  · cases h

/-- A window takes in an admissible element unless it is `null`, and then keeps to its bound. -/
theorem advance_orderly {σ : Type} (l : Window.Listener σ) (s : σ) {only most : Option Int}
    {r : Retained} (h : r.Orderly only most) (now : Nat)
    {inputs : Except QueryError (Value × Value)}
    (hinputs : ∀ v b, inputs = .ok (v, b) →
      v.Admissible only ∧ ∀ n, b = .int n → most = some n) :
    (advance l s r now inputs).held.Orderly only most := by
  cases inputs with
  | error e => exact h
  | ok pair =>
    obtain ⟨v, b⟩ := pair
    obtain ⟨hv, hb⟩ := hinputs v b rfl
    simp only [advance]
    cases hbound : boundOf r.functionName b with
    | error e => exact h
    | ok n =>
      change (r.advance l s v n now).held.Orderly only most
      cases hnull : v.isNull with
      | true =>
        obtain rfl := Window.eq_null_of_isNull hnull
        refine ⟨fun x hx => h.elements x (Retained.mem_of_mem_advance_null l s hx), ?_⟩
        intro held hheld
        cases r with
        | rolling before => exact h.few held hheld
        | timed before => cases hheld
      | false =>
        refine ⟨fun x hx => ?_, fun held hheld => ?_⟩
        · rcases Retained.mem_of_mem_advance l s hx with hx | rfl
          · exact h.elements x hx
          · refine ⟨?_, hv⟩
            rintro rfl
            cases hnull
        · rw [Retained.advance_of_not_isNull l s r hnull] at hheld
          rw [hb n (boundOf_eq_ok hbound)]
          exact Retained.length_le_of_push l s hheld

theorem newest_admissible {only most : Option Int} {r : Retained} (h : r.Orderly only most) :
    r.newest.Admissible only := by
  by_cases hnull : r.newest = .null
  · rw [hnull]
    exact ⟨trivial, nofun⟩
  · exact (h.elements _ (newest_mem hnull)).2

theorem ofJson_proper (document : Json) : (Value.ofJson document).Proper := by
  cases document <;> trivial

theorem inTurn_orderly {first second : Expr} {o : Occasion}
    (hfirst : (first.evalOn (o.within 0)).1.Orderly) (hsecond : second.Orderly)
    (heval : (second.evalOn (o.within 1)).1.Orderly) :
    let after := inTurn (first.evalOn (o.within 0)) second fun _ => second.evalOn (o.within 1)
    after.1.Orderly ∧ after.2.1.Orderly := by
  intro after
  simp only [after, inTurn_fst, inTurn_snd]
  split
  · exact ⟨hfirst, heval⟩
  · exact ⟨hfirst, hsecond⟩

/-- A window that is orderly, with parts that stay so and give proper values, stays orderly whoever
listens. -/
theorem Orderly.observed {retained : Retained} {element bound : Expr}
    (h : (Expr.window retained element bound).Orderly) {o : Occasion}
    (helement : (element.evalOn (o.within 0)).1.Orderly ∧
      ∀ v, (element.evalOn (o.within 0)).2 = .ok v → v.Proper)
    (hbound : (bound.evalOn (o.within 1)).1.Orderly) {σ : Type} (l : Window.Listener σ) (s : σ) :
    let after := ObservedWindow.evalOn l o ⟨retained, element, bound, s⟩
    (Expr.window after.1.retained after.1.element after.1.bound).Orderly ∧
      ∀ v, after.2 = .ok v → v.Admissible element.integer? := by
  intro after
  obtain ⟨⟨helement₀, hbound₀⟩, hretained⟩ := h
  have hparts : after.1.element.Orderly ∧ after.1.bound.Orderly :=
    inTurn_orderly helement.1 hbound₀ hbound
  have hintegers : after.1.element.integer? = element.integer? ∧
      after.1.bound.integer? = bound.integer? := by
    simp only [after, ObservedWindow.evalOn, inTurn_fst, inTurn_snd, integer?_evalOn, true_and]
    split
    · exact integer?_evalOn _ _
    · rfl
  simp only [after, ObservedWindow.evalOn] at hparts hintegers ⊢
  generalize hinputs : (inTurn (element.evalOn (o.within 0)) bound _).2.2 = inputs
  -- a bound that is an integer at all is the one that the expression always gives
  have hheld : (advance l s retained (o.now []) inputs).held.Orderly element.integer?
      bound.integer? := by
    refine advance_orderly l s hretained (o.now []) fun v b hok => ?_
    obtain ⟨hv, hb⟩ := inTurn_eq_ok (hinputs.trans hok)
    refine ⟨⟨helement.2 v hv, ?_⟩, ?_⟩
    · rintro n rfl
      exact (helement₀.uniform.evalOn _).2 n hv
    · rintro n rfl
      exact (hbound₀.uniform.evalOn _).2 n hb
  refine ⟨⟨hparts, ?_⟩, fun v hv => ?_⟩
  · rw [hintegers.1, hintegers.2]
    exact hheld
  · cases hresult : (advance l s retained (o.now []) inputs).result with
    | error e =>
      rw [hresult] at hv
      cases hv
    | ok _ =>
      rw [hresult] at hv
      obtain rfl := Except.ok.inj hv
      exact newest_admissible hheld

theorem evalOn_window (o : Occasion) (retained : Retained) (element bound : Expr) :
    (window retained element bound).evalOn o =
      let after := ObservedWindow.evalOn .silent o ⟨retained, element, bound, ()⟩
      (.window after.1.retained after.1.element after.1.bound, after.2) :=
  rfl

/-- The windows of an expression stay orderly, and it gives proper values. -/
theorem Orderly.evalOn {e : Expr} (h : e.Orderly) (o : Occasion) :
    (e.evalOn o).1.Orderly ∧ ∀ v, (e.evalOn o).2 = .ok v → v.Proper := by
  induction e generalizing o with
  | literal value =>
    refine ⟨h, fun v hv => ?_⟩
    obtain rfl := Except.ok.inj hv
    exact h
  | lookup key hkey =>
    refine ⟨(hkey h (o.within 0)).1, fun v hv => ?_⟩
    obtain ⟨k, -, hv⟩ := exists_of_bind_eq_ok hv
    rcases resolve_eq_ok hv with rfl | ⟨document, rfl⟩
    · trivial
    · exact ofJson_proper document
  | labelled value name label hvalue hname =>
    obtain ⟨hvalue, hresult⟩ := hvalue h.1 (o.within 0)
    exact ⟨⟨hvalue, (hname h.2 (o.within 1)).1⟩, hresult⟩
  | arithmetic op left right hleft hright =>
    refine ⟨⟨(hleft h.1 (o.within 0)).1, (hright h.2 (o.within 1)).1⟩, fun v hv => ?_⟩
    obtain ⟨x, rfl⟩ := operate_eq_ok hv
    trivial
  | window retained element bound helement hbound =>
    obtain ⟨hafter, hresult⟩ := h.observed (helement h.1.1 (o.within 0))
      (hbound h.1.2 (o.within 1)).1 .silent ()
    rw [evalOn_window]
    exact ⟨hafter, fun v hv => (hresult v hv).1⟩
  | aggregate kind retained element bound total helement hbound =>
    have hwindow : (Expr.window retained element bound).Orderly := h
    obtain ⟨hafter, -⟩ := hwindow.observed (helement h.1.1 (o.within 0))
      (hbound h.1.2 (o.within 1)).1 Window.Total.ofDoubles total
    rw [evalOn_aggregate]
    refine ⟨hafter, fun v hv => ?_⟩
    obtain ⟨_, -, hv⟩ := exists_of_bind_eq_ok hv
    obtain ⟨x, rfl⟩ := aggregated_eq_ok hv
    trivial
  | everyNth element count seen helement hcount =>
    obtain ⟨helement, hresult⟩ := helement h.1 (o.within 0)
    have hparts := inTurn_orderly helement h.2 (hcount h.2 (o.within 1)).1
    simp only [Expr.evalOn]
    refine ⟨hparts, fun v hv => ?_⟩
    rcases stride_eq_ok hv with rfl | ⟨_, hinputs⟩
    · trivial
    · exact hresult v (inTurn_eq_ok hinputs).1
  | sample element probability helement hprobability =>
    obtain ⟨helement, hresult⟩ := helement h.1 (o.within 0)
    have hparts := inTurn_orderly helement h.2 (hprobability h.2 (o.within 1)).1
    simp only [Expr.evalOn]
    refine ⟨hparts, fun v hv => ?_⟩
    rcases chance_eq_ok hv with rfl | ⟨_, hinputs⟩
    · trivial
    · exact hresult v (inTurn_eq_ok hinputs).1

/-! ### Statements -/

theorem proper_of_parse {token : List Char} {value : Value}
    (h : Literal.parse token = .ok value) : value.Proper := by
  unfold Literal.parse at h
  split at h
  · obtain rfl := Except.ok.inj h
    trivial
  · split at h
    · obtain rfl := Except.ok.inj h
      trivial
    · split at h
      · obtain rfl := Except.ok.inj h
        trivial
      · cases h

end Expr

theorem Node.orderly {name : String} {children : List Expr} {t : Expr} (h : Node name children t)
    (hchildren : ∀ child ∈ children, child.Orderly) : t.Orderly := by
  cases h with
  | lookup key => exact hchildren key (by simp)
  | labelled value name => exact ⟨hchildren value (by simp), hchildren name (by simp)⟩
  | arithmetic op left right => exact ⟨hchildren left (by simp), hchildren right (by simp)⟩
  | rollingWindow element bound =>
    refine ⟨⟨hchildren element (by simp), hchildren bound (by simp)⟩, nofun, ?_⟩
    rintro held ⟨⟩
    exact Nat.zero_le _
  | timedWindow element bound =>
    exact ⟨⟨hchildren element (by simp), hchildren bound (by simp)⟩, nofun, nofun⟩
  | aggregate kind retained element bound =>
    have hwindow : (Expr.window retained element bound).Orderly := hchildren _ List.mem_cons_self
    exact hwindow
  | everyNth element count => exact ⟨hchildren element (by simp), hchildren count (by simp)⟩
  | sample element probability =>
    exact ⟨hchildren element (by simp), hchildren probability (by simp)⟩

/-- A tree that has been read is orderly, whatever the functions are called. -/
theorem Registry.orderly_of_read (r : Registry) {statement : List Char} {t : Expr}
    (h : r.read statement = .ok t) : t.Orderly := by
  refine r.read_induction (fun token value hparse => ?_) (fun path => ?_) ?_ h
  · exact Expr.proper_of_parse hparse
  · exact trivial
  · intro name children t horderly hbuild
    obtain ⟨function, node⟩ := Registry.exists_node_of_build hbuild
    exact node.orderly horderly

namespace Expr

theorem Orderly.after {e : Expr} (h : e.Orderly) (os : List Occasion) : (e.after os).Orderly := by
  induction os generalizing e with
  | nil => exact h
  | cons o os ih => exact ih (h.evalOn o).1

/-! ### Parts of a run -/

/-- A part stands at its place before an event, and the integer that it gives is the same. -/
theorem exists_of_at?_evalOn {e part : Expr} {o : Occasion} {place : Place}
    (h : (e.evalOn o).1.at? place = some part) :
    ∃ first, e.at? place = some first ∧ first.integer? = part.integer? := by
  induction place generalizing e o with
  | nil =>
    rw [at?_nil] at h
    obtain rfl := Option.some.inj h
    exact ⟨e, at?_nil e, (integer?_evalOn o e).symm⟩
  | cons i place ih =>
    rw [at?_evalOn_cons] at h
    obtain ⟨child, hchild, h⟩ := Option.bind_eq_some_iff.1 h
    rw [at?_cons, hchild, Option.bind_some]
    split at h
    · exact ih h
    · exact ⟨part, h, rfl⟩

theorem exists_of_at?_after {e part : Expr} {os : List Occasion} {place : Place}
    (h : (e.after os).at? place = some part) :
    ∃ first, e.at? place = some first ∧ first.integer? = part.integer? := by
  induction os generalizing e with
  | nil => exact ⟨part, h, rfl⟩
  | cons o os ih =>
    obtain ⟨next, hnext, hpart⟩ := ih h
    obtain ⟨first, hfirst, hinteger⟩ := exists_of_at?_evalOn hnext
    exact ⟨first, hfirst, hinteger.trans hpart⟩

/-- What holds a window: the window's elements and its parts. -/
def window? : Expr → Option (Retained × Expr × Expr)
  | .window retained element bound => some (retained, element, bound)
  | .aggregate _ retained element bound _ => some (retained, element, bound)
  | _ => none

/-- The part that has to give a number that is not negative. -/
def bound? : Expr → Option Expr
  | .window _ _ bound => some bound
  | .aggregate _ _ _ bound _ => some bound
  | .everyNth _ count _ => some count
  | _ => none

theorem at?_of_bound? {e bound : Expr} (h : e.bound? = some bound) : e.at? [1] = some bound := by
  cases e with
  | window | aggregate | everyNth =>
    rw [at?_cons]
    cases h
    exact at?_nil bound
  | _ => cases h

/-- The expression gives no composite value but an array or an object, and no integer but the one
at the end of the chain of `first`. -/
def GivesOnly (first e : Expr) : Prop :=
  ∀ o v, (e.evalOn o).2 = .ok v → v.Proper ∧ ∀ n, v = .int n → first.chainEnd = .literal (.int n)

theorem Orderly.givesOnly {e first : Expr} (h : e.Orderly) (hfirst : first.integer? = e.integer?) :
    GivesOnly first e := by
  intro o v hv
  refine ⟨(h.evalOn o).2 v hv, ?_⟩
  rintro n rfl
  rw [← integer?_eq_some_iff, hfirst]
  exact (h.uniform.evalOn o).2 n hv

theorem Orderly.window? {e element bound : Expr} {retained : Retained} (h : e.Orderly)
    (hwindow : e.window? = some (retained, element, bound)) :
    (Expr.window retained element bound).Orderly ∧
      e.at? [0] = some element ∧ e.at? [1] = some bound := by
  cases e with
  | window | aggregate =>
    cases hwindow
    refine ⟨h, ?_, ?_⟩
    · rw [at?_cons]
      exact at?_nil element
    · rw [at?_cons]
      exact at?_nil bound
  | _ => cases hwindow

/-- In a tree that has been read, whatever events it has seen: the part at any place gives on any
event no integer but the literal at the end of its chain in the statement, and no composite value
but an array or an object. This holds for the bounds of windows and the counts of counters as well,
so they do not change. A window, be it that of an aggregate, holds only such values and no `null`,
and hands on only such values, whoever listens. A rolling window holds no more elements than the
literal of its bound says, and nothing if there is no such literal. -/
theorem holdings_of_parse {r : Registry} {statement : String} {t : Expr}
    (h : r.parse statement = .ok t) (os : List Occasion) {place : Place} {node : Expr}
    (hnode : (t.after os).at? place = some node) :
    (∃ first, t.at? place = some first ∧ GivesOnly first node) ∧
      (∀ bound, node.bound? = some bound →
        ∃ first, t.at? (place ++ [1]) = some first ∧ GivesOnly first bound) ∧
      ∀ retained element bound, node.window? = some (retained, element, bound) →
        (∀ v ∈ retained.arrivals, v ≠ .null ∧ v.Proper) ∧
        (∃ first, t.at? (place ++ [0]) = some first ∧
          ∀ (σ : Type) (l : Window.Listener σ) (s : σ) (o : Occasion) (v : Value),
            (ObservedWindow.evalOn l o ⟨retained, element, bound, s⟩).2 = .ok v →
            v.Proper ∧ ∀ n, v = .int n → first.chainEnd = .literal (.int n)) ∧
        ∃ first, t.at? (place ++ [1]) = some first ∧
          ∀ held, retained = .rolling held → held ≠ [] →
            ∃ n : Nat, first.chainEnd = .literal (.int n) ∧ held.length ≤ n := by
  have hafter : (t.after os).Orderly := (r.orderly_of_read h).after os
  have hpart : ∀ {i : Nat} {part : Expr}, node.at? [i] = some part →
      (t.after os).at? (place ++ [i]) = some part := by
    intro i part hi
    rw [at?_append, hnode]
    exact hi
  have horderly : node.Orderly := hafter.at? hnode
  refine ⟨?_, fun bound hbound => ?_, fun retained element bound hwindow => ?_⟩
  · obtain ⟨first, hfirst, hinteger⟩ := exists_of_at?_after hnode
    exact ⟨first, hfirst, horderly.givesOnly hinteger⟩
  · have hplace := hpart (at?_of_bound? hbound)
    obtain ⟨first, hfirst, hinteger⟩ := exists_of_at?_after hplace
    exact ⟨first, hfirst, (hafter.at? hplace).givesOnly hinteger⟩
  · obtain ⟨hwindow, helement, hbound⟩ := horderly.window? hwindow
    obtain ⟨⟨helement₀, hbound₀⟩, hretained⟩ := id hwindow
    obtain ⟨first, hfirst, hinteger⟩ := exists_of_at?_after (hpart helement)
    obtain ⟨limit, hlimit, hmost⟩ := exists_of_at?_after (hpart hbound)
    refine ⟨fun v hv => ⟨(hretained.elements v hv).1, (hretained.elements v hv).2.1⟩,
      ⟨first, hfirst, fun σ l s o v hv => ?_⟩, limit, hlimit, fun held hheld hne => ?_⟩
    · obtain ⟨-, hgives⟩ := hwindow.observed (helement₀.evalOn _) (hbound₀.evalOn _).1 l s
      obtain ⟨hproper, hint⟩ := hgives v hv
      refine ⟨hproper, fun n hn => ?_⟩
      rw [← integer?_eq_some_iff, hinteger]
      exact hint n hn
    · have hfew := hretained.few held hheld
      have hpositive := List.length_pos_of_ne_nil hne
      cases hbounded : bound.integer? with
      | none =>
        rw [hbounded] at hfew
        exact absurd hfew (Nat.not_le.2 hpositive)
      | some m =>
        rw [hbounded, Option.getD_some] at hfew
        refine ⟨m.toNat, ?_, hfew⟩
        rw [← integer?_eq_some_iff, hmost, hbounded, Int.toNat_of_nonneg (by omega)]

/-- A window of literals, which holds the newest two of them. -/
theorem holdings_of_parse_of_literals :
    let t : Expr := .window (.rolling []) (.literal (.int 7)) (.literal (.int 2))
    let o : Occasion := ⟨.null, fun _ => 0, fun _ => 0.0⟩
    Expr.parse "RollingWindow(7,2)" = .ok t ∧
      t.after [o, o, o] =
        .window (.rolling [.int 7, .int 7]) (.literal (.int 7)) (.literal (.int 2)) ∧
      (∃ first, t.at? [] = some first ∧ GivesOnly first (t.after [o, o, o])) ∧
      ∃ first, t.at? [1] = some first ∧
        ∃ n : Nat, first.chainEnd = .literal (.int n) ∧ [Value.int 7, .int 7].length ≤ n := by
  intro t o
  have hseven : Renders ['7'] (.literal (.int 7)) := .literal rfl
  have htwo : Renders ['2'] (.literal (.int 2)) := .literal rfl
  have hparse : Expr.parse "RollingWindow(7,2)" = .ok t :=
    read_of_renders (hseven.binary htwo (.rollingWindow _ _))
  obtain ⟨hgives, -, hwindow⟩ := holdings_of_parse hparse [o, o, o] (at?_nil _)
  obtain ⟨-, -, first, hfirst, hfew⟩ := hwindow _ _ _ rfl
  exact ⟨hparse, rfl, hgives, first, hfirst, hfew _ rfl (List.cons_ne_nil _ _)⟩

end Expr

end LiveQuery
