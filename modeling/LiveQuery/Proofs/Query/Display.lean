import LiveQuery.Proofs.Query.Chance
import LiveQuery.Proofs.Query.Holdings
import LiveQuery.Proofs.Query.Literals

/-!
# What an expression shows is a statement of it

The display of an expression is written by every kind of expression for itself, and read back by
the rules of the language. An expression is `Plain` if its display leaves nothing out: it has no
labels, its paths can stand bare, and its other constants are integers. Events change nothing of
what it shows, so at any time the display of a plain expression is a statement of the expression as
it was before its first event.
-/

namespace LiveQuery

/-! ### Integers as literals -/

namespace Literal

/-- An integer of 64 bits is the value of its own text. -/
theorem parse_toString {n : Int} (h : Decimal.fitsWord n = true) :
    parse (toString n).toList = .ok (.int n) :=
  parse_eq_int_iff.2 ⟨Decimal.spellsInteger_toString n, fitsWord_iff.1 h⟩

theorem fitsWord_of_parse {token : List Char} {n : Int} (h : parse token = .ok (.int n)) :
    Decimal.fitsWord n = true :=
  fitsWord_iff.2 (parse_eq_int_iff.1 h).2

end Literal

namespace Expr

/-! ### Before the first event -/

/-- The expression as it was before its first event. -/
def renewed : Expr → Expr
  | .literal value => .literal value
  | .lookup key => .lookup key.renewed
  | .labelled value name _ => .labelled value.renewed name.renewed none
  | .arithmetic op left right => .arithmetic op left.renewed right.renewed
  | .window retained element bound => .window retained.cleared element.renewed bound.renewed
  | .aggregate kind retained element bound _ =>
    .aggregate kind retained.cleared element.renewed bound.renewed 0.0
  | .everyNth element count _ => .everyNth element.renewed count.renewed 0
  | .sample element probability => .sample element.renewed probability.renewed

theorem cleared_of_arrivals {r : Window.Retained} (h : r.arrivals = []) : r.cleared = r := by
  cases r with
  | rolling held =>
    obtain rfl : held = [] := h
    rfl
  | timed held =>
    obtain rfl : held = [] := List.map_eq_nil_iff.1 h
    rfl

theorem Fresh.renewed_eq {e : Expr} (h : e.Fresh) : e.renewed = e := by
  induction e with
  | literal value => rfl
  | lookup key hkey => exact congrArg lookup (hkey h)
  | labelled value name label hvalue hname =>
    obtain ⟨hv, hn, rfl⟩ := h
    rw [renewed, hvalue hv, hname hn]
  | arithmetic op left right hleft hright => rw [renewed, hleft h.1, hright h.2]
  | window retained element bound helement hbound =>
    rw [renewed, cleared_of_arrivals h.1, helement h.2.1, hbound h.2.2]
  | aggregate kind retained element bound total helement hbound =>
    obtain ⟨hempty, he, hb, htotal⟩ := h
    rw [renewed, cleared_of_arrivals hempty, helement he, hbound hb, htotal]
  | everyNth element count seen helement hcount =>
    obtain ⟨he, hc, hseen⟩ := h
    rw [renewed, helement he, hcount hc, hseen]
  | sample element probability helement hprobability =>
    rw [renewed, helement h.1, hprobability h.2]

theorem cleared_push {σ : Type} (l : Window.Listener σ) (s : σ) (r : Window.Retained) (v : Value)
    (bound now : Nat) : (r.push l s v bound now).held.cleared = r.cleared := by
  cases r <;> simp only [Window.Retained.push, Window.Retained.cleared]

/-- A window stays of its kind. -/
theorem cleared_advance {σ : Type} (l : Window.Listener σ) (s : σ) (r : Window.Retained)
    (now : Nat) (inputs : Except QueryError (Value × Value)) :
    (advance l s r now inputs).held.cleared = r.cleared := by
  cases inputs with
  | error e => rfl
  | ok pair =>
    obtain ⟨v, b⟩ := pair
    simp only [advance]
    cases boundOf r.functionName b with
    | error e => rfl
    | ok n =>
      show (r.advance l s v n now).held.cleared = r.cleared
      cases hnull : v.isNull with
      | true =>
        obtain rfl := Window.eq_null_of_isNull hnull
        cases r with
        | rolling held => rw [Window.Retained.advance_rolling_null]
        | timed held =>
          rw [Window.Retained.advance_timed_null, Window.Retained.cleared, Window.Retained.cleared]
      | false =>
        rw [Window.Retained.advance_of_not_isNull l s r hnull]
        exact cleared_push l s r v n now

/-- An event does not change what the expression began with. -/
theorem renewed_evalOn (o : Occasion) (e : Expr) : (e.evalOn o).1.renewed = e.renewed := by
  induction e generalizing o with
  | literal value => rfl
  | lookup key hkey => simp only [evalOn, renewed, hkey]
  | labelled value name label hvalue hname => simp only [evalOn, renewed, hvalue, hname]
  | arithmetic op left right hleft hright => simp only [evalOn, renewed, hleft, hright]
  | _ =>
    rename_i hfirst hsecond
    simp only [evalOn, renewed, inTurn_fst, inTurn_snd, apply_ite renewed, hfirst, hsecond,
      ite_self, cleared_advance]

theorem renewed_after (os : List Occasion) (e : Expr) : (e.after os).renewed = e.renewed := by
  induction os generalizing e with
  | nil => rfl
  | cons o os ih => rw [after_cons, ih, renewed_evalOn]

/-! ### Plain expressions -/

/-- The display of the expression leaves nothing out: there are no labels, every look-up has a
constant key that can stand as a bare path, and every other constant is an integer. -/
def Plain : Expr → Prop
  | .literal (.int _) => True
  | .literal _ => False
  | .lookup (.literal (.str path)) =>
    isPath path.toList = true ∧ (Literal.parse path.toList).isOk = false
  | .lookup _ => False
  | .labelled _ _ _ => False
  | .arithmetic _ left right => left.Plain ∧ right.Plain
  | .window _ element bound => element.Plain ∧ bound.Plain
  | .aggregate _ _ element bound _ => element.Plain ∧ bound.Plain
  | .everyNth element count _ => element.Plain ∧ count.Plain
  | .sample element probability => element.Plain ∧ probability.Plain

theorem functionName_cleared (r : Window.Retained) : r.cleared.functionName = r.functionName := by
  cases r <;> rfl

/-- What a plain expression remembers does not show. -/
theorem display_renewed {e : Expr} (h : e.renewed.Plain) : e.renewed.display = e.display := by
  induction e with
  | literal value => rfl
  | lookup key hkey =>
    cases key with
    | literal value => rfl
    | _ => exact h.elim
  | labelled value name label => exact h.elim
  | arithmetic op left right hleft hright => simp only [renewed, display, hleft h.1, hright h.2]
  | _ =>
    rename_i hfirst hsecond
    simp only [renewed, display, functionName_cleared, hfirst h.1, hsecond h.2]

theorem display_after {e : Expr} (hfresh : e.Fresh) (hplain : e.Plain) (os : List Occasion) :
    (e.after os).display = e.display := by
  have hrenewed : (e.after os).renewed = e := by rw [renewed_after, hfresh.renewed_eq]
  have hdisplay := display_renewed (hrenewed.symm ▸ hplain)
  rw [← hdisplay, hrenewed]

/-! ### Reading the display -/

theorem toList_callText_unary (name a : String) :
    (callText name [a]).toList = name.toList ++ '(' :: (a.toList ++ [')']) := by
  simp [callText]

theorem toList_callText_binary (name a b : String) :
    (callText name [a, b]).toList = name.toList ++ '(' :: ((a.toList ++ ',' :: b.toList) ++ [')']) := by
  simp [callText]

end Expr

theorem Renders.unary_callText {name a : String} {c t : Expr} (h : Renders a.toList c)
    (node : Node name [c] t) : Renders (Expr.callText name [a]).toList t := by
  rw [Expr.toList_callText_unary]
  exact h.unary node

theorem Renders.binary_callText {name a b : String} {c d t : Expr} (ha : Renders a.toList c)
    (hb : Renders b.toList d) (node : Node name [c, d] t) :
    Renders (Expr.callText name [a, b]).toList t := by
  rw [Expr.toList_callText_binary]
  exact ha.binary hb node

/-- The display of a plain tree is one of its renderings. -/
theorem Renders.display {text : List Char} {t : Expr} (h : Renders text t) (hplain : t.Plain) :
    Renders t.display.toList t := by
  induction h with
  | @literal token value hparse =>
    cases value with
    | int n => exact .literal (Literal.parse_toString (Literal.fitsWord_of_parse hparse))
    | _ => exact hplain.elim
  | @path text hpath other =>
    rw [Expr.display, Expr.display, Value.text, String.toList_ofList]
    exact .path hpath other
  | @call name t args body _ node _ ih =>
    have hchildren : ∀ child ∈ args.map (·.2), child.Plain → Renders child.display.toList child :=
      List.forall_mem_map.2 ih
    generalize args.map (·.2) = children at node hchildren
    cases node with
    | lookup key =>
      cases key with
      | literal value =>
        cases value with
        | str path =>
          obtain ⟨hpath, hother⟩ := hplain
          have hrenders := Renders.path hpath fun value hvalue => by
            rw [hvalue] at hother
            cases hother
          rwa [String.ofList_toList] at hrenders
        | _ => exact hplain.elim
      | _ => exact hplain.elim
    | labelled value name => exact hplain.elim
    | aggregate kind retained element bound =>
      have hwindow := hchildren (.window retained element bound) List.mem_cons_self hplain
      exact hwindow.unary_callText (.aggregate kind retained element bound)
    | arithmetic op left right =>
      have hleft := hchildren left (by simp) hplain.1
      have hright := hchildren right (by simp) hplain.2
      exact hleft.binary_callText hright (.arithmetic op left right)
    | rollingWindow element bound =>
      have helement := hchildren element (by simp) hplain.1
      have hbound := hchildren bound (by simp) hplain.2
      exact helement.binary_callText hbound (.rollingWindow element bound)
    | timedWindow element bound =>
      have helement := hchildren element (by simp) hplain.1
      have hbound := hchildren bound (by simp) hplain.2
      exact helement.binary_callText hbound (.timedWindow element bound)
    | everyNth element count =>
      have helement := hchildren element (by simp) hplain.1
      have hcount := hchildren count (by simp) hplain.2
      exact helement.binary_callText hcount (.everyNth element count)
    | sample element probability =>
      have helement := hchildren element (by simp) hplain.1
      have hprobability := hchildren probability (by simp) hplain.2
      exact helement.binary_callText hprobability (.sample element probability)

namespace Expr

/-- At any time the display of a plain tree is a statement of the tree as it was read: with the same
display, and with the same results on any events. Where no sample is left to chance the draws need
not be the same. -/
theorem parse_display_after {statement : String} {t : Expr} (h : Expr.parse statement = .ok t)
    (hplain : t.Plain) (seen : List Occasion) :
    ∃ u, Expr.parse (t.after seen).display = .ok u ∧ u = t ∧ u.Fresh ∧
      u.display = (t.after seen).display ∧
      (∀ os, u.results os = t.results os ∧ (u.after os).display = (t.after os).display) ∧
      ∀ os os', t.CertainDuring os → List.Forall₂ Occasion.Redrawn os os' →
        u.results os' = t.results os := by
  have hrenders := renders_of_read statement.toList h
  have hfresh := hrenders.fresh
  have hdisplay := display_after hfresh hplain
  have hread : Expr.parse (t.after seen).display = .ok t := by
    have hread := (hrenders.display hplain).read.2.2.1
    rw [hdisplay seen]
    exact hread
  refine ⟨t, hread, rfl, hfresh, (hdisplay seen).symm, fun os => ⟨rfl, rfl⟩, ?_⟩
  intro os os' hcertain hdraws
  exact (hcertain.run_eq hdraws).2

/-- The sum of the last three values, each increased by seven. -/
def sumOfIncreased : Expr :=
  .aggregate .sum (.rolling [])
    (.arithmetic .add (.lookup (.literal (.str "v"))) (.literal (.int 7))) (.literal (.int 3)) 0.0

theorem parse_sumOfIncreased :
    Expr.parse "WindowSum(RollingWindow(Add(GetDeep('v'),+7),3))" = .ok sumOfIncreased := by
  have hkey : Renders ['\x27', 'v', '\x27'] (.literal (.str "v")) := .literal rfl
  have hseven : Renders ['+', '7'] (.literal (.int 7)) := .literal rfl
  have hthree : Renders ['3'] (.literal (.int 3)) := .literal rfl
  have helement := (hkey.unary (.lookup _)).binary hseven (.arithmetic .add _ _)
  have hwindow := helement.binary hthree (.rollingWindow _ _)
  exact read_of_renders (hwindow.unary (.aggregate .sum _ _ _))

theorem parse_display_after_of_increased :
    Expr.parse "WindowSum(RollingWindow(Add(GetDeep('v'),+7),3))" = .ok sumOfIncreased ∧
      sumOfIncreased.Plain ∧
      Expr.parse (sumOfIncreased.after [numberedOccasion]).display = .ok sumOfIncreased ∧
      sumOfIncreased.display = "WindowSum(RollingWindow(Add(v,7),3))" := by
  have hplain : sumOfIncreased.Plain := ⟨⟨⟨rfl, rfl⟩, trivial⟩, trivial⟩
  obtain ⟨u, hread, rfl, -⟩ :=
    parse_display_after parse_sumOfIncreased hplain [numberedOccasion]
  exact ⟨parse_sumOfIncreased, hplain, hread, rfl⟩

end Expr

end LiveQuery
