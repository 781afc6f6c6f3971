import LiveQuery.Query.Registry

/-!
# The trees of calls

`Node` lists what the functions of the language make of their arguments, and the registry makes
exactly that. A tree made of nothing else is fresh: it remembers no event yet.
-/

namespace LiveQuery

/-- The tree of a call, by the name of the function and the trees of the arguments. -/
inductive Node : String → List Expr → Expr → Prop
  | lookup (key : Expr) : Node "GetDeep" [key] (.lookup key)
  | labelled (value name : Expr) : Node "As" [value, name] (.labelled value name none)
  | arithmetic (op : Operator) (left right : Expr) :
    Node op.name [left, right] (.arithmetic op left right)
  | rollingWindow (element bound : Expr) :
    Node "RollingWindow" [element, bound] (.window (.rolling []) element bound)
  | timedWindow (element bound : Expr) :
    Node "TimedWindow" [element, bound] (.window (.timed []) element bound)
  | aggregate (kind : Aggregate) (retained : Window.Retained) (element bound : Expr) :
    Node kind.name [.window retained element bound] (.aggregate kind retained element bound 0.0)
  | everyNth (element count : Expr) : Node "EveryNth" [element, count] (.everyNth element count 0)
  | sample (element probability : Expr) :
    Node "RandomSample" [element, probability] (.sample element probability)

/-! ### The registry of the language -/

theorem Keyed.mem_of_find? {α : Type} {key : String} {value : α} {entries : List (String × α)}
    (h : Keyed.find? key entries = some value) : (key, value) ∈ entries := by
  induction entries with
  | nil => cases h
  | cons head rest ih =>
    obtain ⟨k, v⟩ := head
    simp only [Keyed.find?] at h
    split at h
    · rename_i hkey
      rw [hkey, Option.some.inj h]
      exact List.mem_cons_self
    · exact List.mem_cons_of_mem _ (ih h)

theorem Registry.builtin_functions : builtin.functions =
    [ ("Add", ⟨2, .arithmetic⟩), ("As", ⟨2, .labelled⟩), ("Divide", ⟨2, .arithmetic⟩),
      ("EveryNth", ⟨2, .everyNth⟩), ("GetDeep", ⟨1, .lookup⟩), ("Multiply", ⟨2, .arithmetic⟩),
      ("RandomSample", ⟨2, .sample⟩), ("RollingWindow", ⟨2, .rollingWindow⟩),
      ("Subtract", ⟨2, .arithmetic⟩), ("TimedWindow", ⟨2, .timedWindow⟩),
      ("WindowAve", ⟨1, .average⟩), ("WindowSum", ⟨1, .sum⟩) ] := by
  decide

theorem Operator.name_of_ofName? {name : String} {op : Operator} (h : ofName? name = some op) :
    op.name = name := by
  have hfound := List.find?_some h
  exact beq_iff_eq.1 hfound

theorem Builder.aggregate_eq_ok {kind : Aggregate} {function : String} {window t : Expr}
    (h : aggregate kind function window = .ok t) : Node kind.name [window] t := by
  cases window with
  | window retained element bound =>
    cases h
    exact .aggregate kind retained element bound
  | _ => cases h

theorem Builder.node_of_build {function : String} {f : Function} {args : List Expr} {t : Expr}
    (hmem : (function, f) ∈ Registry.builtin.functions)
    (h : f.builder.build function args = .ok t) : Node function args t := by
  obtain ⟨arity, b⟩ := f
  rw [Registry.builtin_functions] at hmem
  simp only [build] at h
  split at h
  · obtain ⟨rfl, -⟩ : function = "GetDeep" ∧ arity = 1 := by simpa using hmem
    cases h
    exact .lookup _
  · obtain ⟨rfl, -⟩ : function = "As" ∧ arity = 2 := by simpa using hmem
    cases h
    exact .labelled _ _
  · split at h
    · cases h
    · rename_i op left right hop
      rw [← Operator.name_of_ofName? hop]
      cases h
      exact .arithmetic op left right
    · cases h
  · obtain ⟨rfl, -⟩ : function = "RollingWindow" ∧ arity = 2 := by simpa using hmem
    cases h
    exact .rollingWindow _ _
  · obtain ⟨rfl, -⟩ : function = "TimedWindow" ∧ arity = 2 := by simpa using hmem
    cases h
    exact .timedWindow _ _
  · obtain ⟨rfl, -⟩ : function = "WindowAve" ∧ arity = 1 := by simpa using hmem
    exact aggregate_eq_ok h
  · obtain ⟨rfl, -⟩ : function = "WindowSum" ∧ arity = 1 := by simpa using hmem
    exact aggregate_eq_ok h
  · obtain ⟨rfl, -⟩ : function = "EveryNth" ∧ arity = 2 := by simpa using hmem
    cases h
    exact .everyNth _ _
  · obtain ⟨rfl, -⟩ : function = "RandomSample" ∧ arity = 2 := by simpa using hmem
    cases h
    exact .sample _ _
  · cases h

theorem Registry.build_eq_ok_iff {name : String} {children : List Expr} {t : Expr} :
    builtin.build name children = .ok t ↔ Node name children t := by
  constructor
  · intro h
    simp only [build] at h
    split at h
    · cases h
    · rename_i f hf
      split at h
      · cases h
      · exact Builder.node_of_build (Keyed.mem_of_find? hf) h
  · intro h
    cases h with
    | arithmetic op left right => cases op <;> rfl
    | aggregate kind retained element bound => cases kind <;> rfl
    | _ => rfl

/-! ### Other registries -/

theorem Builder.exists_node_of_build {b : Builder} {function : String} {args : List Expr}
    {t : Expr} (h : b.build function args = .ok t) : ∃ name, Node name args t := by
  unfold build at h
  split at h
  · cases h
    exact ⟨_, .lookup _⟩
  · cases h
    exact ⟨_, .labelled _ _⟩
  · split at h
    · cases h
    · cases h
      exact ⟨_, .arithmetic _ _ _⟩
    · cases h
  · cases h
    exact ⟨_, .rollingWindow _ _⟩
  · cases h
    exact ⟨_, .timedWindow _ _⟩
  · exact ⟨_, aggregate_eq_ok h⟩
  · exact ⟨_, aggregate_eq_ok h⟩
  · cases h
    exact ⟨_, .everyNth _ _⟩
  · cases h
    exact ⟨_, .sample _ _⟩
  · cases h

/-- Under whatever names functions are registered, they make the trees of the language. -/
theorem Registry.exists_node_of_build {r : Registry} {name : String} {children : List Expr}
    {t : Expr} (h : r.build name children = .ok t) : ∃ function, Node function children t := by
  unfold build at h
  split at h
  · cases h
  · split at h
    · cases h
    · exact Builder.exists_node_of_build h

/-! ### The names of functions -/

/-- The name of a function is a name for the reader of calls. -/
theorem Node.isNameChar {name : String} {children : List Expr} {t : Expr}
    (h : Node name children t) :
    name.toList ≠ [] ∧ ∀ c ∈ name.toList, Call.isNameChar c = true := by
  rw [← List.all_eq_true]
  cases h with
  | arithmetic op left right => cases op <;> exact ⟨List.cons_ne_nil _ _, rfl⟩
  | aggregate kind retained element bound => cases kind <;> exact ⟨List.cons_ne_nil _ _, rfl⟩
  | _ => exact ⟨List.cons_ne_nil _ _, rfl⟩

theorem Node.children_ne_nil {name : String} {children : List Expr} {t : Expr}
    (h : Node name children t) : children ≠ [] := by
  cases h <;> exact List.cons_ne_nil _ _

/-! ### Fresh trees -/

/-- The tree remembers nothing: its windows are empty, its totals and counters are zero, and it has
no labels. -/
def Expr.Fresh : Expr → Prop
  | .literal _ => True
  | .lookup key => key.Fresh
  | .labelled value name label => value.Fresh ∧ name.Fresh ∧ label = none
  | .arithmetic _ left right => left.Fresh ∧ right.Fresh
  | .window retained element bound => retained.arrivals = [] ∧ element.Fresh ∧ bound.Fresh
  | .aggregate _ retained element bound total =>
    retained.arrivals = [] ∧ element.Fresh ∧ bound.Fresh ∧ total = 0.0
  | .everyNth element count seen => element.Fresh ∧ count.Fresh ∧ seen = 0
  | .sample element probability => element.Fresh ∧ probability.Fresh

theorem Node.fresh {name : String} {children : List Expr} {t : Expr} (h : Node name children t)
    (hchildren : ∀ child ∈ children, child.Fresh) : t.Fresh := by
  cases h with
  | lookup key => exact hchildren key (by simp)
  | labelled value name => exact ⟨hchildren value (by simp), hchildren name (by simp), rfl⟩
  | arithmetic op left right => exact ⟨hchildren left (by simp), hchildren right (by simp)⟩
  | rollingWindow element bound =>
    exact ⟨rfl, hchildren element (by simp), hchildren bound (by simp)⟩
  | timedWindow element bound =>
    exact ⟨rfl, hchildren element (by simp), hchildren bound (by simp)⟩
  | aggregate kind retained element bound =>
    obtain ⟨hempty, helement, hbound⟩ := hchildren (.window retained element bound) (by simp)
    exact ⟨hempty, helement, hbound, rfl⟩
  | everyNth element count =>
    exact ⟨hchildren element (by simp), hchildren count (by simp), rfl⟩
  | sample element probability =>
    exact ⟨hchildren element (by simp), hchildren probability (by simp)⟩

end LiveQuery
