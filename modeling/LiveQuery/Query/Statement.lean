import LiveQuery.Query.Literal
import LiveQuery.Query.Registry

/-!
# Statements

A statement is a literal, a call or a path, tried in this order after the blanks around it are
dropped. The arguments of a call are statements. They are read from left to right before the
function is looked up, so of several mistakes the leftmost innermost one is reported.
-/

namespace LiveQuery

/-- Reads a statement with the functions of a registry. -/
def Registry.read (r : Registry) (statement : List Char) : Except QueryError Expr :=
  match Literal.parse (Text.trim statement) with
  | .ok value => .ok (.literal value)
  | .error _ =>
    match _h : Call.split (Text.trim statement) with
    | .error e => .error e
    | .ok none => Expr.ofPath (Text.trim statement)
    | .ok (some (name, args)) => do
      let children ← args.attach.mapM fun ⟨arg, _⟩ => r.read arg
      r.build (String.ofList name) children
termination_by statement.length
decreasing_by
  exact Nat.lt_of_lt_of_le (Call.length_lt_of_mem_split ‹_› ‹_›) (Text.length_trim_le statement)

def Registry.parse (r : Registry) (statement : String) : Except QueryError Expr :=
  r.read statement.toList

/-- Reads a statement with the functions of the language. -/
def Expr.parse (statement : String) : Except QueryError Expr := Registry.builtin.parse statement

end LiveQuery
