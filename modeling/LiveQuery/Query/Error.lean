import LiveQuery.Query.Value

/-!
# What can go wrong with a query

Every failure of reading or evaluating a statement, by its cause. `QueryError.message` is the only
place where a failure is put into words.
-/

namespace LiveQuery

/-- What is wrong with the arguments of a function, beyond their number. -/
inductive ArgumentFault where
  | unsupportedOperator
  | notAWindow
  /-- One of every zero elements cannot be kept. -/
  | zeroStride
  /-- A probability has to be a number. -/
  | probabilityType (found : ValueType)
  /-- A probability lies between zero and one. -/
  | probabilityRange (probability : Float)

def ArgumentFault.message : ArgumentFault → String
  | .unsupportedOperator => "not a supported arithmetic operator"
  | .notAWindow => "expects a single Window argument"
  | .zeroStride => "n must be positive"
  | .probabilityType found => "probability must be numeric, got " ++ found.name
  | .probabilityRange p =>
    "probability " ++ Decimal.Layout.plainNumber.text p ++ " is outside [0, 1]"

inductive QueryError where
  | unparseableLiteral (token : String)
  | unbalancedParentheses (text : String)
  | unterminatedQuote (text : String)
  | emptyArgument (text : String)
  | invalidPath (text : String)
  | unrecognizedFunction (name : String)
  | arity (function : String) (expected got : Nat)
  | invalidArgument (function : String) (fault : ArgumentFault)
  | expectedString (found : ValueType) (value : String)
  | operandType (function : String) (operand : Nat) (found : ValueType)
  | invalidBound (function : String) (found : ValueType)
  | listenerValue (found : ValueType) (value : String)
  | emptyWindow
  /-- A listener of the caller's own refused a notice. -/
  | listener (reason : String)

def QueryError.message : QueryError → String
  | .unparseableLiteral token => "Couldn't parse " ++ token ++ " as a literal"
  | .unbalancedParentheses text => "Unbalanced parentheses in \"" ++ text ++ "\""
  | .unterminatedQuote text => "Unbalanced quote marks in \"" ++ text ++ "\""
  | .emptyArgument text => "Empty argument in \"" ++ text ++ "\""
  | .invalidPath text => "\"" ++ text ++ "\" is not a literal, function call or path"
  | .unrecognizedFunction name => "Unrecognized function name '" ++ name ++ "'"
  | .arity function expected got =>
    function ++ " expects " ++ Nat.repr expected ++ " argument(s), got " ++ Nat.repr got
  | .invalidArgument function fault => function ++ ": " ++ fault.message
  | .expectedString found value =>
    "Expected non-empty string. Was type " ++ found.name ++ " \"" ++ value ++ "\""
  | .operandType function operand found =>
    function ++ " expects a number, operand " ++ Nat.repr operand ++ " was type " ++ found.name
  | .invalidBound function found =>
    function ++ " expects a non-negative integer bound, got type " ++ found.name
  | .listenerValue found value =>
    "Window expected a number, got " ++ value ++ " (" ++ found.name ++ ")"
  | .emptyWindow => "Empty window"
  | .listener reason => "Listener error: " ++ reason

/-- The value of an evaluation, or why there is none. -/
abbrev QueryResult := Except QueryError Value

end LiveQuery
