import ExprCore.EvalError
import ExprCore.Slot
import ExprCore.Value.Basic

/-!
# Function registries

Evaluation owns no functions. It asks a registry which function a name means in a scope, and then
has the registry run that function. A registry may keep state; its answers are functions of the
requests made so far.

## Main definitions

- `CallTarget`: a function as its registry knows it
- `CallRequest`, `CallLog`: the requests to a registry, in order
- `Registry`: the answers to requests
- `Registry.none`: the registry without functions
-/

namespace ExprCore

/-- A function, by the number that its registry has for it. -/
structure CallTarget where
  index : Nat
deriving DecidableEq, Inhabited, Repr

/-- A request to a registry. -/
inductive CallRequest where
  | lookup (name : String) (scope : ScopeId)
  | invoke (target : CallTarget) (arguments : List Value)

/-- The requests made so far, oldest first. -/
abbrev CallLog := Array CallRequest

/-- The functions that calls can reach. Each answer may depend on the requests made before. -/
structure Registry where
  /-- The function that a name means in a scope, if it means one. -/
  lookup : CallLog → String → ScopeId → Option CallTarget
  invoke : CallLog → CallTarget → List Value → Except EvalError Value

/-- A request to run a function that does not exist. -/
def EvalError.unknownTarget (target : CallTarget) : EvalError :=
  .new s!"no function registered for call target {target.index}"

/-- The registry without functions. -/
def Registry.none : Registry where
  lookup _ _ _ := Option.none
  invoke _ target _ := .error (.unknownTarget target)

end ExprCore
