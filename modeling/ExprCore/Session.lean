import ExprCore.Compilation
import ExprCore.Evaluation

/-!
# Sessions

Expressions that are compiled and evaluated one after the other, in a common scope and on a common
frame. What an expression binds and writes is there for the next one; after an error, too, the
bindings and writes made before it stay.

## Main definitions

- `Session`: the names, the scope, the frame and the settings that expressions share
- `Session.compile`, `Session.compileSequence`: compile in the scope of the session
- `Session.evaluate`: evaluate on the frame of the session
- `Session.assign`: give a variable a value from outside
-/

namespace ExprCore

/-- What expressions that run one after the other share. -/
structure Session where
  names : NameTable
  registry : Registry
  policy : UndefinedPolicy
  scope : Scope
  frame : Frame
  /-- The expressions compiled so far, latest first. -/
  compiled : List Compiled

/-- The outcome of an evaluation: a value or the reason why there is none, and the requests that
were made to the registry. -/
structure Outcome where
  result : Except Stop Value
  /-- The requests, oldest first. -/
  calls : CallLog

namespace Session

/-- Keep what a compilation leaves behind. -/
def keep (s : Session) (c : Compilation) : Session :=
  { s with
    scope := c.scope
    compiled :=
      match c.result with
      | .ok code => code :: s.compiled
      | .error _ => s.compiled }

def compile (s : Session) (e : Option Expr) : Except CompileError Compiled × Session :=
  let c := ExprCore.compile s.names s.scope e
  (c.result, s.keep c)

/-- Compile a list of expressions in the scope of the session. -/
def compileSequence (s : Session) (members : List (Option Expr)) :
    Except CompileError Compiled × Session :=
  let c := ExprCore.compileSequence s.names s.scope members
  (c.result, s.keep c)

/-- The expression compiled as the `n`-th, counted from 0. -/
def nth? (s : Session) (n : Nat) : Option Compiled := s.compiled.reverse[n]?

def evaluate (s : Session) (c : Compiled) : Outcome × Session :=
  let ⟨names, registry, policy, scope, frame, compiled⟩ := s
  match (Interpreter.evaluate ⟨names, registry, policy⟩ c).run ⟨frame, #[]⟩ with
  | .ok v ⟨frame, calls⟩ => (⟨.ok v, calls⟩, ⟨names, registry, policy, scope, frame, compiled⟩)
  | .error stop ⟨frame, calls⟩ =>
    (⟨.error stop, calls⟩, ⟨names, registry, policy, scope, frame, compiled⟩)

/-- Give a variable a value. The name is bound if it is new. -/
def assign (s : Session) (name : Name) (v : Value) : Slot × Session :=
  ((s.scope.define name).1,
    { s with
      scope := (s.scope.define name).2
      frame := s.frame.set (s.scope.define name).1 v })

end Session

end ExprCore
