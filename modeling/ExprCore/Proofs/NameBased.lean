import ExprCore.Evaluation
import ExprCore.Proofs.WrittenNames

/-!
# Evaluation by name

The meaning of an expression without compilation: a walk over the tree, in an environment that keeps
the contents of the variables by name. There are no slots, no nodes and no frames.

## Main definitions

- `Env`: the variables by name, and the requests to the registry
- `Run`: steps on an environment that may fail
- `Expr.run`: the value of an expression
- `Expr.runPath`: the variable and the keys of the container of an element that is written

## Design notes

A read yields the content of a variable: `null` before the first write, nothing after the variable
was unset. A name that is not in sight where the read stands is undefined. Sight is a matter of the
text and not of the run: a write that a logical operator leaves out still brings its name into
sight, and the value of an assignment does not see the names that only its target brings in.

Constructs that are not supported have no meaning; they stop with an error here.
-/

namespace ExprCore

/-- The variables by name, and the requests made to the registry so far. -/
structure Env where
  vars : Name → Cell
  /-- The requests, oldest first. -/
  calls : CallLog

def Env.put (env : Env) (name : Name) (c : Cell) : Env :=
  ⟨fun other => if other = name then c else env.vars other, env.calls⟩

/-- Steps on an environment. When one fails, the environment stays as it is at that point. -/
abbrev Run := EStateM EvalError Env

namespace Run

/-- Give the errors of a step a place unless they have one. -/
def located {α : Type} (span : Span) (x : Run α) : Run α := fun env =>
  match x env with
  | .ok a env => .ok a env
  | .error e env => .error (e.attachSpan span) env

def unsupported {α : Type} : Run α := throw (.new "unsupported expression")

/-- The value of a variable: `null` before the first write, absent once it was unset. -/
def read? (name : Name) : Run (Option Value) := fun env =>
  match env.vars name with
  | .vacant => .ok (some .null) env
  | .unset => .ok none env
  | .set v => .ok (some v) env

/-- The value that a partial write to a variable starts from: what the variable holds, or `null`. -/
def content (name : Name) : Run Value := fun env =>
  match env.vars name with
  | .vacant | .unset => .ok .null env
  | .set v => .ok v env

def store (name : Name) (v : Value) : Run Unit := fun env => .ok () (env.put name (.set v))

/-- Write an element of the array in a variable. A variable without a value holds the empty array
then. -/
def storeAt (name : Name) (keys : List Key) (v : Value) : Run Unit := do
  let array ← ofExcept ((← content name).storeAt keys v)
  store name array

def unset (names : List Name) : Run Unit := fun env =>
  .ok () (names.foldl (fun env name => env.put name .unset) env)

def lookup (registry : Registry) (name : String) (scope : ScopeId) : Run (Option CallTarget) :=
  fun env =>
    .ok (registry.lookup env.calls name scope) ⟨env.vars, env.calls.push (.lookup name scope)⟩

def invoke (registry : Registry) (target : CallTarget) (arguments : List Value) : Run Value :=
  fun env =>
    match registry.invoke env.calls target arguments with
    | .ok v => .ok v ⟨env.vars, env.calls.push (.invoke target arguments)⟩
    | .error e => .error e ⟨env.vars, env.calls.push (.invoke target arguments)⟩

def key (v : Value) : Run Key :=
  match v.position? with
  | some position => pure (some position)
  | none => throw (.invalidIndex v.typeName)

end Run

open Run

/-- The value of a literal; a double is what its bits stand for. -/
def Literal.value : Literal → Value
  | .int n => .int n
  | .float x => .float (.ofBits x.toBits)
  | .bool b => .bool b

/-- The value of an operator whose left operand is evaluated already. The logical operators leave
the right operand out once the left one decides, and yield a truth value in any case. -/
def BinaryOp.run (op : BinaryOp) (l : Value) (right : Run Value) : Run Value :=
  match op with
  | .and => if l.isTruthy then do pure (.bool (← right).isTruthy) else pure (.bool false)
  | .or => if l.isTruthy then pure (.bool true) else do pure (.bool (← right).isTruthy)
  | op => do ofExcept (op.apply l (← right))

/-- The value that an assignment stores: `t op= e` stores that of `t op e`. -/
def AssignEffect.run (span : Span) (target value : Run Value) : AssignEffect → Run Value
  | .plain => value
  | .compound op => located span do op.run (← target) value

/-- Step a variable: the result is its new content, or the old one. -/
def Run.step (name : Name) (delta : Int64) (fixity : Fixity) : Run Value := do
  let current ← content name
  let updated ← ofExcept (increment current delta)
  store name updated
  match fixity with
  | .before => pure updated
  | .after => pure current

namespace Interpreter

variable (i : Interpreter) (scope : ScopeId)

def runUndefined (name : Name) : Run Value :=
  match i.policy with
  | .strict => throw (.undefinedVariable (i.names.text name))
  | .lenient => pure .null

def runVar (sight : Sight) (name : Name) : Run Value := do
  if sight name then
    match ← read? name with
    | some v => pure v
    | none => i.runUndefined name
  else i.runUndefined name

/-- Call a function whose arguments are evaluated already. -/
def runCall (name : Name) (arguments : List Value) : Run Value := do
  match ← lookup i.registry (i.names.text name) scope with
  | some target => invoke i.registry target arguments
  | none => throw (.undefinedFunction (i.names.text name))

end Interpreter

mutual

/-- The value of an expression in a function body, where the given names are in sight. -/
def Expr.run (i : Interpreter) (scope : ScopeId) (sight : Sight) : Expr → Run Value
  | .mk span (.scalar kind text) => located span <|
    match scalarLiteral kind (i.names.text text) span with
    | .ok literal => pure literal.value
    | .error _ => unsupported
  | .mk span (.var name) => located span (i.runVar sight name)
  | .mk span (.binary token left right) => located span <|
    match token.meaning? with
    | none => unsupported
    | some op => do
      let l ← left.run i scope sight
      op.run l (right.run i scope (sight.adding left.written))
  | .mk span (.unary token operand) => located span <|
    match token.meaning? with
    | none => unsupported
    | some op => do
      let v ← operand.run i scope sight
      ofExcept (op.apply v)
  | .mk span (.step fixity token operand) => located span <|
    match operand.varName? with
    | none => unsupported
    | some name => step name token.delta fixity
  | .mk span (.assign token target value) => located span <|
    match token.effect? with
    | none => unsupported
    | some effect =>
      target.runWrite i scope
        (effect.run span (target.run i scope sight)
          (value.run i scope (sight.adding (effect.writtenFirst target.written))))
        (sight.adding (effect.written target.written value.written))
  | .mk span (.array entries) => located span do
    let values ← runEntries i scope sight entries
    pure (.array values.toArray)
  | .mk span (.access .indexed target (some index)) => located span do
    let t ← target.run i scope sight
    let p ← index.run i scope (sight.adding target.written)
    ofExcept (t.readElement p)
  | .mk span (.call name arguments) => located span <|
    if equalIgnoringCase (i.names.text name) "unset" then do
      unset ((arguments.filterMap Expr.varName?).filter sight)
      pure .null
    else do
      let values ← runAll i scope sight arguments
      i.runCall scope name values
  | .mk _ (.paren inner) => inner.run i scope sight
  | _ => unsupported

/-- Assign the value made by `stored` to a target, where the given names are in sight. -/
def Expr.runWrite (i : Interpreter) (scope : ScopeId) (stored : Run Value) (sight : Sight) :
    Expr → Run Value
  | .mk _ (.var name) => do
    let v ← stored
    store name v
    pure v
  | .mk _ (.access .indexed container none) => do
    let (base, keys) ← container.runPath i scope sight
    let v ← stored
    storeAt base (keys ++ [none]) v
    pure v
  | .mk _ (.access .indexed container (some index)) => do
    let (base, keys) ← container.runPath i scope sight
    let k ← key (← index.run i scope (sight.adding container.writtenAsPlace))
    let v ← stored
    storeAt base (keys ++ [k]) v
    pure v
  | _ => unsupported

/-- The variable that holds the container of an element, and the keys on the way to it. -/
def Expr.runPath (i : Interpreter) (scope : ScopeId) (sight : Sight) :
    Expr → Run (Name × List Key)
  | .mk _ (.var name) => pure (name, [])
  | .mk _ (.access .indexed target (some index)) => do
    let (base, keys) ← target.runPath i scope sight
    let k ← key (← index.run i scope (sight.adding target.writtenAsPlace))
    pure (base, keys ++ [k])
  | .mk _ (.paren inner) => inner.runPath i scope sight
  | _ => unsupported

/-- The values of the expressions of a list, from left to right. -/
def runAll (i : Interpreter) (scope : ScopeId) (sight : Sight) : List Expr → Run (List Value)
  | [] => pure []
  | e :: es => do
    let v ← e.run i scope sight
    let vs ← runAll i scope (sight.adding e.written) es
    pure (v :: vs)

def runEntries (i : Interpreter) (scope : ScopeId) (sight : Sight) :
    List (Element Expr) → Run (List Value)
  | [] => pure []
  | ⟨_, value⟩ :: entries => do
    let v ← value.run i scope sight
    let vs ← runEntries i scope (sight.adding value.written) entries
    pure (v :: vs)

end

end ExprCore
