import ExprCore.Case
import ExprCore.Code.Basic
import ExprCore.CompileError
import ExprCore.Expr.Tree
import ExprCore.Literal
import ExprCore.Operator.Meaning
import ExprCore.Scope

/-!
# From expressions to code

Every supported expression becomes a node behind the nodes of its parts. Names are bound to slots
on the way: a read uses a binding that exists, a write makes one. The value of an assignment comes
before its target, so that a variable is not yet bound while its first value is computed.

## Main definitions

- `LowerState`, `Lower`: the scope and the code so far, and steps on them that may fail
- `lower`: the node of an expression
- `lowerPlace`: the node of the container of an element that is written
- `lowerAll`: the nodes of a list of expressions

## Design notes

An error leaves the scope as it is at that point, so bindings made before the offending construct
stay. Parentheses leave no node behind.

Nodes, lists and names are stored by `Code.add`, `Code.addList`, `Code.addSlots` and `Scope.define`,
which know no limits. In the 32-bit form each of them is checked, as by `Code.addChecked`,
`Code.addListChecked`, `Code.addSlotsChecked` and `Scope.defineChecked`, and passing a limit is not
an error of compilation but ends the program. That end is left out here. Within the limits the two
forms are equal, and since code and scopes only grow, a compilation that ends within the limits has
kept them at every step (`compile_storesWithinLimits`).
-/

namespace ExprCore

/-- The scope and the code while an expression is compiled. -/
structure LowerState where
  scope : Scope
  code : Code

/-- Steps of compilation. An error keeps the state reached. -/
abbrev Lower := EStateM CompileError LowerState

namespace Lower

def emit (node : Node) (span : Span) : Lower NodeId := fun ⟨scope, code⟩ =>
  let (id, code) := code.add node span
  .ok id ⟨scope, code⟩

def emitList (ids : List NodeId) : Lower Segment := fun ⟨scope, code⟩ =>
  let (segment, code) := code.addList ids
  .ok segment ⟨scope, code⟩

def emitSlots (slots : List Slot) : Lower Segment := fun ⟨scope, code⟩ =>
  let (segment, code) := code.addSlots slots
  .ok segment ⟨scope, code⟩

def define (name : Name) : Lower Slot := fun ⟨scope, code⟩ =>
  let (slot, scope) := scope.define name
  .ok slot ⟨scope, code⟩

/-- The slot of a name that is read, if it is bound. -/
def find? (name : Name) : Lower (Option Slot) := fun s => .ok (s.scope.find? name) s

def scopeId : Lower ScopeId := fun s => .ok s.scope.id s

/-- Stop at something that is not supported. -/
def unsupported {α : Type} (construct : String) (span : Span) : Lower α :=
  throw (.unsupported construct span)

/-- Stop at a construct that is not supported at all. -/
def unsupportedForm {α : Type} (form : Form Expr (List Expr) (List (Element Expr)))
    (span : Span) : Lower α :=
  unsupported form.construct span

end Lower

open Lower

/-- The node of a literal. -/
def literalNode : Literal → Node
  | .int value => .int value
  | .float value => .float value.toBits
  | .bool value => .bool value

/-- The constant of a scalar, or why it has none. -/
def scalarLiteral (kind : ScalarKind) (text : String) (span : Span) :
    Except CompileError Literal :=
  match kind with
  | .int =>
    match parseInteger? text with
    | some literal => .ok literal
    | none => .error (.malformed .integer text span)
  | .real =>
    match parseFloat? text with
    | some value => .ok (.float value)
    | none => .error (.malformed .float text span)
  | .string =>
    match parseBool? text with
    | some value => .ok (.bool value)
    | none => .error (.unsupported "string scalar" span)
  | .other => .error (.unsupported "scalar" span)

/-- The node of a scalar. -/
def lowerScalar (names : NameTable) (kind : ScalarKind) (text : Name) (span : Span) :
    Lower NodeId :=
  match scalarLiteral kind (names.text text) span with
  | .ok literal => emit (literalNode literal) span
  | .error e => throw e

def Expr.varName? (e : Expr) : Option Name :=
  match e.form with
  | .var name => some name
  | _ => none

/-- The node that clears variables. Names that are not bound have nothing to clear. -/
def lowerUnset (arguments : List Expr) (span : Span) : Lower NodeId := do
  match arguments.find? (·.varName?.isNone) with
  | some argument => throw (.invalidUnset argument.construct argument.span)
  | none =>
    let scope := (← get).scope
    let slots ← emitSlots ((arguments.filterMap Expr.varName?).filterMap scope.find?)
    emit (.unset slots) span

/-- The node of an increment or decrement. Only a plain variable can be stepped. -/
def lowerStep (fixity : Fixity) (op : StepToken) (operand : Expr) (span : Span) :
    Lower NodeId :=
  match operand.varName? with
  | some name => do
    let slot ← define name
    emit (.step slot op.delta fixity) span
  | none => unsupported s!"`{op.symbol}` applied to {operand.construct}" operand.span

/-- The node of the value that an assignment stores: the value itself, or the old content of the
target combined with it. -/
def lowerStored (effect : AssignEffect) (readTarget value : Lower NodeId) (span : Span) :
    Lower NodeId :=
  match effect with
  | .plain => value
  | .compound op => do
    let left ← readTarget
    let right ← value
    emit (.binary op left right) span

mutual

/-- The node of an expression. -/
def lower (names : NameTable) : Expr → Lower NodeId
  | .mk span (.scalar kind text) => lowerScalar names kind text span
  | .mk span (.var name) => do
    let slot ← find? name
    emit (.var name slot) span
  | .mk span (.dynamicVar _) => unsupported "dynamic variable" span
  | .mk span (.binary token left right) =>
    match token.meaning? with
    | none => unsupported s!"binary operator `{token.symbol}`" span
    | some op => do
      let left ← lower names left
      let right ← lower names right
      emit (.binary op left right) span
  | .mk span (.unary token operand) =>
    match token.meaning? with
    | none => unsupported s!"unary operator `{token.symbol}`" span
    | some op => do
      let operand ← lower names operand
      emit (.unary op operand) span
  | .mk span (.step fixity token operand) => lowerStep fixity token operand span
  | .mk span (.assign token target value) =>
    match token.effect? with
    | none => unsupported s!"assignment operator `{token.symbol}`" span
    | some effect =>
      -- a compound assignment compiles its target twice: as a read here and as a place below
      lowerWrite names (lowerStored effect (lower names target) (lower names value) span) span
        target
  | .mk span (.array entries) => do
    let items ← lowerEntries names [] entries
    let segment ← emitList items
    emit (.list segment) span
  | .mk span (.access .hashtable _ _) => unsupported "hashtable access" span
  | .mk span (.access .indexed _ none) => unsupported "array append in read context" span
  | .mk span (.access .indexed target (some index)) => do
    let target ← lower names target
    let index ← lower names index
    emit (.index target (some index)) span
  | .mk span (.call name arguments) =>
    if equalIgnoringCase (names.text name) "unset" then lowerUnset arguments span
    else do
      let items ← lowerAll names [] arguments
      let segment ← emitList items
      emit (.call name (← scopeId) segment) span
  | .mk span (.dynamicCall _ _) => unsupported "dynamic function call" span
  | .mk _ (.paren inner) => lower names inner
  | .mk span (.conditional a b c) => unsupportedForm (.conditional a b c) span
  | .mk span (.cast type operand) => unsupportedForm (.cast type operand) span
  | .mk span (.instanceOf operand name) => unsupportedForm (.instanceOf operand name) span
  | .mk span .closure => unsupportedForm .closure span
  | .mk span (.new name arguments) => unsupportedForm (.new name arguments) span
  | .mk span (.quote parts) => unsupportedForm (.quote parts) span
  | .mk span .error => unsupportedForm .error span

/-- The node that stores the value made by `stored` in a target. -/
def lowerWrite (names : NameTable) (stored : Lower NodeId) (span : Span) : Expr → Lower NodeId
  | .mk _ (.var name) => do
    -- the value does not see the binding that its own assignment makes
    let value ← stored
    let slot ← define name
    emit (.assign slot value) span
  | .mk targetSpan (.dynamicVar _) => unsupported "dynamic variable" targetSpan
  | .mk targetSpan (.access .hashtable _ _) => unsupported "hashtable access" targetSpan
  | .mk _ (.access .indexed container none) => do
    let value ← stored
    let place ← lowerPlace names container
    emit (.storeElement place none value) span
  | .mk _ (.access .indexed container (some index)) => do
    let value ← stored
    let place ← lowerPlace names container
    let index ← lower names index
    emit (.storeElement place (some index) value) span
  | .mk targetSpan form => throw (.invalidTarget form.construct targetSpan)

/-- The node of the container of an element that is written: a variable, or an element of such a
container. -/
def lowerPlace (names : NameTable) : Expr → Lower NodeId
  | .mk span (.var name) => do
    let slot ← define name
    emit (.var name (some slot)) span
  | .mk span (.dynamicVar _) => unsupported "dynamic variable" span
  | .mk span (.access .hashtable _ _) => unsupported "hashtable access" span
  | .mk span (.access .indexed _ none) => unsupported "nested array append" span
  | .mk span (.access .indexed target (some index)) => do
    let target ← lowerPlace names target
    let index ← lower names index
    emit (.index target (some index)) span
  | .mk _ (.paren inner) => lowerPlace names inner
  | .mk span form => throw (.invalidTarget form.construct span)

/-- The nodes of a list of expressions, behind nodes that are done, latest first. -/
def lowerAll (names : NameTable) (done : List NodeId) : List Expr → Lower (List NodeId)
  | [] => pure done.reverse
  | e :: es => do
    let id ← lower names e
    lowerAll names (id :: done) es

/-- The nodes of the entries of an array literal, behind nodes that are done, latest first. An
entry with a key is not supported. -/
def lowerEntries (names : NameTable) (done : List NodeId) :
    List (Element Expr) → Lower (List NodeId)
  | [] => pure done.reverse
  | ⟨some key, _⟩ :: _ => unsupported "keyed array element" key.span
  | ⟨none, value⟩ :: entries => do
    let id ← lower names value
    lowerEntries names (id :: done) entries

end

end ExprCore
