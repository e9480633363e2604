import ExprCore.Lowering

/-!
# Compilation

Compiling one expression, or a list of expressions into one sequence.

## Main definitions

- `Compilation`: the code or the first error, with the scope afterwards
- `compile`: compile an expression
- `compileSequence`: compile a list of expressions

## Design notes

A reference into a store is compiled as the tree that it stands for, which is put together first
(`ExprStore.tree`). Compiling by reference, with every part looked up in the store when its turn
comes, would compile the same tree: it is the only one that the references lead to
(`ExprStore.Denotes.tree_eq`). A part that is shared is compiled once for each place where it
stands, either way.
-/

namespace ExprCore

/-- What compiling yields: code or an error, and in both cases the bindings that were made. -/
structure Compilation where
  /-- The code, or the first error. -/
  result : Except CompileError Compiled
  scope : Scope

/-- Run the steps of a compilation in a scope, starting without code. -/
def Compilation.ofLower (scope : Scope) (root : Lower NodeId) : Compilation :=
  match root.run ⟨scope, .empty⟩ with
  | .ok root s => ⟨.ok ⟨s.code, root⟩, s.scope⟩
  | .error e s => ⟨.error e, s.scope⟩

/-- What is said about an expression that is absent. -/
def CompileError.missing : CompileError := .unsupported "missing expression" .dummy

/-- Compile an expression in a scope. -/
def compile (names : NameTable) (scope : Scope) (root : Option Expr) :
    Compilation :=
  match root with
  | none => ⟨.error .missing, scope⟩
  | some e => Compilation.ofLower scope (lower names e)

/-- The span of a sequence: from its first expression to its last, if both are there. -/
def sequenceSpan (members : List (Option Expr)) : Span :=
  match members.head?, members.getLast? with
  | some (some first), some (some last) => first.span.merge last.span
  | _, _ => .dummy

/-- The nodes of the members of a sequence, behind nodes that are done, latest first. -/
def lowerMembers (names : NameTable) (done : List NodeId) :
    List (Option Expr) → Lower (List NodeId)
  | [] => pure done.reverse
  | none :: _ => throw .missing
  | some e :: members => do
    let id ← lower names e
    lowerMembers names (id :: done) members

def lowerSequence (names : NameTable) (members : List (Option Expr)) : Lower NodeId := do
  let items ← lowerMembers names [] members
  let segment ← Lower.emitList items
  Lower.emit (.sequence segment) (sequenceSpan members)

/-- Compile a list of expressions into one sequence. A list that is longer than every stored list
is not looked at. -/
def compileSequence (names : NameTable) (scope : Scope) (members : List (Option Expr)) :
    Compilation :=
  if maxListLength < members.length then
    ⟨.error (.unsupported s!"expression list of {members.length} entries" (sequenceSpan members)),
      scope⟩
  else Compilation.ofLower scope (lowerSequence names members)

/-- Where there is no expression, nothing is compiled and nothing is bound. -/
@[simp] theorem compile_none (names : NameTable) (scope : Scope) :
    compile names scope none = ⟨.error .missing, scope⟩ := rfl

end ExprCore
