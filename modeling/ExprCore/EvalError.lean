import ExprCore.Diagnostic
import ExprCore.Operator.Basic

/-!
# Errors of evaluation

Why an evaluation fails. The cause and its text are fixed when the error is raised; the place is
that of the innermost construct under evaluation that has one.

## Main definitions

- `EvalErrorKind`: the causes, with `EvalErrorKind.message` as their text
- `EvalError`: an error with its place and notes
- `EvalError.attachSpan`: give an error a place unless it has one
- `EvalError.divisionByZero` and the like: the errors by cause

## Main statements

- `EvalError.attachSpan_of_span`, `EvalError.attachSpan_dummy`: attaching a place changes neither an
  error that has one nor anything when there is no place to attach
-/

namespace ExprCore

/-- The causes of failed evaluations. Types of values are given by name. -/
inductive EvalErrorKind where
  | divisionByZero
  /-- A shift by a negative number of bits. -/
  | negativeShift (amount : Int64)
  /-- A value of one type where another type is wanted. -/
  | typeMismatch (expected got : String)
  /-- An operator on two values that it does not take. -/
  | binaryTypeMismatch (op : BinaryOp) (left right : String)
  /-- An operator on one value that it does not take. -/
  | invalidUnaryOp (op : UnaryOp) (typeName : String)
  | undefinedVariable (name : String)
  | undefinedFunction (name : String)
  | indexOutOfRange (index : Int64) (length : Nat)
  | custom (message : String)
deriving DecidableEq, Repr

namespace EvalErrorKind

/-- The code of a cause. -/
def code : EvalErrorKind → ErrorCode
  | undefinedVariable _ => .undefinedVariable
  | undefinedFunction _ => .undefinedFunction
  | divisionByZero => .divisionByZero
  | typeMismatch .. | binaryTypeMismatch .. | invalidUnaryOp .. => .typeMismatch
  | indexOutOfRange .. => .indexOutOfRange
  | negativeShift _ => .negativeShift
  | custom _ => .uncategorized

/-- The text of a cause. -/
def message : EvalErrorKind → String
  | divisionByZero => "division by zero"
  | negativeShift amount => s!"bit shift by negative number {amount.toInt}"
  | typeMismatch expected got => s!"type mismatch: expected {expected}, got {got}"
  | binaryTypeMismatch op left right => s!"unsupported operand types: {left} {op.symbol} {right}"
  | invalidUnaryOp op typeName => s!"unsupported operand type for unary {op.symbol}: {typeName}"
  | undefinedVariable name => s!"undefined variable: ${name}"
  | undefinedFunction name => s!"call to undefined function {name}()"
  | indexOutOfRange index length =>
    s!"index {index.toInt} out of range for array of length {length}"
  | custom message => message

theorem isRuntime_code (k : EvalErrorKind) : k.code.isRuntime = true := by
  cases k <;> rfl

end EvalErrorKind

/-- A failed evaluation. -/
structure EvalError where
  kind : EvalErrorKind
  message : String
  span : Option Span
  /-- Further remarks, oldest first. -/
  notes : List String
deriving DecidableEq, Repr

namespace EvalError

/-- The error of a cause, without a place and without notes. -/
def ofKind (kind : EvalErrorKind) : EvalError := ⟨kind, kind.message, none, []⟩

/-- An error without a cause of its own, given by its text. -/
def new (message : String) : EvalError := ofKind (.custom message)

def divisionByZero : EvalError := ofKind .divisionByZero

/-- A shift by a negative number of bits. -/
def negativeShift (amount : Int64) : EvalError := ofKind (.negativeShift amount)

/-- A value of one type where another type is wanted. -/
def typeMismatch (expected got : String) : EvalError := ofKind (.typeMismatch expected got)

/-- An operator on two values that it does not take. -/
def binaryTypeMismatch (op : BinaryOp) (left right : String) : EvalError :=
  ofKind (.binaryTypeMismatch op left right)

/-- An operator on one value that it does not take. -/
def invalidUnaryOp (op : UnaryOp) (typeName : String) : EvalError :=
  ofKind (.invalidUnaryOp op typeName)

def undefinedVariable (name : String) : EvalError := ofKind (.undefinedVariable name)

def undefinedFunction (name : String) : EvalError := ofKind (.undefinedFunction name)

def indexOutOfRange (index : Int64) (length : Nat) : EvalError :=
  ofKind (.indexOutOfRange index length)

/-- Access to an element of something that is no array. -/
def cannotIndex (typeName : String) : EvalError := typeMismatch "array" typeName

/-- A value that denotes no position. -/
def invalidIndex (typeName : String) : EvalError := typeMismatch "int" typeName

/-- Set the place of an error, whether or not it has one. -/
def withSpan (e : EvalError) (span : Span) : EvalError := { e with span := some span }

/-- Give an error a place unless it has one. The dummy span is no place. -/
def attachSpan (e : EvalError) (span : Span) : EvalError :=
  if e.span.isNone && !span.isDummy then { e with span := some span } else e

/-- Add a note behind the others. -/
def withNote (e : EvalError) (note : String) : EvalError := { e with notes := e.notes ++ [note] }

def text (e : EvalError) : String :=
  match e.span with
  | some span => s!"{e.message} at {span}"
  | none => e.message

instance : ToString EvalError := ⟨text⟩

def diagnostic (e : EvalError) : Diagnostic :=
  let report := Diagnostic.new e.kind.code e.message
  let report :=
    match e.span with
    | some span => report.withLabel span "evaluation failed here"
    | none => report
  e.notes.foldl Diagnostic.withNote report

theorem attachSpan_of_span {e : EvalError} {s t : Span} (h : e.span = some s) :
    e.attachSpan t = e := by
  simp [attachSpan, h]

/-- There is nothing to attach where there is no place. -/
@[simp] theorem attachSpan_dummy (e : EvalError) : e.attachSpan .dummy = e := by
  simp [attachSpan, Span.isDummy]

@[simp] theorem kind_attachSpan (e : EvalError) (s : Span) : (e.attachSpan s).kind = e.kind := by
  unfold attachSpan
  split <;> rfl

@[simp] theorem message_attachSpan (e : EvalError) (s : Span) :
    (e.attachSpan s).message = e.message := by
  unfold attachSpan
  split <;> rfl

@[simp] theorem notes_attachSpan (e : EvalError) (s : Span) : (e.attachSpan s).notes = e.notes := by
  unfold attachSpan
  split <;> rfl

end EvalError

end ExprCore
