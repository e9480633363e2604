import ExprCore.Diagnostic

/-!
# Errors of compilation

Why an expression is not compiled. Each cause has the place of the offending construct.

## Main definitions

- `CompileError`: the causes
- `CompileError.message`, `CompileError.diagnostic`: the text and the report of an error
-/

namespace ExprCore

/-- The kinds of numbers whose text can be malformed. -/
inductive NumeralKind where
  | integer
  | float
deriving DecidableEq, Repr

/-- The name of a kind of number in messages. -/
def NumeralKind.text : NumeralKind → String
  | integer => "integer"
  | float => "float"

/-- Why an expression is not compiled. -/
inductive CompileError where
  /-- A construct or operator that is not supported. -/
  | unsupported (construct : String) (span : Span)
  /-- Assignment to something that is neither a variable nor an element. -/
  | invalidTarget (construct : String) (span : Span)
  /-- An argument of `unset` that is no plain variable. -/
  | invalidUnset (construct : String) (span : Span)
  | malformed (kind : NumeralKind) (text : String) (span : Span)
deriving DecidableEq, Repr

namespace CompileError

/-- The text of an error. -/
def message : CompileError → String
  | unsupported construct _ => s!"unsupported construct: {construct}"
  | invalidTarget construct _ => s!"cannot assign to {construct}"
  | invalidUnset construct _ => s!"unset() argument must be a variable, found {construct}"
  | malformed kind text _ => s!"malformed {kind.text} literal `{text}`"

/-- The place of the offending construct. -/
def span : CompileError → Span
  | unsupported _ s | invalidTarget _ s | invalidUnset _ s | malformed _ _ s => s

/-- The code of an error. -/
def code : CompileError → ErrorCode
  | unsupported .. => .unsupportedConstruct
  | invalidTarget .. => .invalidAssignmentTarget
  | invalidUnset .. => .invalidUnsetArgument
  | malformed .. => .malformedLiteral

/-- What is said about the place of the offending construct. -/
def remark : CompileError → String
  | unsupported .. => "not supported here"
  | invalidTarget .. => "not assignable"
  | invalidUnset .. => "expected a variable"
  | malformed .. => "invalid literal"

def diagnostic (e : CompileError) : Diagnostic :=
  (Diagnostic.new e.code e.message).withLabel e.span e.remark

theorem isCompile_code (e : CompileError) : e.code.isCompile = true := by
  cases e <;> rfl

end CompileError

end ExprCore
