import ExprCore.Span

/-!
# Diagnostics

Reports of errors from compilation and evaluation. A report carries a code, a message, at most one
place in the source and any number of notes.

## Main definitions

- `ErrorCode`: the codes, with the phase that each belongs to
- `Diagnostic`: a report
- `Diagnostic.render`: the text of a report, one line for each part
-/

namespace ExprCore

/-- The code of an error. -/
inductive ErrorCode where
  /-- A construct or operator that is not supported. -/
  | unsupportedConstruct
  /-- Assignment to something that cannot be assigned to. -/
  | invalidAssignmentTarget
  /-- An argument of `unset` that is no plain variable. -/
  | invalidUnsetArgument
  /-- Literal text that is no number. -/
  | malformedLiteral
  | undefinedVariable
  | undefinedFunction
  | divisionByZero
  | typeMismatch
  | indexOutOfRange
  /-- A shift by a negative number of bits. -/
  | negativeShift
  | uncategorized
deriving DecidableEq, Repr

namespace ErrorCode

/-- The written form of a code. The first digit tells the phase. -/
def text : ErrorCode → String
  | unsupportedConstruct => "E1001"
  | invalidAssignmentTarget => "E1002"
  | invalidUnsetArgument => "E1003"
  | malformedLiteral => "E1004"
  | undefinedVariable => "E6001"
  | undefinedFunction => "E6002"
  | divisionByZero => "E6003"
  | typeMismatch => "E6004"
  | indexOutOfRange => "E6005"
  | negativeShift => "E6006"
  | uncategorized => "E6099"

/-- Whether the error arises while compiling. -/
def isCompile : ErrorCode → Bool
  | unsupportedConstruct | invalidAssignmentTarget | invalidUnsetArgument | malformedLiteral => true
  | _ => false

def isRuntime (c : ErrorCode) : Bool := !c.isCompile

/-- Every code in the order of its written form. -/
def all : List ErrorCode :=
  [unsupportedConstruct, invalidAssignmentTarget, invalidUnsetArgument, malformedLiteral,
    undefinedVariable, undefinedFunction, divisionByZero, typeMismatch, indexOutOfRange,
    negativeShift, uncategorized]

def ofText? (text : String) : Option ErrorCode := all.find? (·.text == text)

end ErrorCode

/-- A place in the source with a short explanation. -/
structure Label where
  span : Span
  /-- What is wrong there. -/
  message : String
deriving DecidableEq, Repr

/-- A report of an error. -/
structure Diagnostic where
  code : ErrorCode
  message : String
  /-- Where it went wrong, if that is known. -/
  label : Option Label
  /-- Further remarks, oldest first. -/
  notes : List String
deriving DecidableEq, Repr

namespace Diagnostic

/-- A report without a place and without notes. -/
def new (code : ErrorCode) (message : String) : Diagnostic := ⟨code, message, none, []⟩

/-- Point at a place. The last place wins. -/
def withLabel (d : Diagnostic) (span : Span) (message : String) : Diagnostic :=
  { d with label := some ⟨span, message⟩ }

/-- Add a note behind the others. -/
def withNote (d : Diagnostic) (note : String) : Diagnostic :=
  { d with notes := d.notes ++ [note] }

def primarySpan (d : Diagnostic) : Option Span := d.label.map Label.span

def labelText (l : Label) : String := s!"\n  at {l.span}: {l.message}"

/-- The text of a report: code and message, then the place, then one line for each note. -/
def render (d : Diagnostic) : String :=
  s!"error[{d.code.text}]: {d.message}"
    ++ (d.label.map labelText).getD ""
    ++ String.join (d.notes.map fun note => s!"\n  note: {note}")

instance : ToString Diagnostic := ⟨render⟩

end Diagnostic

end ExprCore
