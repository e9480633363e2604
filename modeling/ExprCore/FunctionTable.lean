import ExprCore.Case
import ExprCore.Numbering
import ExprCore.Registry
import ExprCore.Text.Quoted

/-!
# Tables of native functions

A registry that is filled function by function. Names match whatever the case of their letters,
the last definition of a name counts, and a name keeps the number of its first definition.

## Main definitions

- `NativeFunction`: a function on the evaluated arguments of a call
- `FunctionTable`: the functions with the numbers of their names
- `FunctionTable.define`: enter a function
- `FunctionTable.lookup`, `FunctionTable.invoke`, `FunctionTable.registry`: the table as a registry

## Main statements

- `FunctionTable.lookup_define_self`, `FunctionTable.lookup_define_of_ne`: a definition gives its
  own name a function and leaves the other names alone
- `FunctionTable.invoke_define_self`: the function defined last is the one that runs
-/

namespace ExprCore

abbrev NativeFunction := List Value → Except EvalError Value

/-- Functions by number, with the numbers of their names. -/
structure FunctionTable where
  /-- The names in small letters, numbered in order of first definition. -/
  names : Numbering String
  functions : List NativeFunction
  /-- Every name has a function. -/
  aligned : functions.length = names.size

namespace FunctionTable

/-- The table without functions. -/
def empty : FunctionTable := ⟨.empty, [], rfl⟩

def size (t : FunctionTable) : Nat := t.functions.length

/-- Give a name a function. A name that has one gets the new one under the old number. -/
def define (t : FunctionTable) (name : String) (f : NativeFunction) :
    CallTarget × FunctionTable :=
  match h : t.names.number? (foldCase name) with
  | some i => (⟨i⟩, ⟨t.names, t.functions.set i f, by simpa using t.aligned⟩)
  | none =>
    (⟨t.size⟩, ⟨(t.names.insert (foldCase name)).2, t.functions ++ [f], by
      simp [Numbering.insert_of_none h, t.aligned, Numbering.size]⟩)

def lookup (t : FunctionTable) (name : String) : Option CallTarget :=
  (t.names.number? (foldCase name)).map CallTarget.mk

/-- The result of running a function. -/
def invoke (t : FunctionTable) (target : CallTarget) (arguments : List Value) :
    Except EvalError Value :=
  match t.functions[target.index]? with
  | some f => f arguments
  | none => .error (.unknownTarget target)

/-- The table as a registry that shows its functions in every scope. -/
def registry (t : FunctionTable) : Registry where
  lookup _ name _ := t.lookup name
  invoke _ target arguments := t.invoke target arguments

def describe (t : FunctionTable) : String :=
  "FunctionTable \x7b functions: [" ++ ", ".intercalate (t.names.items.map quoted) ++ "] \x7d"

/-- The number that a definition returns is the number of its name. -/
@[simp] theorem lookup_define_self (t : FunctionTable) (name : String) (f : NativeFunction) :
    (t.define name f).2.lookup name = some (t.define name f).1 := by
  unfold define
  split
  · rename_i i h
    simp [lookup, h]
  · rename_i h
    have hself := Numbering.number?_insert_self t.names (foldCase name)
    have hnumber : (t.names.insert (foldCase name)).1 = t.size := by
      simp [Numbering.insert_of_none h, size, t.aligned]
    simp [lookup, hself, hnumber]

/-- A definition changes the meaning of no name that differs in more than case. -/
theorem lookup_define_of_ne {t : FunctionTable} {name other : String} (f : NativeFunction)
    (h : foldCase other ≠ foldCase name) : (t.define name f).2.lookup other = t.lookup other := by
  unfold define
  split
  · rfl
  · simp [lookup, Numbering.number?_insert_of_ne h]

/-- The function defined last is the one that runs. -/
theorem invoke_define_self (t : FunctionTable) (name : String) (f : NativeFunction)
    (arguments : List Value) :
    (t.define name f).2.invoke (t.define name f).1 arguments = f arguments := by
  unfold define
  split
  · rename_i i h
    have hi : i < t.functions.length := by
      rw [t.aligned]
      exact Numbering.lt_size_of_number? h
    simp [invoke, hi]
  · simp [invoke, size]

end FunctionTable

end ExprCore
