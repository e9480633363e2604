import ExprCore.Expr.Store
import ExprCore.Name

/-!
# Building expressions

Expressions put together bottom up, without source text. Each expression gets the span of one byte
at the position where it is stored, unless a span is given.

## Main definitions

- `Draft`: the expressions stored so far and the names in use
- `Build`: steps on a draft, which stop when a capacity is exceeded
- `Build.place`, `Build.placeAt`: store an expression; the functions behind them store one construct
  each
-/

namespace ExprCore

/-- Expressions under construction. -/
structure Draft where
  store : ExprStore
  names : NameTable

abbrev Build := StateT Draft (Except CapacityError)

namespace Build

def name (text : String) : Build Name := fun ⟨store, names⟩ => do
  let (name, names) ← names.intern text
  return (name, ⟨store, names⟩)

def placeAt (form : StoredForm) (span : Span) : Build ExprId := fun ⟨store, names⟩ => do
  let (id, store) ← store.add form span
  return (id, ⟨store, names⟩)

def place (form : StoredForm) : Build ExprId := fun ⟨store, names⟩ => do
  let size := store.size
  let (id, store) ← store.add form (.ofStartLength size 1)
  return (id, ⟨store, names⟩)

def list (ids : List ExprId) : Build Segment := fun ⟨store, names⟩ => do
  let (segment, store) ← store.addList ids
  return (segment, ⟨store, names⟩)

def entries (items : List (Element ExprId)) : Build Segment := fun ⟨store, names⟩ => do
  let (segment, store) ← store.addElements items
  return (segment, ⟨store, names⟩)

/-- Store a copy of an expression with a span of its own. A reference to nothing is copied as the
placeholder. -/
def copyAt (id : ExprId) (span : Span) : Build ExprId := fun ⟨store, names⟩ =>
  placeAt (((store.get? id).map Located.item).getD .error) span ⟨store, names⟩

def scalar (kind : ScalarKind) (text : String) : Build ExprId := do
  place (.scalar kind (← name text))

def var (text : String) : Build ExprId := do
  place (.var (← name text))

def array (items : List (Element ExprId)) : Build ExprId := do
  place (.array (← entries items))

/-- An array literal without keys. -/
def arrayOf (items : List ExprId) : Build ExprId := array (items.map (⟨none, ·⟩))

def call (text : String) (arguments : List ExprId) : Build ExprId := do
  let name ← name text
  place (.call name (← list arguments))

def dynamicCall (callee : ExprId) (arguments : List ExprId) : Build ExprId := do
  place (.dynamicCall callee (← list arguments))

def cast (type : String) (operand : ExprId) : Build ExprId := do
  place (.cast (← name type) operand)

def instanceOf (operand : ExprId) (className : String) : Build ExprId := do
  place (.instanceOf operand (← name className))

def new (className : String) (arguments : List ExprId) : Build ExprId := do
  let name ← name className
  place (.new name (← list arguments))

end Build

end ExprCore
