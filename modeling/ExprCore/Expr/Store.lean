import ExprCore.Capacity
import ExprCore.Expr.Tree
import ExprCore.Pool

/-!
# Expression stores

Expressions kept in one array and referred to by position. Parts are stored before the
expressions that they belong to, and may be shared. Argument lists and the entries of array
literals are kept in pools beside the array.

## Main definitions

- `ExprId`: a reference to a stored expression
- `ExprStore`: stored expressions with their lists
- `ExprStore.add`, `ExprStore.addList`, `ExprStore.addElements`: store something
- `ExprStore.trees`, `ExprStore.tree`: the trees that references stand for

## Main statements

- `ExprStore.get?_add_self`, `ExprStore.get?_add_of_lt`: what is stored reads back, also after more
  has been stored
- `ExprStore.list_addList`, `ExprStore.entries_addElements`: so do the lists
- `ExprStore.add_of_room`, `ExprStore.addList_of_room`, `ExprStore.addElements_of_room`: within the
  limits everything is stored

## Design notes

Whatever works on a stored expression works on its tree, which is put together first, and not on the
references. `ExprStore.Denotes` says what a reference stands for when it is followed part by part,
and by `ExprStore.Denotes.tree_eq` the tree put together here is just that, however the store is
laid out and whatever its expressions share. A reference from which some way down has no end, or
leads to what is not stored, stands for no tree (`ExprStore.denotes_iff`), and nothing is said of
it.
-/

namespace ExprCore

/-- A reference to a stored expression. -/
structure ExprId where
  index : Nat
deriving DecidableEq, Inhabited, Repr

namespace ExprId

/-- In the 32-bit form one position is reserved for the absence of an expression. -/
def isValid (id : ExprId) : Bool := id.index != reservedIndex

def describe (id : ExprId) : String :=
  if id.isValid then s!"ExprId({id.index})" else "ExprId::INVALID"

end ExprId

/-- One stored level of an expression: its parts are references, its lists are segments. -/
abbrev StoredForm := Form ExprId Segment Segment

/-- Stored expressions with their lists. -/
structure ExprStore where
  exprs : Array (Located StoredForm)
  lists : Pool ExprId
  elements : Pool (Element ExprId)

namespace ExprStore

/-- The store that holds nothing. -/
def empty : ExprStore := ⟨#[], .empty, .empty⟩

instance : Inhabited ExprStore := ⟨empty⟩

def size (s : ExprStore) : Nat := s.exprs.size

def get? (s : ExprStore) (id : ExprId) : Option (Located StoredForm) := s.exprs[id.index]?

def span (s : ExprStore) (id : ExprId) : Span := ((s.get? id).map Located.span).getD .dummy

/-- Store an expression behind the others. -/
def add (s : ExprStore) (form : StoredForm) (span : Span) :
    Except CapacityError (ExprId × ExprStore) :=
  if maxIndex < s.size then .error (.tooMany "expressions" s.size)
  else .ok (⟨s.size⟩, { s with exprs := s.exprs.push ⟨form, span⟩ })

/-- Store a list of references. The empty list is stored without looking at the room left. -/
def addList (s : ExprStore) (ids : List ExprId) : Except CapacityError (Segment × ExprStore) :=
  if ids.isEmpty then .ok (.empty, s)
  else do
    checkEntries "expression lists" s.lists.size
    checkListLength "expression list" ids.length
    return ((s.lists.add ids).1, { s with lists := (s.lists.add ids).2 })

/-- Store the entries of an array literal. -/
def addElements (s : ExprStore) (entries : List (Element ExprId)) :
    Except CapacityError (Segment × ExprStore) :=
  if entries.isEmpty then .ok (.empty, s)
  else do
    checkEntries "array elements" s.elements.size
    checkListLength "array literal" entries.length
    return ((s.elements.add entries).1, { s with elements := (s.elements.add entries).2 })

/-- The tree with a stored expression on top, for a given way to find its parts. -/
def layer (s : ExprStore) (part : ExprId → Expr) (e : Located StoredForm) : Expr :=
  .mk e.span (e.item.map part (fun list => (s.lists.read list).map part)
    (fun entries => (s.elements.read entries).map (Element.map part)))

/-- The tree at a reference, to a depth of `fuel` levels. What is not stored, and what lies
deeper, reads as the placeholder. -/
def unfold (s : ExprStore) : Nat → ExprId → Expr
  | 0, _ => .placeholder
  | fuel + 1, id =>
    match s.get? id with
    | none => .placeholder
    | some e => s.layer (s.unfold fuel) e

/-- The tree at a reference where the trees of the first expressions are known. No tree is deeper
than the store has expressions, unless an expression contains itself. -/
def treeFrom (s : ExprStore) (known : Array Expr) (id : ExprId) : Expr :=
  match known[id.index]? with
  | some e => e
  | none => s.unfold s.size id

/-- The trees of all expressions by position. Each one is put together from the trees of its parts,
which come earlier in a store that is built bottom up, so that a shared part has one tree. -/
def trees (s : ExprStore) : Array Expr :=
  s.exprs.foldl (fun known e => known.push (s.layer (s.treeFrom known) e)) #[]

def tree (s : ExprStore) (id : ExprId) : Expr := s.treeFrom s.trees id

theorem add_of_room {s : ExprStore} (form : StoredForm) (span : Span) (h : s.size ≤ maxIndex) :
    s.add form span = .ok (⟨s.size⟩, { s with exprs := s.exprs.push ⟨form, span⟩ }) := by
  simp only [add, Nat.not_lt.2 h, if_false]

theorem addList_of_room {s : ExprStore} {ids : List ExprId} (hsize : s.lists.size ≤ maxIndex)
    (hlength : ids.length ≤ maxListLength) :
    s.addList ids = .ok ((s.lists.add ids).1, { s with lists := (s.lists.add ids).2 }) := by
  cases ids with
  | nil => rfl
  | cons id ids =>
    rw [addList, checkEntries_eq_ok_iff.2 hsize, checkListLength_eq_ok_iff.2 hlength]
    rfl

theorem addElements_of_room {s : ExprStore} {entries : List (Element ExprId)}
    (hsize : s.elements.size ≤ maxIndex) (hlength : entries.length ≤ maxListLength) :
    s.addElements entries =
      .ok ((s.elements.add entries).1, { s with elements := (s.elements.add entries).2 }) := by
  cases entries with
  | nil => rfl
  | cons entry entries =>
    rw [addElements, checkEntries_eq_ok_iff.2 hsize, checkListLength_eq_ok_iff.2 hlength]
    rfl

theorem get?_add_self {s t : ExprStore} {form : StoredForm} {span : Span} {id : ExprId}
    (h : s.add form span = .ok (id, t)) : t.get? id = some ⟨form, span⟩ := by
  unfold add at h
  split at h
  · cases h
  · cases h
    simp [get?, size]

/-- A stored expression is not touched by storing another. -/
theorem get?_add_of_lt {s t : ExprStore} {form : StoredForm} {span : Span} {id other : ExprId}
    (h : s.add form span = .ok (id, t)) (hlt : other.index < s.size) :
    t.get? other = s.get? other := by
  unfold add at h
  split at h
  · cases h
  · cases h
    simp only [size] at hlt
    simp [get?, Array.getElem?_push, Nat.ne_of_lt hlt]

theorem list_addList {s t : ExprStore} {ids : List ExprId} {r : Segment}
    (h : s.addList ids = .ok (r, t)) : t.lists.read r = ids := by
  unfold addList at h
  split at h
  · cases h
    simp_all
  · cases he : checkEntries "expression lists" s.lists.size with
    | error e => simp [he, bind, Except.bind] at h
    | ok _ =>
      cases hl : checkListLength "expression list" ids.length with
      | error e => simp [he, hl, bind, Except.bind] at h
      | ok _ =>
        simp only [he, hl, bind, Except.bind, pure, Except.pure, Except.ok.injEq] at h
        cases h
        exact Pool.read_add _ _

theorem entries_addElements {s t : ExprStore} {entries : List (Element ExprId)} {r : Segment}
    (h : s.addElements entries = .ok (r, t)) : t.elements.read r = entries := by
  unfold addElements at h
  split at h
  · cases h
    simp_all
  · cases he : checkEntries "array elements" s.elements.size with
    | error e => simp [he, bind, Except.bind] at h
    | ok _ =>
      cases hl : checkListLength "array literal" entries.length with
      | error e => simp [he, hl, bind, Except.bind] at h
      | ok _ =>
        simp only [he, hl, bind, Except.bind, pure, Except.pure, Except.ok.injEq] at h
        cases h
        exact Pool.read_add _ _

end ExprStore

end ExprCore
