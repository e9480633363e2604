import ExprCore.Compilation
import ExprCore.Proofs.Growth

/-!
# Compilation behind other code

Compilation never looks at the code that is there already, it only goes on behind it. What it adds
there is what it makes in empty code, with every reference moved on by the size of what stands in
front. The scope it leaves and the error it stops with are the same.

Both this and the fact that compilation does nothing but store hold because all steps of compilation
have a property that is kept when steps are put together. The induction over the source is done
once, for every such property.

## Main definitions

- `Code.append`: code behind other code
- `NodeId.behind`, `Segment.behind`, `Node.behind`, `LowerState.behind`: the same node, list,
  instruction or state with other code in front
- `Lower.Compositional`: a relation between steps of compilation that is kept by putting steps
  together
- `Lower.Moves`: a step does the same behind other code

## Main statements

- `Lower.Compositional.lower`: what all steps have in common holds of compilation
- `Lower.moves_lower`: compilation does the same behind other code
-/

namespace ExprCore

/-- The node that `id` is when `base` stands in front of its code. -/
def NodeId.behind (base : Code) (id : NodeId) : NodeId := ⟨base.size + id.index⟩

/-- The segment of the same list when `base` stands in front of its pool. The empty list takes no
room and stays at the very start. -/
def Segment.behind {α : Type} (base : Pool α) (r : Segment) : Segment :=
  if r.length = 0 then r else ⟨base.size + r.start, r.length⟩

def Node.behind (base : Code) : Node → Node
  | int value => int value
  | float bits => float bits
  | bool value => bool value
  | var name slot => var name slot
  | assign slot value => assign slot (value.behind base)
  | step slot delta fixity => step slot delta fixity
  | unary op operand => unary op (operand.behind base)
  | binary op left right => binary op (left.behind base) (right.behind base)
  | list items => list (items.behind base.lists)
  | index target position => index (target.behind base) (position.map (·.behind base))
  | storeElement target position value =>
    storeElement (target.behind base) (position.map (·.behind base)) (value.behind base)
  | call name scope arguments => call name scope (arguments.behind base.lists)
  | unset slots => unset (slots.behind base.slots)
  | sequence items => sequence (items.behind base.lists)

/-- The lists of `p`, and then those of `q`. -/
def Pool.append {α : Type} (p q : Pool α) : Pool α := ⟨p.entries ++ q.entries⟩

def Pool.map {α β : Type} (f : α → β) (p : Pool α) : Pool β := ⟨p.entries.map f⟩

namespace Code

/-- The nodes and lists of `base`, and then those of `c`. -/
def append (base c : Code) : Code where
  nodes := base.nodes ++ c.nodes.map fun node => ⟨node.item.behind base, node.span⟩
  lists := base.lists.append (c.lists.map (·.behind base))
  slots := base.slots.append c.slots

variable {base c : Code}

@[simp] theorem append_empty (base : Code) : base.append empty = base := by
  simp [append, empty, Pool.append, Pool.map, Pool.empty]

theorem size_append (base c : Code) : (base.append c).size = base.size + c.size := by
  simp [append, size]

theorem get?_append (base c : Code) (id : NodeId) :
    (base.append c).get? (id.behind base)
      = (c.get? id).map fun node => ⟨node.item.behind base, node.span⟩ := by
  simp only [append, get?, NodeId.behind, size]
  rw [Array.getElem?_append_right (Nat.le_add_right _ _), Nat.add_sub_cancel_left,
    Array.getElem?_map]

theorem extends_append (base c : Code) : base.Extends (base.append c) where
  nodes := by
    show base.nodes.toList <+: (base.nodes ++ _).toList
    rw [Array.toList_append]
    exact List.prefix_append _ _
  lists := by
    show base.lists.entries.toList <+: (base.lists.entries ++ _).toList
    rw [Array.toList_append]
    exact List.prefix_append _ _
  slots := by
    show base.slots.entries.toList <+: (base.slots.entries ++ _).toList
    rw [Array.toList_append]
    exact List.prefix_append _ _

end Code

namespace Pool

variable {α : Type} {p q : Pool α} {r : Segment}

theorem size_append (p q : Pool α) : (p.append q).size = p.size + q.size := Array.size_append

theorem append_add (p q : Pool α) (items : List α) :
    (p.append q).add items = ((q.add items).1.behind p, p.append (q.add items).2) := by
  cases items with
  | nil => rfl
  | cons a as =>
    have hassoc : p.entries ++ q.entries ++ (a :: as) = p.entries ++ (q.entries ++ (a :: as)) := by
      apply Array.ext'
      simp only [Array.toList_append, Array.toList_appendList, List.append_assoc]
    simp only [add, append, size, Segment.behind, List.isEmpty_cons, Bool.false_eq_true, if_false,
      List.length_cons, Nat.add_one_ne_zero, Array.size_append, hassoc]

theorem read_append (p q : Pool α) (r : Segment) : (p.append q).read (r.behind p) = q.read r := by
  by_cases h : r.length = 0
  · simp [read_eq, Segment.behind, h]
  · simp only [read_eq, Segment.behind, if_neg h, append, size, Array.toList_append,
      ← Array.length_toList, List.drop_length_add_append]

theorem map_add {β : Type} (f : α → β) (p : Pool α) (items : List α) :
    (p.map f).add (items.map f) = ((p.add items).1, (p.add items).2.map f) := by
  cases items with
  | nil => rfl
  | cons a as =>
    have hmap : p.entries.map f ++ (f a :: as.map f) = (p.entries ++ (a :: as)).map f := by
      apply Array.ext'
      simp only [Array.toList_appendList, Array.toList_map, List.map_append, List.map_cons]
    simp only [add, map, size, List.map_cons, List.isEmpty_cons, Bool.false_eq_true, if_false,
      List.length_cons, List.length_map, Array.size_map, hmap]

theorem read_map {β : Type} (f : α → β) (p : Pool α) (r : Segment) :
    (p.map f).read r = (p.read r).map f := by
  simp only [read_eq, map, Array.toList_map, List.map_take, List.map_drop]

theorem size_map {β : Type} (f : α → β) (p : Pool α) : (p.map f).size = p.size := Array.size_map

theorem within_append (h : q.Within r) : (p.append q).Within (r.behind p) := by
  unfold Within Segment.stop at h ⊢
  rw [size_append]
  unfold Segment.behind
  split
  · omega
  · show p.size + r.start + r.length ≤ p.size + q.size
    omega

end Pool

namespace Code

variable (base c : Code)

theorem append_add (node : Node) (span : Span) :
    (base.append c).add (node.behind base) span
      = ((c.add node span).1.behind base, base.append (c.add node span).2) := by
  simp only [add, size_append, NodeId.behind]
  simp only [append, Array.map_push, Array.append_push]

theorem append_addList (ids : List NodeId) :
    (base.append c).addList (ids.map (·.behind base))
      = ((c.addList ids).1.behind base.lists, base.append (c.addList ids).2) := by
  simp only [addList, append, Pool.map_add, Pool.append_add]

theorem append_addSlots (slots : List Slot) :
    (base.append c).addSlots slots
      = ((c.addSlots slots).1.behind base.slots, base.append (c.addSlots slots).2) := by
  simp only [addSlots, append, Pool.append_add]

end Code

def LowerState.behind (base : Code) (s : LowerState) : LowerState := ⟨s.scope, base.append s.code⟩

namespace Lower

/-- A relation between steps of compilation, of which the second ones have `base` in front of their
code, that holds of the single steps and is kept by putting steps together. The function says what
becomes of the result of the first step. -/
structure Compositional (base : Code) (R : ∀ {α : Type}, (α → α) → Lower α → Lower α → Prop) :
    Prop where
  pure {α : Type} (f : α → α) (a : α) : R f (pure a) (pure (f a))
  throw {α : Type} (f : α → α) (e : CompileError) : R f (throw e) (throw e)
  bind {α β : Type} {f : α → α} {g : β → β} {x y : Lower α} {k l : α → Lower β} (hx : R f x y)
    (hk : ∀ a, R g (k a) (l (f a))) : R g (x >>= k) (y >>= l)
  get : R (LowerState.behind base) get get
  emit (node : Node) (span : Span) :
    R (NodeId.behind base) (emit node span) (emit (node.behind base) span)
  emitList (ids : List NodeId) :
    R (Segment.behind base.lists) (emitList ids) (emitList (ids.map (·.behind base)))
  emitSlots (slots : List Slot) :
    R (Segment.behind base.slots) (emitSlots slots) (emitSlots slots)
  define (name : Name) : R id (define name) (define name)
  find? (name : Name) : R id (find? name) (find? name)
  scopeId : R id scopeId scopeId

namespace Compositional

variable {base : Code} {R : ∀ {α : Type}, (α → α) → Lower α → Lower α → Prop}
  (hR : Compositional base R)

include hR

theorem lowerScalar (names : NameTable) (kind : ScalarKind) (text : Name) (span : Span) :
    R (NodeId.behind base) (lowerScalar names kind text span)
      (ExprCore.lowerScalar names kind text span) := by
  unfold ExprCore.lowerScalar
  cases scalarLiteral kind (names.text text) span with
  | ok literal => cases literal <;> exact hR.emit _ _
  | error e => exact hR.throw _ e

theorem lowerStep (fixity : Fixity) (token : StepToken) (operand : Expr) (span : Span) :
    R (NodeId.behind base) (lowerStep fixity token operand span)
      (ExprCore.lowerStep fixity token operand span) := by
  unfold ExprCore.lowerStep
  cases operand.varName? with
  | none => exact hR.throw _ _
  | some name => exact hR.bind (hR.define name) fun slot => hR.emit _ _

theorem lowerUnset (arguments : List Expr) (span : Span) :
    R (NodeId.behind base) (lowerUnset arguments span) (ExprCore.lowerUnset arguments span) := by
  unfold ExprCore.lowerUnset
  cases arguments.find? (·.varName?.isNone) with
  | some argument => exact hR.throw _ _
  | none => exact hR.bind hR.get fun s => hR.bind (hR.emitSlots _) fun slots => hR.emit _ _

theorem lowerStored {target target' value value' : Lower NodeId}
    (htarget : R (NodeId.behind base) target target')
    (hvalue : R (NodeId.behind base) value value') (effect : AssignEffect) (span : Span) :
    R (NodeId.behind base) (lowerStored effect target value span)
      (ExprCore.lowerStored effect target' value' span) := by
  cases effect with
  | plain => exact hvalue
  | compound op => exact hR.bind htarget fun l => hR.bind hvalue fun r => hR.emit _ _

mutual

/-- What all steps have in common holds of the compilation of an expression. -/
theorem lower (names : NameTable) :
    ∀ e : Expr, R (NodeId.behind base) (lower names e) (ExprCore.lower names e)
  | .mk span (.scalar kind text) => by
    rw [ExprCore.lower]
    exact hR.lowerScalar names kind text span
  | .mk span (.var name) => by
    rw [ExprCore.lower]
    exact hR.bind (hR.find? name) fun slot => hR.emit _ _
  | .mk span (.binary token left right) => by
    rw [ExprCore.lower]
    cases token.meaning? with
    | none => exact hR.throw _ _
    | some op =>
      refine hR.bind (lower names left) fun l => ?_
      exact hR.bind (lower names right) fun r => hR.emit _ _
  | .mk span (.unary token operand) => by
    rw [ExprCore.lower]
    cases token.meaning? with
    | none => exact hR.throw _ _
    | some op => exact hR.bind (lower names operand) fun x => hR.emit _ _
  | .mk span (.step fixity token operand) => by
    rw [ExprCore.lower]
    exact hR.lowerStep fixity token operand span
  | .mk span (.assign token target value) => by
    rw [ExprCore.lower]
    cases token.effect? with
    | none => exact hR.throw _ _
    | some effect =>
      refine lowerWrite names ?_ span target
      exact hR.lowerStored (lower names target) (lower names value) effect span
  | .mk span (.array entries) => by
    rw [ExprCore.lower]
    refine hR.bind (lowerEntries names [] entries) fun items => ?_
    exact hR.bind (hR.emitList items) fun segment => hR.emit _ _
  | .mk span (.access .indexed target (some index)) => by
    rw [ExprCore.lower]
    exact hR.bind (lower names target) fun t => hR.bind (lower names index) fun k => hR.emit _ _
  | .mk span (.call name arguments) => by
    rw [ExprCore.lower]
    split
    · exact hR.lowerUnset arguments span
    · refine hR.bind (lowerAll names [] arguments) fun items => ?_
      refine hR.bind (hR.emitList items) fun segment => ?_
      exact hR.bind hR.scopeId fun id => hR.emit _ _
  | .mk span (.paren inner) => by
    rw [ExprCore.lower]
    exact lower names inner
  | .mk _ (.dynamicVar _)
  | .mk _ (.access .hashtable _ _)
  | .mk _ (.access .indexed _ none)
  | .mk _ (.dynamicCall _ _)
  | .mk _ (.conditional _ _ _)
  | .mk _ (.cast _ _)
  | .mk _ (.instanceOf _ _)
  | .mk _ .closure
  | .mk _ (.new _ _)
  | .mk _ (.quote _)
  | .mk _ .error => by
    simp only [ExprCore.lower]
    exact hR.throw _ _

theorem lowerWrite (names : NameTable) {stored stored' : Lower NodeId}
    (hstored : R (NodeId.behind base) stored stored') (span : Span) :
    ∀ target : Expr, R (NodeId.behind base) (lowerWrite names stored span target)
      (ExprCore.lowerWrite names stored' span target)
  | .mk _ (.var name) => by
    rw [ExprCore.lowerWrite, ExprCore.lowerWrite]
    exact hR.bind hstored fun v => hR.bind (hR.define name) fun slot => hR.emit _ _
  | .mk _ (.access .indexed container none) => by
    rw [ExprCore.lowerWrite, ExprCore.lowerWrite]
    exact hR.bind hstored fun v => hR.bind (lowerPlace names container) fun p => hR.emit _ _
  | .mk _ (.access .indexed container (some index)) => by
    rw [ExprCore.lowerWrite, ExprCore.lowerWrite]
    refine hR.bind hstored fun v => hR.bind (lowerPlace names container) fun p => ?_
    exact hR.bind (lower names index) fun k => hR.emit _ _
  | .mk _ (.access .hashtable _ _)
  | .mk _ (.dynamicVar _)
  | .mk _ (.scalar _ _)
  | .mk _ (.binary _ _ _)
  | .mk _ (.unary _ _)
  | .mk _ (.step _ _ _)
  | .mk _ (.assign _ _ _)
  | .mk _ (.array _)
  | .mk _ (.call _ _)
  | .mk _ (.dynamicCall _ _)
  | .mk _ (.paren _)
  | .mk _ (.conditional _ _ _)
  | .mk _ (.cast _ _)
  | .mk _ (.instanceOf _ _)
  | .mk _ .closure
  | .mk _ (.new _ _)
  | .mk _ (.quote _)
  | .mk _ .error => by
    simp only [ExprCore.lowerWrite]
    exact hR.throw _ _

theorem lowerPlace (names : NameTable) :
    ∀ e : Expr, R (NodeId.behind base) (lowerPlace names e) (ExprCore.lowerPlace names e)
  | .mk span (.var name) => by
    rw [ExprCore.lowerPlace]
    exact hR.bind (hR.define name) fun slot => hR.emit _ _
  | .mk span (.access .indexed target (some index)) => by
    rw [ExprCore.lowerPlace]
    refine hR.bind (lowerPlace names target) fun t => ?_
    exact hR.bind (lower names index) fun k => hR.emit _ _
  | .mk _ (.paren inner) => by
    rw [ExprCore.lowerPlace]
    exact lowerPlace names inner
  | .mk _ (.access .indexed _ none)
  | .mk _ (.access .hashtable _ _)
  | .mk _ (.dynamicVar _)
  | .mk _ (.scalar _ _)
  | .mk _ (.binary _ _ _)
  | .mk _ (.unary _ _)
  | .mk _ (.step _ _ _)
  | .mk _ (.assign _ _ _)
  | .mk _ (.array _)
  | .mk _ (.call _ _)
  | .mk _ (.dynamicCall _ _)
  | .mk _ (.conditional _ _ _)
  | .mk _ (.cast _ _)
  | .mk _ (.instanceOf _ _)
  | .mk _ .closure
  | .mk _ (.new _ _)
  | .mk _ (.quote _)
  | .mk _ .error => by
    simp only [ExprCore.lowerPlace]
    exact hR.throw _ _

theorem lowerAll (names : NameTable) : ∀ (done : List NodeId) (es : List Expr),
    R (List.map (·.behind base)) (lowerAll names done es)
      (ExprCore.lowerAll names (done.map (·.behind base)) es)
  | done, [] => by
    rw [ExprCore.lowerAll, ExprCore.lowerAll, ← List.map_reverse]
    exact hR.pure _ _
  | done, e :: es => by
    rw [ExprCore.lowerAll, ExprCore.lowerAll]
    exact hR.bind (lower names e) fun id => lowerAll names (id :: done) es

theorem lowerEntries (names : NameTable) : ∀ (done : List NodeId) (entries : List (Element Expr)),
    R (List.map (·.behind base)) (lowerEntries names done entries)
      (ExprCore.lowerEntries names (done.map (·.behind base)) entries)
  | done, [] => by
    rw [ExprCore.lowerEntries, ExprCore.lowerEntries, ← List.map_reverse]
    exact hR.pure _ _
  | done, ⟨some key, _⟩ :: entries => by
    rw [ExprCore.lowerEntries, ExprCore.lowerEntries]
    exact hR.throw _ _
  | done, ⟨none, value⟩ :: entries => by
    rw [ExprCore.lowerEntries, ExprCore.lowerEntries]
    exact hR.bind (lower names value) fun id => lowerEntries names (id :: done) entries

end

end Compositional

/-- The step does the same behind `base`. -/
def Moves (base : Code) {α : Type} (f : α → α) (x y : Lower α) : Prop :=
  ∀ s, y (s.behind base) =
    match x s with
    | .ok a t => .ok (f a) (t.behind base)
    | .error e t => .error e (t.behind base)

theorem moves_compositional (base : Code) : Compositional base (Moves base) where
  pure f a s := rfl
  throw f e s := rfl
  bind {α β f g x y k l} hx hk s := by
    have hfirst := hx s
    simp only [Bind.bind, EStateM.bind, hfirst]
    cases x s with
    | ok a t => exact hk a t
    | error e t => rfl
  get s := rfl
  emit node span s := by simp only [emit, LowerState.behind, Code.append_add]
  emitList ids s := by simp only [emitList, LowerState.behind, Code.append_addList]
  emitSlots slots s := by simp only [emitSlots, LowerState.behind, Code.append_addSlots]
  define name s := rfl
  find? name s := rfl
  scopeId s := rfl

theorem Moves.on_base {base : Code} {α : Type} {f : α → α} {x y : Lower α}
    (h : Moves base f x y) (scope : Scope) :
    y ⟨scope, base⟩ =
      match x ⟨scope, .empty⟩ with
      | .ok a t => .ok (f a) (t.behind base)
      | .error e t => .error e (t.behind base) := by
  have hmoves := h ⟨scope, .empty⟩
  rwa [LowerState.behind, Code.append_empty] at hmoves

/-- Compilation of an expression does the same behind other code. -/
theorem moves_lower (names : NameTable) (e : Expr) (base : Code) :
    Moves base (NodeId.behind base) (lower names e) (lower names e) :=
  (moves_compositional base).lower names e

theorem moves_lowerPlace (names : NameTable) (e : Expr) (base : Code) :
    Moves base (NodeId.behind base) (lowerPlace names e) (lowerPlace names e) :=
  (moves_compositional base).lowerPlace names e

end Lower

end ExprCore
