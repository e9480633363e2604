import ExprCore.Proofs.Relocation
import ExprCore.Proofs.Steps

/-!
# Compound assignment as an abbreviation

A compound assignment combines the old content of its target with a value and stores the result. It
is compiled exactly as the plain assignment that spells this out, whatever the target is: the code
is the same but for the span of the node that combines the two, and so are the errors.

Compilation makes no use of the spans that are there already, so the two stay the same but for that
span while the target is compiled.

## Main definitions

- `Code.respan`: the same code with another span for one node
- `Lower.IgnoresSpans`: a step of compilation that makes no use of the spans that are there
- `Lower.AgreesUpToSpan`: two steps of compilation that differ in the span of one node at most
- `Compilation.AgreesUpToSpan`: the same for two compilations

## Main statements

- `Lower.ignoresSpans_lower`: compilation does not look at the spans that are there
- `compound_assignment_is_expansion`: `t op= e` is compiled like `t = t op e`
-/

namespace ExprCore

namespace Code

variable {c base : Code} {id : NodeId} {span : Span}

/-- The same nodes and lists, but that one node has another span. -/
def respan (c : Code) (id : NodeId) (span : Span) : Code :=
  { c with nodes := c.nodes.modify id.index fun node => ⟨node.item, span⟩ }

@[simp] theorem size_respan : (c.respan id span).size = c.size := Array.size_modify

/-- Giving the node that was added last another span is adding it with that span. -/
theorem add_respan (c : Code) (node : Node) (span span' : Span) :
    (c.add node span').2 = (c.add node span).2.respan ⟨c.size⟩ span' := by
  simp only [respan, add, mk.injEq, and_true]
  apply Array.ext_getElem?
  intro i
  rw [Array.getElem?_modify, Array.getElem?_push, Array.getElem?_push]
  simp only [size]
  split
  · rw [if_pos (by omega)]
    rfl
  · rw [if_neg (by omega)]

end Code

theorem NodeId.behind_respan {base : Code} {id : NodeId} {span : Span} (x : NodeId) :
    x.behind (base.respan id span) = x.behind base := by
  simp only [NodeId.behind, Code.size_respan]

theorem Node.behind_respan {base : Code} {id : NodeId} {span : Span} (node : Node) :
    node.behind (base.respan id span) = node.behind base := by
  cases node <;> simp only [Node.behind, NodeId.behind_respan] <;> rfl

namespace Code

variable {base : Code} {id : NodeId}

/-- A node that is there keeps its new span when other code is put behind it. -/
theorem append_respan (h : id.index < base.size) (span : Span) (c : Code) :
    (base.respan id span).append c = (base.append c).respan id span := by
  have hids : ((·.behind (base.respan id span)) : NodeId → NodeId) = (·.behind base) :=
    funext NodeId.behind_respan
  simp only [append, Node.behind_respan, hids]
  simp only [respan, mk.injEq, and_true]
  apply Array.ext_getElem?
  intro i
  rw [Array.getElem?_modify, Array.getElem?_append, Array.getElem?_append, Array.size_modify,
    Array.getElem?_modify]
  simp only [size] at h
  by_cases hi : id.index = i
  · rw [if_pos (hi ▸ h), if_pos hi, if_pos hi, if_pos (hi ▸ h)]
  · rw [if_neg hi, if_neg hi]

/-- A node that is there keeps its new span when another is added. -/
theorem respan_add (h : id.index < base.size) (span : Span) (node : Node) (here : Span) :
    ((base.respan id span).add node here).2 = (base.add node here).2.respan id span := by
  simp only [add, respan, mk.injEq, and_true]
  apply Array.ext_getElem?
  intro i
  rw [Array.getElem?_modify, Array.getElem?_push, Array.getElem?_push, Array.size_modify,
    Array.getElem?_modify]
  simp only [size] at h
  by_cases hi : id.index = i
  · rw [if_neg (by omega), if_pos hi, if_pos hi, if_neg (by omega)]
  · rw [if_neg hi, if_neg hi]

end Code

namespace LowerState

variable {s : LowerState} {id : NodeId} {node : Node} {span here : Span}

/-- The same state, but that one node of the code has another span. -/
def respan (s : LowerState) (id : NodeId) (span : Span) : LowerState :=
  ⟨s.scope, s.code.respan id span⟩

theorem next_respan : (s.respan id span).next = s.next :=
  congrArg NodeId.mk Code.size_respan

theorem add_respan (s : LowerState) (node : Node) (span span' : Span) :
    s.add node span' = (s.add node span).respan s.next span' :=
  congrArg (LowerState.mk s.scope) (Code.add_respan s.code node span span')

theorem respan_add (h : id.index < s.code.size) :
    (s.respan id span).add node here = (s.add node here).respan id span :=
  congrArg (LowerState.mk s.scope) (Code.respan_add h span node here)

end LowerState

namespace Lower

variable {α β : Type}

/-- The step keeps the nodes that are there, and does the same if one of them has another span. -/
def IgnoresSpans (x : Lower α) : Prop :=
  ∀ (s : LowerState) (id : NodeId) (node : Located Node) (span : Span), s.code.get? id = some node →
    match x s with
    | .ok a t => t.code.get? id = some node ∧ x (s.respan id span) = .ok a (t.respan id span)
    | .error e t => x (s.respan id span) = .error e (t.respan id span)

theorem IgnoresSpans.bind {x : Lower α} {k : α → Lower β} (hx : IgnoresSpans x)
    (hk : ∀ a, IgnoresSpans (k a)) : IgnoresSpans (x >>= k) := by
  intro s id node span hnode
  have hfirst := hx s id node span hnode
  cases hrun : x s with
  | ok a t =>
    rw [hrun] at hfirst
    obtain ⟨hkept, hsame⟩ := hfirst
    rw [bind_of_ok hrun rfl, bind_of_ok hsame rfl]
    exact hk a t id node span hkept
  | error e t =>
    rw [hrun] at hfirst
    rw [bind_of_error hrun]
    exact bind_of_error hfirst

theorem ignoresSpans_define (name : Name) : IgnoresSpans (define name) :=
  fun _ _ _ _ hnode => ⟨hnode, rfl⟩

theorem ignoresSpans_emit (node : Node) (span : Span) : IgnoresSpans (emit node span) := by
  intro s id stored span' hnode
  refine ⟨(Code.extends_add s.code node span).get? hnode, ?_⟩
  show EStateM.Result.ok (s.respan id span').next ((s.respan id span').add node span) = _
  rw [LowerState.next_respan, LowerState.respan_add (Code.index_lt_size hnode)]
  rfl

/-- What does the same behind all other code makes no use of the spans there. -/
theorem IgnoresSpans.of_moves {x : Lower NodeId}
    (hx : ∀ base, Moves base (NodeId.behind base) x x) : IgnoresSpans x := by
  intro ⟨scope, base⟩ id node span hnode
  have hplain := (hx base).on_base scope
  have hchanged := (hx (base.respan id span)).on_base scope
  have hlt := Code.index_lt_size hnode
  simp only [LowerState.respan]
  rw [hplain, hchanged]
  cases x ⟨scope, .empty⟩ with
  | ok a t =>
    refine ⟨(Code.extends_append base t.code).get? hnode, ?_⟩
    simp only [NodeId.behind_respan, LowerState.behind, Code.append_respan hlt]
  | error e t =>
    simp only [LowerState.behind, Code.append_respan hlt]

theorem ignoresSpans_lower (names : NameTable) (e : Expr) : IgnoresSpans (lower names e) :=
  .of_moves (moves_lower names e)

theorem ignoresSpans_lowerPlace (names : NameTable) (e : Expr) :
    IgnoresSpans (lowerPlace names e) :=
  .of_moves (moves_lowerPlace names e)

/-- Both steps leave the same, but that a node that combines two values with `op` has the span
`span` in the first and `span'` in the second. Or they stop with the same error and have made the
same bindings. -/
def AgreesUpToSpan (op : BinaryOp) (span span' : Span) (x y : Lower α) : Prop :=
  ∀ s,
    match x s with
    | .ok a t => ∃ id left right, t.code.get? id = some ⟨.binary op left right, span⟩ ∧
        y s = .ok a (t.respan id span')
    | .error e t => ∃ u, y s = .error e u ∧ u.scope = t.scope

section AgreesUpToSpan

variable {op : BinaryOp} {span span' : Span}

theorem agreesUpToSpan_throw (e : CompileError) :
    AgreesUpToSpan op span span' (throw e : Lower α) (throw e) :=
  fun s => ⟨s, rfl, rfl⟩

theorem agreesUpToSpan_emit (left right : NodeId) :
    AgreesUpToSpan op span span' (emit (.binary op left right) span)
      (emit (.binary op left right) span') := by
  intro s
  refine ⟨s.next, left, right, Code.get?_add_self _ _ _, ?_⟩
  show EStateM.Result.ok s.next (s.add (.binary op left right) span') = _
  rw [LowerState.add_respan s _ span span']
  rfl

/-- Steps that come first and are the same on both sides make no difference. -/
theorem AgreesUpToSpan.after {x : Lower α} {k l : α → Lower β}
    (h : ∀ a, AgreesUpToSpan op span span' (k a) (l a)) :
    AgreesUpToSpan op span span' (x >>= k) (x >>= l) := by
  intro s
  cases hrun : x s with
  | ok a t =>
    rw [bind_of_ok hrun rfl, bind_of_ok hrun rfl]
    exact h a t
  | error e t =>
    rw [bind_of_error hrun, bind_of_error hrun]
    exact ⟨t, rfl, rfl⟩

/-- What makes no use of spans may follow. -/
theorem AgreesUpToSpan.bind {x y : Lower α} {k : α → Lower β} (h : AgreesUpToSpan op span span' x y)
    (hk : ∀ a, IgnoresSpans (k a)) : AgreesUpToSpan op span span' (x >>= k) (y >>= k) := by
  intro s
  have hfirst := h s
  cases hrun : x s with
  | ok a t =>
    rw [hrun] at hfirst
    obtain ⟨id, left, right, hnode, hsame⟩ := hfirst
    rw [bind_of_ok hrun rfl, bind_of_ok hsame rfl]
    have hthen := hk a t id _ span' hnode
    cases hrest : k a t with
    | ok b u =>
      rw [hrest] at hthen
      exact ⟨id, left, right, hthen.1, hthen.2⟩
    | error e u =>
      rw [hrest] at hthen
      exact ⟨u.respan id span', hthen, rfl⟩
  | error e t =>
    rw [hrun] at hfirst
    obtain ⟨u, hsame, hscope⟩ := hfirst
    rw [bind_of_error hrun, bind_of_error hsame]
    exact ⟨u, rfl, hscope⟩

/-- What is stored by a compound assignment is the expression that combines the target and the
value. -/
theorem agreesUpToSpan_stored (names : NameTable) {sign : InfixToken}
    (hsign : sign.meaning? = some op) (target value : Expr) :
    AgreesUpToSpan op span span'
      (lowerStored (.compound op) (lower names target) (lower names value) span)
      (lowerStored .plain (lower names target)
        (lower names (.mk span' (.binary sign target value))) span) := by
  simp only [lowerStored, ExprCore.lower, hsign]
  exact .after fun left => .after fun right => agreesUpToSpan_emit left right

/-- Values that agree up to a span are stored in every target alike. -/
theorem AgreesUpToSpan.lowerWrite (names : NameTable) {x y : Lower NodeId}
    (h : AgreesUpToSpan op span span' x y) (here : Span) (target : Expr) :
    AgreesUpToSpan op span span' (lowerWrite names x here target)
      (lowerWrite names y here target) := by
  obtain ⟨targetSpan, form⟩ := target
  cases form with
  | var name =>
    simp only [ExprCore.lowerWrite]
    exact h.bind fun value => (ignoresSpans_define name).bind fun slot => ignoresSpans_emit _ _
  | access kind container index =>
    cases kind with
    | hashtable => exact agreesUpToSpan_throw _
    | indexed =>
      cases index with
      | none =>
        simp only [ExprCore.lowerWrite]
        refine h.bind fun value => ?_
        exact (ignoresSpans_lowerPlace names container).bind fun place => ignoresSpans_emit _ _
      | some index =>
        simp only [ExprCore.lowerWrite]
        refine h.bind fun value => (ignoresSpans_lowerPlace names container).bind fun place => ?_
        exact (ignoresSpans_lower names index).bind fun key => ignoresSpans_emit _ _
  | _ =>
    -- nothing else can be assigned to, and nothing is compiled
    simp only [ExprCore.lowerWrite]
    exact agreesUpToSpan_throw _

end AgreesUpToSpan

end Lower

/-- The first compilation yields a node that combines two values with `op` and has the span `span`,
and the second yields the same code with `span'` there, with the same root. Or both fail with the
same error. The scopes afterwards are the same in any case. -/
def Compilation.AgreesUpToSpan (op : BinaryOp) (span span' : Span) (c d : Compilation) : Prop :=
  d.scope = c.scope ∧
    match c.result, d.result with
    | .ok code, .ok code' => ∃ id left right,
        code.code.get? id = some ⟨.binary op left right, span⟩ ∧
          code' = ⟨code.code.respan id span', code.root⟩
    | .error e, .error e' => e' = e
    | _, _ => False

theorem Lower.AgreesUpToSpan.ofLower {op : BinaryOp} {span span' : Span} {x y : Lower NodeId}
    (h : AgreesUpToSpan op span span' x y) (scope : Scope) :
    (Compilation.ofLower scope x).AgreesUpToSpan op span span' (.ofLower scope y) := by
  have hrun := h ⟨scope, .empty⟩
  simp only [Compilation.ofLower, EStateM.run]
  cases hx : x ⟨scope, .empty⟩ with
  | ok root t =>
    rw [hx] at hrun
    obtain ⟨id, left, right, hnode, hsame⟩ := hrun
    rw [hsame]
    exact ⟨rfl, id, left, right, hnode, rfl⟩
  | error e t =>
    rw [hx] at hrun
    obtain ⟨u, hsame, hscope⟩ := hrun
    rw [hsame]
    exact ⟨hscope, rfl⟩

/-- The compound assignment `t op= e` is compiled like `t = t op e`: the two give the same nodes,
lists and root but for the span of the node that combines `t` and `e`, or the same error, and they
make the same bindings. The target may be anything, also something that cannot be assigned to. -/
theorem compound_assignment_is_expansion {token : AssignToken} {sign : InfixToken} {op : BinaryOp}
    (hop : token.effect? = some (.compound op)) (hsign : token.infixToken? = some sign)
    (names : NameTable) (scope : Scope) (span infixSpan : Span) (target value : Expr) :
    (compile names scope (some (.mk span (.assign token target value)))).AgreesUpToSpan
      op span infixSpan
      (compile names scope
        (some (.mk span (.assign .equal target (.mk infixSpan (.binary sign target value)))))) := by
  have hmeaning : sign.meaning? = some op := by
    simpa [hsign] using AssignToken.effect?_eq_compound_iff.1 hop
  have hequal : AssignToken.effect? .equal = some .plain := rfl
  apply Lower.AgreesUpToSpan.ofLower
  rw [lower, lower, hop, hequal]
  exact (Lower.agreesUpToSpan_stored names hmeaning target value).lowerWrite names span target

/-- `$x[$y] += $y` is compiled, and like `$x[$y] = $x[$y] + $y`. -/
theorem compound_assignment_is_expansion_element :
    let target : Expr := .mk ⟨0, 6⟩ (.access .indexed (.mk ⟨0, 2⟩ (.var ⟨1⟩))
      (some (.mk ⟨3, 5⟩ (.var ⟨2⟩))))
    let value : Expr := .mk ⟨10, 12⟩ (.var ⟨2⟩)
    ∃ c scope,
      compile .new .root (some (.mk ⟨0, 12⟩ (.assign .plus target value))) = ⟨.ok c, scope⟩
        ∧ (⟨.ok c, scope⟩ : Compilation).AgreesUpToSpan .add ⟨0, 12⟩ ⟨9, 20⟩
            (compile .new .root (some (.mk ⟨0, 12⟩ (.assign .equal target
              (.mk ⟨9, 20⟩ (.binary .plus target value)))))) := by
  intro target value
  obtain ⟨c, scope, hc⟩ : ∃ c scope,
      compile .new .root (some (.mk ⟨0, 12⟩ (.assign .plus target value))) = ⟨.ok c, scope⟩ :=
    ⟨_, _, rfl⟩
  refine ⟨c, scope, hc, ?_⟩
  rw [← hc]
  exact compound_assignment_is_expansion rfl rfl .new .root ⟨0, 12⟩ ⟨9, 20⟩ target value

end ExprCore
