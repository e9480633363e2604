import ExprCore.Compilation
import ExprCore.Proofs.Growth
import ExprCore.Proofs.Steps

/-!
# What compilation produces

Compilation as a relation between the source and the nodes that stand for it. The rules say for
each construct which parts are compiled in which order, which names are bound on the way, and which
node is added at the end. Every successful run of the compiler follows these rules, so that facts
about compiled code are proved by induction on them.

## Main definitions

- `Piece`: a part of the source together with the nodes that it became
- `Lowered`: the rules

## Main statements

- `lowered_of_lower`: compilation of an expression follows the rules
- `lowered_of_lowerMembers`: so does compilation of the members of a sequence
- `Lowered.grows`: nothing that was there is changed
- `Lowered.index_value`, `Lowered.index_place`: the node of an expression is the last one added
-/

namespace ExprCore

/-- A part of the source and what it became. -/
inductive Piece where
  /-- An expression that is evaluated. -/
  | value (e : Expr) (id : NodeId)
  /-- The container of an element that is written. -/
  | place (e : Expr) (id : NodeId)
  /-- What an assignment with the given effect stores in its target. -/
  | stored (effect : AssignEffect) (target value : Expr) (span : Span) (id : NodeId)
  /-- Expressions that are evaluated one after the other. -/
  | values (es : List Expr) (ids : List NodeId)

/-- The rules of compilation: in state `s` the piece is compiled, which ends in state `t`. -/
inductive Lowered (names : NameTable) : Piece → LowerState → LowerState → Prop where
  | scalar {span kind text literal s}
      (hliteral : scalarLiteral kind (names.text text) span = .ok literal) :
      Lowered names (.value (.mk span (.scalar kind text)) s.next) s
        (s.add (literalNode literal) span)
  | var {span name s} :
      Lowered names (.value (.mk span (.var name)) s.next) s
        (s.add (.var name (s.scope.find? name)) span)
  | binary {span token left right op l r s s₁ s₂} (hop : token.meaning? = some op)
      (hl : Lowered names (.value left l) s s₁) (hr : Lowered names (.value right r) s₁ s₂) :
      Lowered names (.value (.mk span (.binary token left right)) s₂.next) s
        (s₂.add (.binary op l r) span)
  | unary {span token operand op x s s₁} (hop : token.meaning? = some op)
      (hx : Lowered names (.value operand x) s s₁) :
      Lowered names (.value (.mk span (.unary token operand)) s₁.next) s
        (s₁.add (.unary op x) span)
  | step {span fixity token operand name s} (hname : operand.varName? = some name) :
      Lowered names (.value (.mk span (.step fixity token operand)) (s.define name).next) s
        ((s.define name).add (.step (s.slot name) token.delta fixity) span)
  | assign {span targetSpan token effect name value v s s₁} (heffect : token.effect? = some effect)
      (hv : Lowered names (.stored effect (.mk targetSpan (.var name)) value span v) s s₁) :
      Lowered names (.value (.mk span (.assign token (.mk targetSpan (.var name)) value))
          (s₁.define name).next) s
        ((s₁.define name).add (.assign (s₁.slot name) v) span)
  | append {span targetSpan token effect container value v p s s₁ s₂}
      (heffect : token.effect? = some effect)
      (hv : Lowered names (.stored effect (.mk targetSpan (.access .indexed container none)) value
        span v) s s₁)
      (hp : Lowered names (.place container p) s₁ s₂) :
      Lowered names (.value (.mk span (.assign token
          (.mk targetSpan (.access .indexed container none)) value)) s₂.next) s
        (s₂.add (.storeElement p none v) span)
  | storeElement {span targetSpan token effect container index value v p k s s₁ s₂ s₃}
      (heffect : token.effect? = some effect)
      (hv : Lowered names (.stored effect (.mk targetSpan (.access .indexed container (some index)))
        value span v) s s₁)
      (hp : Lowered names (.place container p) s₁ s₂)
      (hk : Lowered names (.value index k) s₂ s₃) :
      Lowered names (.value (.mk span (.assign token
          (.mk targetSpan (.access .indexed container (some index))) value)) s₃.next) s
        (s₃.add (.storeElement p (some k) v) span)
  | list {span entries ids s s₁} (hkeys : ∀ entry ∈ entries, entry.key = none)
      (hes : Lowered names (.values (entries.map Element.value) ids) s s₁) :
      Lowered names (.value (.mk span (.array entries)) (s₁.addList ids).next) s
        ((s₁.addList ids).add (.list (s₁.segment ids)) span)
  | index {span target index t k s s₁ s₂} (ht : Lowered names (.value target t) s s₁)
      (hk : Lowered names (.value index k) s₁ s₂) :
      Lowered names (.value (.mk span (.access .indexed target (some index))) s₂.next) s
        (s₂.add (.index t (some k)) span)
  | unset {span name arguments slots s}
      (hname : equalIgnoringCase (names.text name) "unset" = true)
      (harguments : ∀ argument ∈ arguments, argument.varName?.isSome = true)
      (hslots : slots = (arguments.filterMap Expr.varName?).filterMap s.scope.find?) :
      Lowered names (.value (.mk span (.call name arguments)) (s.addSlots slots).next) s
        ((s.addSlots slots).add (.unset (s.slotSegment slots)) span)
  | call {span name arguments ids s s₁}
      (hname : equalIgnoringCase (names.text name) "unset" = false)
      (hes : Lowered names (.values arguments ids) s s₁) :
      Lowered names (.value (.mk span (.call name arguments)) (s₁.addList ids).next) s
        ((s₁.addList ids).add (.call name s₁.scope.id (s₁.segment ids)) span)
  | paren {span inner id s s₁} (h : Lowered names (.value inner id) s s₁) :
      Lowered names (.value (.mk span (.paren inner)) id) s s₁
  | storedPlain {target value span v s s₁} (hv : Lowered names (.value value v) s s₁) :
      Lowered names (.stored .plain target value span v) s s₁
  | storedCompound {op target value span l r s s₁ s₂} (hl : Lowered names (.value target l) s s₁)
      (hr : Lowered names (.value value r) s₁ s₂) :
      Lowered names (.stored (.compound op) target value span s₂.next) s
        (s₂.add (.binary op l r) span)
  | placeVar {span name s} :
      Lowered names (.place (.mk span (.var name)) (s.define name).next) s
        ((s.define name).add (.var name (some (s.slot name))) span)
  | placeIndex {span target index t k s s₁ s₂} (ht : Lowered names (.place target t) s s₁)
      (hk : Lowered names (.value index k) s₁ s₂) :
      Lowered names (.place (.mk span (.access .indexed target (some index))) s₂.next) s
        (s₂.add (.index t (some k)) span)
  | placeParen {span inner id s s₁} (h : Lowered names (.place inner id) s s₁) :
      Lowered names (.place (.mk span (.paren inner)) id) s s₁
  | nil {s} : Lowered names (.values [] []) s s
  | cons {e es id ids s s₁ s₂} (h : Lowered names (.value e id) s s₁)
      (hs : Lowered names (.values es ids) s₁ s₂) :
      Lowered names (.values (e :: es) (id :: ids)) s s₂

namespace Lower

variable {α : Type}

theorem emit_eq_ok {node : Node} {span : Span} {id : NodeId} {s t : LowerState}
    (h : emit node span s = .ok id t) : id = s.next ∧ t = s.add node span := by
  cases h
  exact ⟨rfl, rfl⟩

theorem emitList_eq_ok {ids : List NodeId} {segment : Segment} {s t : LowerState}
    (h : emitList ids s = .ok segment t) : segment = s.segment ids ∧ t = s.addList ids := by
  cases h
  exact ⟨rfl, rfl⟩

theorem emitSlots_eq_ok {slots : List Slot} {segment : Segment} {s t : LowerState}
    (h : emitSlots slots s = .ok segment t) :
    segment = s.slotSegment slots ∧ t = s.addSlots slots := by
  cases h
  exact ⟨rfl, rfl⟩

theorem define_eq_ok {name : Name} {slot : Slot} {s t : LowerState}
    (h : define name s = .ok slot t) : slot = s.slot name ∧ t = s.define name := by
  cases h
  exact ⟨rfl, rfl⟩

theorem find?_eq_ok {name : Name} {slot : Option Slot} {s t : LowerState}
    (h : find? name s = .ok slot t) : slot = s.scope.find? name ∧ t = s := by
  cases h
  exact ⟨rfl, rfl⟩

theorem scopeId_eq_ok {id : ScopeId} {s t : LowerState} (h : scopeId s = .ok id t) :
    id = s.scope.id ∧ t = s := by
  cases h
  exact ⟨rfl, rfl⟩

theorem throw_ne_ok {e : CompileError} {a : α} {s t : LowerState} :
    (throw e : Lower α) s ≠ .ok a t := nofun

theorem unsupported_ne_ok {construct : String} {span : Span} {a : α} {s t : LowerState} :
    unsupported construct span s ≠ .ok a t := nofun

end Lower

open Lower

theorem lowered_of_lowerScalar {names : NameTable} {span : Span} {kind : ScalarKind} {text : Name}
    {id : NodeId} {s t : LowerState} (h : lowerScalar names kind text span s = .ok id t) :
    Lowered names (.value (.mk span (.scalar kind text)) id) s t := by
  unfold lowerScalar at h
  cases hliteral : scalarLiteral kind (names.text text) span with
  | error e =>
    rw [hliteral] at h
    exact absurd h throw_ne_ok
  | ok literal =>
    rw [hliteral] at h
    obtain ⟨rfl, rfl⟩ := emit_eq_ok h
    exact .scalar hliteral

theorem lowered_of_lowerStep {names : NameTable} {span : Span} {fixity : Fixity}
    {token : StepToken} {operand : Expr} {id : NodeId} {s t : LowerState}
    (h : lowerStep fixity token operand span s = .ok id t) :
    Lowered names (.value (.mk span (.step fixity token operand)) id) s t := by
  unfold lowerStep at h
  cases hname : operand.varName? with
  | none =>
    rw [hname] at h
    exact absurd h unsupported_ne_ok
  | some name =>
    rw [hname] at h
    obtain ⟨slot, s₁, hdefine, hemit⟩ := bind_eq_ok h
    obtain ⟨rfl, rfl⟩ := define_eq_ok hdefine
    obtain ⟨rfl, rfl⟩ := emit_eq_ok hemit
    exact .step hname

theorem lowered_of_lowerUnset {names : NameTable} {span : Span} {name : Name}
    {arguments : List Expr} {id : NodeId} {s t : LowerState}
    (hname : equalIgnoringCase (names.text name) "unset" = true)
    (h : lowerUnset arguments span s = .ok id t) :
    Lowered names (.value (.mk span (.call name arguments)) id) s t := by
  unfold lowerUnset at h
  cases hfind : arguments.find? (·.varName?.isNone) with
  | some argument =>
    rw [hfind] at h
    exact absurd h throw_ne_ok
  | none =>
    rw [hfind] at h
    have harguments : ∀ argument ∈ arguments, argument.varName?.isSome = true := by
      intro argument hmem
      have hnot := List.find?_eq_none.1 hfind argument hmem
      simpa [← Option.isSome_iff_ne_none] using hnot
    obtain ⟨u, s₁, hget, hrest⟩ := bind_eq_ok h
    obtain ⟨rfl, rfl⟩ : u = s ∧ s₁ = s := by
      cases hget
      exact ⟨rfl, rfl⟩
    obtain ⟨segment, s₂, hslots, hemit⟩ := bind_eq_ok hrest
    obtain ⟨rfl, rfl⟩ := emitSlots_eq_ok hslots
    obtain ⟨rfl, rfl⟩ := emit_eq_ok hemit
    exact .unset hname harguments rfl

theorem lowered_of_lowerStored {names : NameTable} {effect : AssignEffect} {target value : Expr}
    {span : Span} {id : NodeId} {s t : LowerState}
    (ihtarget : ∀ {id s t}, lower names target s = .ok id t →
      Lowered names (.value target id) s t)
    (ihvalue : ∀ {id s t}, lower names value s = .ok id t → Lowered names (.value value id) s t)
    (h : lowerStored effect (lower names target) (lower names value) span s = .ok id t) :
    Lowered names (.stored effect target value span id) s t := by
  cases effect with
  | plain => exact .storedPlain (ihvalue h)
  | compound op =>
    obtain ⟨l, s₁, hl, hrest⟩ := bind_eq_ok h
    obtain ⟨r, s₂, hr, hemit⟩ := bind_eq_ok hrest
    obtain ⟨rfl, rfl⟩ := emit_eq_ok hemit
    exact .storedCompound (ihtarget hl) (ihvalue hr)

mutual

/-- Compilation of an expression follows the rules. -/
theorem lowered_of_lower {names : NameTable} : ∀ (e : Expr) {id : NodeId} {s t : LowerState},
    lower names e s = .ok id t → Lowered names (.value e id) s t
  | .mk span (.scalar kind text), id, s, t, h => by
    rw [lower] at h
    exact lowered_of_lowerScalar h
  | .mk span (.var name), id, s, t, h => by
    rw [lower] at h
    obtain ⟨slot, s₁, hfind, hemit⟩ := bind_eq_ok h
    obtain ⟨rfl, rfl⟩ := find?_eq_ok hfind
    obtain ⟨rfl, rfl⟩ := emit_eq_ok hemit
    exact .var
  | .mk span (.binary token left right), id, s, t, h => by
    rw [lower] at h
    cases hop : token.meaning? with
    | none =>
      rw [hop] at h
      exact absurd h unsupported_ne_ok
    | some op =>
      rw [hop] at h
      obtain ⟨l, s₁, hl, hrest⟩ := bind_eq_ok h
      obtain ⟨r, s₂, hr, hemit⟩ := bind_eq_ok hrest
      obtain ⟨rfl, rfl⟩ := emit_eq_ok hemit
      exact .binary hop (lowered_of_lower left hl) (lowered_of_lower right hr)
  | .mk span (.unary token operand), id, s, t, h => by
    rw [lower] at h
    cases hop : token.meaning? with
    | none =>
      rw [hop] at h
      exact absurd h unsupported_ne_ok
    | some op =>
      rw [hop] at h
      obtain ⟨x, s₁, hx, hemit⟩ := bind_eq_ok h
      obtain ⟨rfl, rfl⟩ := emit_eq_ok hemit
      exact .unary hop (lowered_of_lower operand hx)
  | .mk span (.step fixity token operand), id, s, t, h => by
    rw [lower] at h
    exact lowered_of_lowerStep h
  | .mk span (.assign token target value), id, s, t, h => by
    rw [lower] at h
    cases heffect : token.effect? with
    | none =>
      rw [heffect] at h
      exact absurd h unsupported_ne_ok
    | some effect =>
      rw [heffect] at h
      -- the rules for the target take the value as compiled, whatever it is
      have hstored : ∀ {id s t},
          lowerStored effect (lower names target) (lower names value) span s = .ok id t →
            Lowered names (.stored effect target value span id) s t :=
        lowered_of_lowerStored (lowered_of_lower target) (lowered_of_lower value)
      exact lowered_of_lowerWrite heffect target hstored h
  | .mk span (.array entries), id, s, t, h => by
    rw [lower] at h
    obtain ⟨ids, s₁, hes, hrest⟩ := bind_eq_ok h
    obtain ⟨segment, s₂, hlist, hemit⟩ := bind_eq_ok hrest
    obtain ⟨rfl, rfl⟩ := emitList_eq_ok hlist
    obtain ⟨rfl, rfl⟩ := emit_eq_ok hemit
    obtain ⟨ids', hids, hkeys, hlowered⟩ := lowered_of_lowerEntries entries hes
    rw [List.reverse_nil, List.nil_append] at hids
    subst hids
    exact .list hkeys hlowered
  | .mk span (.access .indexed target (some index)), id, s, t, h => by
    rw [lower] at h
    obtain ⟨x, s₁, ht, hrest⟩ := bind_eq_ok h
    obtain ⟨k, s₂, hk, hemit⟩ := bind_eq_ok hrest
    obtain ⟨rfl, rfl⟩ := emit_eq_ok hemit
    exact .index (lowered_of_lower target ht) (lowered_of_lower index hk)
  | .mk span (.call name arguments), id, s, t, h => by
    rw [lower] at h
    cases hname : equalIgnoringCase (names.text name) "unset" with
    | true =>
      rw [hname, if_pos rfl] at h
      exact lowered_of_lowerUnset hname h
    | false =>
      rw [hname, if_neg Bool.false_ne_true] at h
      obtain ⟨ids, s₁, hes, hrest⟩ := bind_eq_ok h
      obtain ⟨segment, s₂, hlist, hrest⟩ := bind_eq_ok hrest
      obtain ⟨scope, s₃, hscope, hemit⟩ := bind_eq_ok hrest
      obtain ⟨rfl, rfl⟩ := emitList_eq_ok hlist
      obtain ⟨rfl, rfl⟩ := scopeId_eq_ok hscope
      obtain ⟨rfl, rfl⟩ := emit_eq_ok hemit
      obtain ⟨ids', hids, hlowered⟩ := lowered_of_lowerAll arguments hes
      rw [List.reverse_nil, List.nil_append] at hids
      subst hids
      exact .call hname hlowered
  | .mk span (.paren inner), id, s, t, h => by
    rw [lower] at h
    exact .paren (lowered_of_lower inner h)
  | .mk _ (.dynamicVar _), id, s, t, h
  | .mk _ (.access .hashtable _ _), id, s, t, h
  | .mk _ (.access .indexed _ none), id, s, t, h
  | .mk _ (.dynamicCall _ _), id, s, t, h
  | .mk _ (.conditional _ _ _), id, s, t, h
  | .mk _ (.cast _ _), id, s, t, h
  | .mk _ (.instanceOf _ _), id, s, t, h
  | .mk _ .closure, id, s, t, h
  | .mk _ (.new _ _), id, s, t, h
  | .mk _ (.quote _), id, s, t, h
  | .mk _ .error, id, s, t, h => by
    simp only [lower] at h
    exact absurd h unsupported_ne_ok

/-- Compilation of an assignment follows the rules if that of its value does. -/
theorem lowered_of_lowerWrite {names : NameTable} {token : AssignToken} {effect : AssignEffect}
    {value : Expr} {span : Span} {stored : Lower NodeId} (heffect : token.effect? = some effect) :
    ∀ (target : Expr), (∀ {id s t}, stored s = .ok id t →
      Lowered names (.stored effect target value span id) s t) → ∀ {id : NodeId} {s t : LowerState},
      lowerWrite names stored span target s = .ok id t →
        Lowered names (.value (.mk span (.assign token target value)) id) s t
  | .mk _ (.var name), hstored, id, s, t, h => by
    rw [lowerWrite] at h
    obtain ⟨v, s₁, hv, hrest⟩ := bind_eq_ok h
    obtain ⟨slot, s₂, hdefine, hemit⟩ := bind_eq_ok hrest
    obtain ⟨rfl, rfl⟩ := define_eq_ok hdefine
    obtain ⟨rfl, rfl⟩ := emit_eq_ok hemit
    exact .assign heffect (hstored hv)
  | .mk _ (.dynamicVar _), _, id, s, t, h => by
    rw [lowerWrite] at h
    exact absurd h unsupported_ne_ok
  | .mk _ (.access .hashtable _ _), _, id, s, t, h => by
    rw [lowerWrite] at h
    exact absurd h unsupported_ne_ok
  | .mk _ (.access .indexed container none), hstored, id, s, t, h => by
    rw [lowerWrite] at h
    obtain ⟨v, s₁, hv, hrest⟩ := bind_eq_ok h
    obtain ⟨p, s₂, hp, hemit⟩ := bind_eq_ok hrest
    obtain ⟨rfl, rfl⟩ := emit_eq_ok hemit
    exact .append heffect (hstored hv) (lowered_of_lowerPlace container hp)
  | .mk _ (.access .indexed container (some index)), hstored, id, s, t, h => by
    rw [lowerWrite] at h
    obtain ⟨v, s₁, hv, hrest⟩ := bind_eq_ok h
    obtain ⟨p, s₂, hp, hrest⟩ := bind_eq_ok hrest
    obtain ⟨k, s₃, hk, hemit⟩ := bind_eq_ok hrest
    obtain ⟨rfl, rfl⟩ := emit_eq_ok hemit
    exact .storeElement heffect (hstored hv) (lowered_of_lowerPlace container hp)
      (lowered_of_lower index hk)
  | .mk _ (.scalar _ _), _, id, s, t, h
  | .mk _ (.binary _ _ _), _, id, s, t, h
  | .mk _ (.unary _ _), _, id, s, t, h
  | .mk _ (.step _ _ _), _, id, s, t, h
  | .mk _ (.assign _ _ _), _, id, s, t, h
  | .mk _ (.array _), _, id, s, t, h
  | .mk _ (.call _ _), _, id, s, t, h
  | .mk _ (.dynamicCall _ _), _, id, s, t, h
  | .mk _ (.paren _), _, id, s, t, h
  | .mk _ (.conditional _ _ _), _, id, s, t, h
  | .mk _ (.cast _ _), _, id, s, t, h
  | .mk _ (.instanceOf _ _), _, id, s, t, h
  | .mk _ .closure, _, id, s, t, h
  | .mk _ (.new _ _), _, id, s, t, h
  | .mk _ (.quote _), _, id, s, t, h
  | .mk _ .error, _, id, s, t, h => by
    simp only [lowerWrite] at h
    exact absurd h throw_ne_ok

theorem lowered_of_lowerPlace {names : NameTable} :
    ∀ (e : Expr) {id : NodeId} {s t : LowerState},
      lowerPlace names e s = .ok id t → Lowered names (.place e id) s t
  | .mk span (.var name), id, s, t, h => by
    rw [lowerPlace] at h
    obtain ⟨slot, s₁, hdefine, hemit⟩ := bind_eq_ok h
    obtain ⟨rfl, rfl⟩ := define_eq_ok hdefine
    obtain ⟨rfl, rfl⟩ := emit_eq_ok hemit
    exact .placeVar
  | .mk _ (.dynamicVar _), id, s, t, h => by
    rw [lowerPlace] at h
    exact absurd h unsupported_ne_ok
  | .mk _ (.access .hashtable _ _), id, s, t, h => by
    rw [lowerPlace] at h
    exact absurd h unsupported_ne_ok
  | .mk _ (.access .indexed _ none), id, s, t, h => by
    rw [lowerPlace] at h
    exact absurd h unsupported_ne_ok
  | .mk span (.access .indexed target (some index)), id, s, t, h => by
    rw [lowerPlace] at h
    obtain ⟨x, s₁, ht, hrest⟩ := bind_eq_ok h
    obtain ⟨k, s₂, hk, hemit⟩ := bind_eq_ok hrest
    obtain ⟨rfl, rfl⟩ := emit_eq_ok hemit
    exact .placeIndex (lowered_of_lowerPlace target ht) (lowered_of_lower index hk)
  | .mk _ (.paren inner), id, s, t, h => by
    rw [lowerPlace] at h
    exact .placeParen (lowered_of_lowerPlace inner h)
  | .mk _ (.scalar _ _), id, s, t, h
  | .mk _ (.binary _ _ _), id, s, t, h
  | .mk _ (.unary _ _), id, s, t, h
  | .mk _ (.step _ _ _), id, s, t, h
  | .mk _ (.assign _ _ _), id, s, t, h
  | .mk _ (.array _), id, s, t, h
  | .mk _ (.call _ _), id, s, t, h
  | .mk _ (.dynamicCall _ _), id, s, t, h
  | .mk _ (.conditional _ _ _), id, s, t, h
  | .mk _ (.cast _ _), id, s, t, h
  | .mk _ (.instanceOf _ _), id, s, t, h
  | .mk _ .closure, id, s, t, h
  | .mk _ (.new _ _), id, s, t, h
  | .mk _ (.quote _), id, s, t, h
  | .mk _ .error, id, s, t, h => by
    simp only [lowerPlace] at h
    exact absurd h throw_ne_ok

theorem lowered_of_lowerAll {names : NameTable} :
    ∀ (es : List Expr) {done ids : List NodeId} {s t : LowerState},
      lowerAll names done es s = .ok ids t →
        ∃ ids', ids = done.reverse ++ ids' ∧ Lowered names (.values es ids') s t
  | [], done, ids, s, t, h => by
    rw [lowerAll] at h
    obtain ⟨rfl, rfl⟩ := pure_eq_ok h
    exact ⟨[], by simp, .nil⟩
  | e :: es, done, ids, s, t, h => by
    rw [lowerAll] at h
    obtain ⟨id, s₁, he, hes⟩ := bind_eq_ok h
    obtain ⟨ids', rfl, hlowered⟩ := lowered_of_lowerAll es hes
    exact ⟨id :: ids', by simp, .cons (lowered_of_lower e he) hlowered⟩

/-- Compilation of the entries of an array literal follows the rules, and no entry has a key. -/
theorem lowered_of_lowerEntries {names : NameTable} :
    ∀ (entries : List (Element Expr)) {done ids : List NodeId} {s t : LowerState},
      lowerEntries names done entries s = .ok ids t →
        ∃ ids', ids = done.reverse ++ ids' ∧ (∀ entry ∈ entries, entry.key = none) ∧
          Lowered names (.values (entries.map Element.value) ids') s t
  | [], done, ids, s, t, h => by
    rw [lowerEntries] at h
    obtain ⟨rfl, rfl⟩ := pure_eq_ok h
    exact ⟨[], by simp, by simp, .nil⟩
  | ⟨some _, _⟩ :: _, done, ids, s, t, h => by
    rw [lowerEntries] at h
    exact absurd h unsupported_ne_ok
  | ⟨none, value⟩ :: entries, done, ids, s, t, h => by
    rw [lowerEntries] at h
    obtain ⟨id, s₁, he, hes⟩ := bind_eq_ok h
    obtain ⟨ids', rfl, hkeys, hlowered⟩ := lowered_of_lowerEntries entries hes
    exact ⟨id :: ids', by simp, by simpa using hkeys, .cons (lowered_of_lower value he) hlowered⟩

end

/-- Compilation of the members of a sequence follows the rules, and no member is absent. -/
theorem lowered_of_lowerMembers {names : NameTable} {members : List (Option Expr)}
    {done ids : List NodeId} {s t : LowerState}
    (h : lowerMembers names done members s = .ok ids t) :
    ∃ es ids', members = es.map some ∧ ids = done.reverse ++ ids' ∧
      Lowered names (.values es ids') s t := by
  induction members generalizing done s with
  | nil =>
    rw [lowerMembers] at h
    obtain ⟨rfl, rfl⟩ := pure_eq_ok h
    exact ⟨[], [], rfl, by simp, .nil⟩
  | cons member members ih =>
    cases member with
    | none =>
      rw [lowerMembers] at h
      exact absurd h throw_ne_ok
    | some e =>
      rw [lowerMembers] at h
      obtain ⟨id, s₁, he, hes⟩ := bind_eq_ok h
      obtain ⟨es, ids', rfl, rfl, hlowered⟩ := ih hes
      exact ⟨e :: es, id :: ids', rfl, by simp, .cons (lowered_of_lower e he) hlowered⟩

/-- Compilation of an expression succeeds only where there is one, and follows the rules. -/
theorem lowered_of_compile {names : NameTable} {scope scope' : Scope} {root : Option Expr}
    {c : Compiled} (h : compile names scope root = ⟨.ok c, scope'⟩) :
    ∃ e, root = some e ∧
      Lowered names (.value e c.root) ⟨scope, .empty⟩ ⟨scope', c.code⟩ := by
  cases root with
  | none => cases h
  | some e =>
    rw [compile, Compilation.ofLower] at h
    split at h
    · rename_i id t hrun
      cases h
      exact ⟨e, rfl, lowered_of_lower e hrun⟩
    · cases h

/-- Compilation of a sequence succeeds only where no member is absent. It compiles the members one
after the other, and then adds the node of the sequence. -/
theorem lowered_of_compileSequence {names : NameTable} {scope scope' : Scope}
    {members : List (Option Expr)} {c : Compiled}
    (h : compileSequence names scope members = ⟨.ok c, scope'⟩) :
    ∃ es ids s, members = es.map some ∧ Lowered names (.values es ids) ⟨scope, .empty⟩ s ∧
      c.root = (s.addList ids).next ∧
      LowerState.mk scope' c.code
        = (s.addList ids).add (.sequence (s.segment ids)) (sequenceSpan members) := by
  unfold compileSequence at h
  split at h
  · cases h
  · rw [Compilation.ofLower] at h
    split at h
    · rename_i id t hrun
      cases h
      obtain ⟨items, s, hitems, hrest⟩ := bind_eq_ok hrun
      obtain ⟨segment, s₁, hlist, hemit⟩ := bind_eq_ok hrest
      obtain ⟨rfl, rfl⟩ := emitList_eq_ok hlist
      obtain ⟨hroot, hstate⟩ := emit_eq_ok hemit
      obtain ⟨es, ids, hmembers, hids, hlowered⟩ := lowered_of_lowerMembers hitems
      rw [List.reverse_nil, List.nil_append] at hids
      subst hids
      exact ⟨es, items, s, hmembers, hlowered, hroot, hstate⟩
    · cases h

namespace Lowered

variable {names : NameTable} {piece : Piece} {s t : LowerState}

/-- Compilation keeps the code and the bindings that are there. -/
theorem grows (h : Lowered names piece s t) : s.Extends t := by
  induction h with
  | scalar => exact LowerState.extends_add _ _ _
  | var => exact LowerState.extends_add _ _ _
  | binary _ _ _ ihl ihr => exact (ihl.trans ihr).trans (LowerState.extends_add _ _ _)
  | unary _ _ ihx => exact ihx.trans (LowerState.extends_add _ _ _)
  | step => exact (LowerState.extends_define _ _).trans (LowerState.extends_add _ _ _)
  | assign _ _ ihv =>
    exact (ihv.trans (LowerState.extends_define _ _)).trans (LowerState.extends_add _ _ _)
  | append _ _ _ ihv ihp => exact (ihv.trans ihp).trans (LowerState.extends_add _ _ _)
  | storeElement _ _ _ _ ihv ihp ihk =>
    exact ((ihv.trans ihp).trans ihk).trans (LowerState.extends_add _ _ _)
  | list _ _ ihes =>
    exact (ihes.trans (LowerState.extends_addList _ _)).trans (LowerState.extends_add _ _ _)
  | index _ _ iht ihk => exact (iht.trans ihk).trans (LowerState.extends_add _ _ _)
  | unset => exact (LowerState.extends_addSlots _ _).trans (LowerState.extends_add _ _ _)
  | call _ _ ihes =>
    exact (ihes.trans (LowerState.extends_addList _ _)).trans (LowerState.extends_add _ _ _)
  | paren _ ih => exact ih
  | storedPlain _ ihv => exact ihv
  | storedCompound _ _ ihl ihr => exact (ihl.trans ihr).trans (LowerState.extends_add _ _ _)
  | placeVar => exact (LowerState.extends_define _ _).trans (LowerState.extends_add _ _ _)
  | placeIndex _ _ iht ihk => exact (iht.trans ihk).trans (LowerState.extends_add _ _ _)
  | placeParen _ ih => exact ih
  | nil => exact LowerState.Extends.refl _
  | cons _ _ ih ihs => exact ih.trans ihs

theorem size_le (h : Lowered names piece s t) : s.code.size ≤ t.code.size :=
  h.grows.code.size_le

end Lowered

/-- The node of a part that has one is the last node of the state; the nodes of a list are among
its nodes. -/
def Piece.EndsAt (size : Nat) : Piece → Prop
  | .value _ id | .place _ id | .stored _ _ _ _ id => id.index + 1 = size
  | .values _ ids => ∀ id ∈ ids, id.index < size

namespace Lowered

variable {names : NameTable} {piece : Piece} {s t : LowerState}

theorem endsAt (h : Lowered names piece s t) : piece.EndsAt t.code.size := by
  induction h with
  | paren _ ih | storedPlain _ ih | placeParen _ ih => exact ih
  | nil => exact nofun
  | cons h hs ih ihs =>
    intro id hid
    rcases List.mem_cons.1 hid with rfl | hid
    · have hlast : id.index + 1 = _ := ih
      have hle := hs.size_le
      omega
    · exact ihs id hid
  | _ => exact (LowerState.size_add _ _ _).symm

theorem index_value {e : Expr} {id : NodeId} (h : Lowered names (.value e id) s t) :
    id.index + 1 = t.code.size := h.endsAt

theorem index_place {e : Expr} {id : NodeId} (h : Lowered names (.place e id) s t) :
    id.index + 1 = t.code.size := h.endsAt

theorem index_stored {effect : AssignEffect} {target value : Expr} {span : Span} {id : NodeId}
    (h : Lowered names (.stored effect target value span id) s t) :
    id.index + 1 = t.code.size := h.endsAt

theorem index_values {es : List Expr} {ids : List NodeId}
    (h : Lowered names (.values es ids) s t) : ∀ id ∈ ids, id.index < t.code.size := h.endsAt

end Lowered

end ExprCore
