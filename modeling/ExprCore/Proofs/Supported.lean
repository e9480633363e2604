import ExprCore.Proofs.Lowered

/-!
# The supported fragment

Which expressions the compiler accepts. It is a matter of the text alone: neither the scope nor the
code that is there already makes a difference.

## Main definitions

- `Role`: an expression is compiled for its value, or as the container of an element that is written
- `Supported`: the expressions that are supported in a role
- `Lower.Succeeds`: a step of compilation that succeeds in every state

## Main statements

- `Lowered.supported`: what was compiled is supported
- `Supported.lowers`: what is supported is compiled, whatever the state
- `compile_succeeds_iff`: the compiler accepts exactly the supported expressions
-/

namespace ExprCore

/-- What an expression is compiled as. -/
inductive Role where
  | value
  /-- The container of an element that is written. -/
  | place

/-- The texts that are constants of a kind. -/
def ScalarKind.accepts (text : String) : ScalarKind → Bool
  | .int => (parseInteger? text).isSome
  | .real => (parseFloat? text).isSome
  | .string => (parseBool? text).isSome
  | .other => false

/-- The supported expressions. Parentheses may stand around a container, but neither around the
target of an assignment nor around a variable that is stepped or cleared. -/
inductive Supported (names : NameTable) : Role → Expr → Prop where
  | scalar {span kind text} (htext : kind.accepts (names.text text) = true) :
      Supported names .value (.mk span (.scalar kind text))
  | var {span name} : Supported names .value (.mk span (.var name))
  | binary {span token left right op} (hop : token.meaning? = some op)
      (hl : Supported names .value left) (hr : Supported names .value right) :
      Supported names .value (.mk span (.binary token left right))
  | unary {span token operand op} (hop : token.meaning? = some op)
      (hx : Supported names .value operand) :
      Supported names .value (.mk span (.unary token operand))
  | step {span fixity token operandSpan name} :
      Supported names .value (.mk span (.step fixity token (.mk operandSpan (.var name))))
  | assign {span targetSpan token effect name value} (heffect : token.effect? = some effect)
      (hv : Supported names .value value) :
      Supported names .value (.mk span (.assign token (.mk targetSpan (.var name)) value))
  /-- Only a plain assignment can append. -/
  | append {span targetSpan token container value} (heffect : token.effect? = some .plain)
      (hv : Supported names .value value) (hp : Supported names .place container) :
      Supported names .value (.mk span (.assign token
        (.mk targetSpan (.access .indexed container none)) value))
  | storeElement {span targetSpan token effect container index value}
      (heffect : token.effect? = some effect) (hv : Supported names .value value)
      (hp : Supported names .place container) (hk : Supported names .value index) :
      Supported names .value (.mk span (.assign token
        (.mk targetSpan (.access .indexed container (some index))) value))
  | list {span entries} (hkeys : ∀ entry ∈ entries, entry.key = none)
      (hes : ∀ e ∈ entries.map Element.value, Supported names .value e) :
      Supported names .value (.mk span (.array entries))
  | index {span target index} (ht : Supported names .value target)
      (hk : Supported names .value index) :
      Supported names .value (.mk span (.access .indexed target (some index)))
  | unset {span name arguments} (hname : equalIgnoringCase (names.text name) "unset" = true)
      (harguments : ∀ argument ∈ arguments, argument.varName?.isSome = true) :
      Supported names .value (.mk span (.call name arguments))
  | call {span name arguments} (hname : equalIgnoringCase (names.text name) "unset" = false)
      (hes : ∀ e ∈ arguments, Supported names .value e) :
      Supported names .value (.mk span (.call name arguments))
  | paren {span inner} (h : Supported names .value inner) :
      Supported names .value (.mk span (.paren inner))
  | placeVar {span name} : Supported names .place (.mk span (.var name))
  | placeIndex {span target index} (ht : Supported names .place target)
      (hk : Supported names .value index) :
      Supported names .place (.mk span (.access .indexed target (some index)))
  | placeParen {span inner} (h : Supported names .place inner) :
      Supported names .place (.mk span (.paren inner))

theorem scalarLiteral_eq_ok_iff {kind : ScalarKind} {text : String} {span : Span} :
    (∃ literal, scalarLiteral kind text span = .ok literal) ↔ kind.accepts text = true := by
  cases kind with
  | int => cases h : parseInteger? text <;> simp [scalarLiteral, ScalarKind.accepts, h]
  | real => cases h : parseFloat? text <;> simp [scalarLiteral, ScalarKind.accepts, h]
  | string => cases h : parseBool? text <;> simp [scalarLiteral, ScalarKind.accepts, h]
  | other => simp [scalarLiteral, ScalarKind.accepts]

theorem Expr.eq_var_of_varName? {e : Expr} {name : Name} (h : e.varName? = some name) :
    ∃ span, e = .mk span (.var name) := by
  obtain ⟨span, form⟩ := e
  cases form with
  | var other =>
    cases h
    exact ⟨span, rfl⟩
  | _ => cases h

/-- The expressions of a part of the source are supported. A compound assignment compiles its target
as a value, too. -/
def Piece.Supported (names : NameTable) : Piece → Prop
  | .value e _ => ExprCore.Supported names .value e
  | .place e _ => ExprCore.Supported names .place e
  | .stored effect target e _ _ =>
    ExprCore.Supported names .value e
      ∧ (effect = .plain ∨ ExprCore.Supported names .value target)
  | .values es _ => ∀ e ∈ es, ExprCore.Supported names .value e

/-- What was compiled is supported. -/
theorem Lowered.supported {names : NameTable} {piece : Piece} {s t : LowerState}
    (h : Lowered names piece s t) : piece.Supported names := by
  induction h with
  | scalar hliteral => exact .scalar (scalarLiteral_eq_ok_iff.1 ⟨_, hliteral⟩)
  | var => exact .var
  | binary hop _ _ ihl ihr => exact .binary hop ihl ihr
  | unary hop _ ihx => exact .unary hop ihx
  | step hname =>
    obtain ⟨operandSpan, rfl⟩ := Expr.eq_var_of_varName? hname
    exact .step
  | assign heffect _ ihv => exact .assign heffect ihv.1
  | append heffect _ _ ihv ihp =>
    obtain ⟨hvalue, rfl | htarget⟩ := ihv
    · exact .append heffect hvalue ihp
    · -- the end of an array has no value
      cases htarget
  | storeElement heffect _ _ _ ihv ihp ihk => exact .storeElement heffect ihv.1 ihp ihk
  | list hkeys _ ihes => exact .list hkeys ihes
  | index _ _ iht ihk => exact .index iht ihk
  | unset hname harguments => exact .unset hname harguments
  | call hname _ ihes => exact .call hname ihes
  | paren _ ih => exact .paren ih
  | storedPlain _ ihv => exact ⟨ihv, .inl rfl⟩
  | storedCompound _ _ ihl ihr => exact ⟨ihr, .inr ihl⟩
  | placeVar => exact .placeVar
  | placeIndex _ _ iht ihk => exact .placeIndex iht ihk
  | placeParen _ ih => exact .placeParen ih
  | nil => exact List.forall_mem_nil _
  | cons _ _ ih ihs => exact List.forall_mem_cons.2 ⟨ih, ihs⟩

namespace Lower

variable {α β : Type}

/-- The step succeeds in every state. -/
def Succeeds (x : Lower α) : Prop := ∀ s, ∃ a t, x s = .ok a t

namespace Succeeds

theorem pure (a : α) : Succeeds (Pure.pure a) := fun s => ⟨a, s, rfl⟩

theorem bind {x : Lower α} {f : α → Lower β} (hx : Succeeds x) (hf : ∀ a, Succeeds (f a)) :
    Succeeds (x >>= f) := by
  intro s
  obtain ⟨a, t, ha⟩ := hx s
  obtain ⟨b, u, hb⟩ := hf a t
  refine ⟨b, u, ?_⟩
  show EStateM.bind x f s = .ok b u
  rw [EStateM.bind, ha]
  exact hb

theorem get : Succeeds (MonadState.get : Lower LowerState) := fun _ => ⟨_, _, rfl⟩

theorem emit (node : Node) (span : Span) : Succeeds (Lower.emit node span) := fun _ => ⟨_, _, rfl⟩

theorem emitList (ids : List NodeId) : Succeeds (Lower.emitList ids) := fun _ => ⟨_, _, rfl⟩

theorem emitSlots (slots : List Slot) : Succeeds (Lower.emitSlots slots) := fun _ => ⟨_, _, rfl⟩

theorem define (name : Name) : Succeeds (Lower.define name) := fun _ => ⟨_, _, rfl⟩

theorem find? (name : Name) : Succeeds (Lower.find? name) := fun _ => ⟨_, _, rfl⟩

theorem scopeId : Succeeds Lower.scopeId := fun _ => ⟨_, _, rfl⟩

theorem lowerStored {effect : AssignEffect} {target value : Lower NodeId} {span : Span}
    (htarget : effect = .plain ∨ Succeeds target) (hvalue : Succeeds value) :
    Succeeds (ExprCore.lowerStored effect target value span) := by
  cases effect with
  | plain => exact hvalue
  | compound op =>
    obtain heq | htarget := htarget
    · cases heq
    · exact htarget.bind fun l => hvalue.bind fun r => .emit _ _

theorem lowerAll {names : NameTable} {es : List Expr} (h : ∀ e ∈ es, Succeeds (lower names e))
    (done : List NodeId) : Succeeds (ExprCore.lowerAll names done es) := by
  induction es generalizing done with
  | nil =>
    rw [ExprCore.lowerAll]
    exact .pure _
  | cons e es ih =>
    rw [List.forall_mem_cons] at h
    rw [ExprCore.lowerAll]
    exact h.1.bind fun id => ih h.2 _

theorem lowerEntries {names : NameTable} {entries : List (Element Expr)}
    (hkeys : ∀ entry ∈ entries, entry.key = none)
    (h : ∀ e ∈ entries.map Element.value, Succeeds (lower names e)) (done : List NodeId) :
    Succeeds (ExprCore.lowerEntries names done entries) := by
  induction entries generalizing done with
  | nil =>
    rw [ExprCore.lowerEntries]
    exact .pure _
  | cons entry entries ih =>
    obtain ⟨key, value⟩ := entry
    rw [List.forall_mem_cons] at hkeys
    rw [List.map_cons, List.forall_mem_cons] at h
    obtain rfl : key = none := hkeys.1
    rw [ExprCore.lowerEntries]
    exact h.1.bind fun id => ih hkeys.2 h.2 _

theorem lowerMembers {names : NameTable} {es : List Expr}
    (h : ∀ e ∈ es, Succeeds (lower names e)) (done : List NodeId) :
    Succeeds (ExprCore.lowerMembers names done (es.map some)) := by
  induction es generalizing done with
  | nil => exact .pure _
  | cons e es ih =>
    rw [List.forall_mem_cons] at h
    exact h.1.bind fun id => ih h.2 _

end Succeeds

end Lower

open Lower

/-- What compilation has to do for an expression in a role. A container can be read as well, which
is what a compound assignment does with its target. -/
def Role.Lowers (names : NameTable) (e : Expr) : Role → Prop
  | .value => Succeeds (lower names e)
  | .place => Succeeds (lowerPlace names e) ∧ Succeeds (lower names e)

/-- What is supported is compiled, whatever the scope and the code so far. -/
theorem Supported.lowers {names : NameTable} {role : Role} {e : Expr}
    (h : Supported names role e) : role.Lowers names e := by
  induction h with
  | scalar htext =>
    obtain ⟨literal, hliteral⟩ := scalarLiteral_eq_ok_iff.2 htext
    rw [Role.Lowers, lower, lowerScalar, hliteral]
    exact .emit _ _
  | var =>
    rw [Role.Lowers, lower]
    exact (Succeeds.find? _).bind fun slot => .emit _ _
  | binary hop _ _ ihl ihr =>
    rw [Role.Lowers, lower, hop]
    exact Succeeds.bind ihl fun l => Succeeds.bind ihr fun r => .emit _ _
  | unary hop _ ihx =>
    rw [Role.Lowers, lower, hop]
    exact Succeeds.bind ihx fun x => .emit _ _
  | step =>
    rw [Role.Lowers, lower]
    exact (Succeeds.define _).bind fun slot => .emit _ _
  | assign heffect _ ihv =>
    have htarget : ∀ {span name}, Succeeds (lower names (.mk span (.var name))) := by
      intro span name
      rw [lower]
      exact (Succeeds.find? _).bind fun slot => .emit _ _
    rw [Role.Lowers, lower, heffect]
    simp only [lowerWrite]
    refine (Succeeds.lowerStored (.inr htarget) ihv).bind fun v => ?_
    exact (Succeeds.define _).bind fun slot => .emit _ _
  | append heffect _ _ ihv ihp =>
    rw [Role.Lowers, lower, heffect]
    simp only [lowerWrite]
    refine (Succeeds.lowerStored (.inl rfl) ihv).bind fun v => ?_
    exact ihp.1.bind fun p => .emit _ _
  | @storeElement span targetSpan token effect container index value heffect _ _ _ ihv ihp ihk =>
    -- the target of a compound assignment is read like any element
    have htarget : Succeeds (lower names
        (.mk targetSpan (.access .indexed container (some index)))) := by
      rw [lower]
      exact ihp.2.bind fun t => Succeeds.bind ihk fun k => .emit _ _
    rw [Role.Lowers, lower, heffect]
    simp only [lowerWrite]
    refine (Succeeds.lowerStored (.inr htarget) ihv).bind fun v => ?_
    exact ihp.1.bind fun p => Succeeds.bind ihk fun k => .emit _ _
  | list hkeys _ ihes =>
    rw [Role.Lowers, lower]
    refine (Succeeds.lowerEntries hkeys ihes []).bind fun ids => ?_
    exact (Succeeds.emitList ids).bind fun segment => .emit _ _
  | index _ _ iht ihk =>
    rw [Role.Lowers, lower]
    exact Succeeds.bind iht fun t => Succeeds.bind ihk fun k => .emit _ _
  | @unset span name arguments hname harguments =>
    have hfind : arguments.find? (·.varName?.isNone) = none := by
      refine List.find?_eq_none.2 fun argument hmem => ?_
      simp [Option.isSome_iff_ne_none.1 (harguments argument hmem)]
    rw [Role.Lowers, lower, hname, if_pos rfl, lowerUnset, hfind]
    refine Succeeds.get.bind fun s => ?_
    exact (Succeeds.emitSlots _).bind fun segment => .emit _ _
  | call hname _ ihes =>
    rw [Role.Lowers, lower, hname, if_neg Bool.false_ne_true]
    refine (Succeeds.lowerAll ihes []).bind fun ids => ?_
    refine (Succeeds.emitList ids).bind fun segment => ?_
    exact Succeeds.scopeId.bind fun id => .emit _ _
  | paren _ ih =>
    rw [Role.Lowers, lower]
    exact ih
  | placeVar =>
    rw [Role.Lowers, lowerPlace, lower]
    exact ⟨(Succeeds.define _).bind fun slot => .emit _ _,
      (Succeeds.find? _).bind fun slot => .emit _ _⟩
  | placeIndex _ _ iht ihk =>
    rw [Role.Lowers, lowerPlace, lower]
    exact ⟨iht.1.bind fun t => Succeeds.bind ihk fun k => .emit _ _,
      iht.2.bind fun t => Succeeds.bind ihk fun k => .emit _ _⟩
  | placeParen _ ih =>
    rw [Role.Lowers, lowerPlace, lower]
    exact ih

theorem Compilation.ofLower_of_succeeds {root : Lower NodeId} (h : Succeeds root) (scope : Scope) :
    ∃ c scope', Compilation.ofLower scope root = ⟨.ok c, scope'⟩ := by
  obtain ⟨id, t, hroot⟩ := h ⟨scope, .empty⟩
  refine ⟨⟨t.code, id⟩, t.scope, ?_⟩
  rw [Compilation.ofLower, EStateM.run, hroot]

/-- Supported expressions are compiled in every scope. -/
theorem Supported.compiles {names : NameTable} {e : Expr} (h : Supported names .value e)
    (scope : Scope) :
    ∃ c scope', compile names scope (some e) = ⟨.ok c, scope'⟩ :=
  Compilation.ofLower_of_succeeds h.lowers scope

/-- So are sequences of supported expressions that are short enough to be stored. -/
theorem Supported.compiles_sequence {names : NameTable} {es : List Expr}
    (h : ∀ e ∈ es, Supported names .value e) (hlength : es.length ≤ maxListLength)
    (scope : Scope) :
    ∃ c scope', compileSequence names scope (es.map some) = ⟨.ok c, scope'⟩ := by
  have hmembers : Succeeds (lowerSequence names (es.map some)) := by
    refine (Succeeds.lowerMembers (fun e he => (h e he).lowers) []).bind fun items => ?_
    exact (Succeeds.emitList items).bind fun segment => .emit _ _
  rw [compileSequence, if_neg (by rw [List.length_map]; omega)]
  exact Compilation.ofLower_of_succeeds hmembers scope

/-- The compiler accepts exactly the supported expressions, in every scope. -/
theorem compile_succeeds_iff {names : NameTable} {scope : Scope} {root : Option Expr} :
    (∃ c scope', compile names scope root = ⟨.ok c, scope'⟩)
      ↔ ∃ e, root = some e ∧ Supported names .value e := by
  constructor
  · rintro ⟨c, scope', h⟩
    obtain ⟨e, rfl, hlowered⟩ := lowered_of_compile h
    exact ⟨e, rfl, hlowered.supported⟩
  · rintro ⟨e, rfl, h⟩
    exact h.compiles scope

/-- `($a)[] = $b` appends to `$a`, -/
example (names : NameTable) (span : Span) (a b : Name) :
    Supported names .value (.mk span (.assign .equal
      (.mk span (.access .indexed (.mk span (.paren (.mk span (.var a)))) none))
      (.mk span (.var b)))) :=
  .append rfl .var (.placeParen .placeVar)

/-- but `($a) = $b` is not supported. -/
example (names : NameTable) (span : Span) (a b : Name) :
    ¬ Supported names .value (.mk span (.assign .equal
      (.mk span (.paren (.mk span (.var a)))) (.mk span (.var b)))) :=
  nofun

end ExprCore
