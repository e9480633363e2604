import ExprCore.Proofs.ExactArithmetic
import ExprCore.Proofs.Shifts

/-!
# Failures of operators

When an operator on two values fails, with which error, and what it yields otherwise. Arithmetic
takes no arrays, and looks at that before it looks at the divisor. A shift looks at its left operand
first, then at its right one, and then at the sign of the amount. Comparisons and logical operators
never fail.

## Main definitions

- `OperatorFamily`, `BinaryOp.family`: the families of operators
- `Value.IsZero`: what nothing can be divided by
- `BinaryOp.Fails`: the failures, with their errors
- `BinaryOp.Yields`: the results that an operator may have

## Main statements

- `ArithmeticOp.apply_eq_error_iff`, `ShiftOp.apply_eq_error_iff`: the failures of one family
- `operators_fail_exactly`: the failures and results of all operators
-/

namespace ExprCore

/-- The families of operators on two values. -/
inductive OperatorFamily where
  | arithmetic | comparison | logical | shift
deriving DecidableEq

/-- The family of an operator. -/
def BinaryOp.family : BinaryOp → OperatorFamily
  | add | sub | mul | div => .arithmetic
  | eq | ne | lt | le | gt | ge => .comparison
  | and | or => .logical
  | shl | shr => .shift

/-- The number is the integer 0 or a zero of either sign. -/
def Number.IsZero : Number → Prop
  | int n => n = 0
  | float x => x = 0 ∨ x = -0

namespace Value

/-- The value is an array. -/
def IsArray (v : Value) : Prop := ∃ items, v = .array items

/-- The value is a double. -/
def IsFloat (v : Value) : Prop := ∃ x, v = .float x

/-- The value is a zero in arithmetic. -/
def IsZero (v : Value) : Prop := ∃ n, v.number? = some n ∧ n.IsZero

theorem isArray_iff {v : Value} : v.IsArray ↔ v.number? = none := number?_eq_none_iff.symm

theorem not_isArray_of_number? {v : Value} {n : Number} (h : v.number? = some n) : ¬v.IsArray := by
  rw [isArray_iff, h]
  exact Option.some_ne_none n

theorem exists_number? {v : Value} (h : ¬v.IsArray) : ∃ n, v.number? = some n :=
  Option.ne_none_iff_exists'.1 (mt isArray_iff.2 h)

theorem isZero_iff {v : Value} {n : Number} (h : v.number? = some n) : v.IsZero ↔ n.IsZero := by
  constructor
  · rintro ⟨m, hm, hzero⟩
    cases h.symm.trans hm
    exact hzero
  · exact fun hzero => ⟨n, h, hzero⟩

theorem not_isFloat_of_number? {v : Value} {n : Int64} (h : v.number? = some (.int n)) :
    ¬v.IsFloat := by
  rintro ⟨x, rfl⟩
  cases h

end Value

/-- The failures of an operator on two values. -/
inductive BinaryOp.Fails (op : BinaryOp) (l r : Value) : EvalError → Prop
  /-- Arithmetic takes no arrays. -/
  | arithmeticOnArray : op.family = .arithmetic → l.IsArray ∨ r.IsArray →
      Fails op l r (.binaryTypeMismatch op l.typeName r.typeName)
  /-- Nothing can be divided by a zero. -/
  | divisionByZero : op = .div → ¬l.IsArray → r.IsZero → Fails op l r .divisionByZero
  /-- An array cannot be shifted. -/
  | shiftOfArray : op.family = .shift → l.IsArray →
      Fails op l r (.typeMismatch "int" l.typeName)
  /-- Nothing can be shifted by an array. -/
  | shiftByArray : op.family = .shift → ¬l.IsArray → r.IsArray →
      Fails op l r (.typeMismatch "int" r.typeName)
  /-- Nothing can be shifted by a negative number of bits. -/
  | negativeShift {n : Int64} : op.family = .shift → ¬l.IsArray → r.integer? = some n →
      n.toInt < 0 → Fails op l r (.negativeShift n)

/-- What an operator on two values may yield. -/
inductive BinaryOp.Yields (op : BinaryOp) (l r : Value) : Value → Prop
  | truth (b : Bool) : op.family = .comparison ∨ op.family = .logical → Yields op l r (.bool b)
  | shifted (n : Int64) : op.family = .shift → Yields op l r (.int n)
  /-- Arithmetic yields an integer only where neither operand is a double. -/
  | whole (n : Int64) : op.family = .arithmetic → ¬l.IsFloat → ¬r.IsFloat →
      Yields op l r (.int n)
  | rounded (x : Float) : op.family = .arithmetic → Yields op l r (.float x)

/-- A double is equal to 0 if it is a zero of either sign. -/
theorem float_beq_zero_iff {x : Float} : (x == 0) = true ↔ x = 0 ∨ x = -0 := by
  have hzero : (0 : Float) ≠ Float.nan := by decide
  have hneg : (-0 : Float) ≠ Float.nan := by decide
  rw [Float.beq_iff_ne_nan_and_eq]
  constructor
  · rintro ⟨-, -, rfl | ⟨rfl, -⟩ | ⟨rfl, -⟩⟩
    · exact .inl rfl
    · exact .inl rfl
    · exact .inr rfl
  · rintro (rfl | rfl)
    · exact ⟨hzero, hzero, .inl rfl⟩
    · exact ⟨hneg, hzero, .inr (.inr ⟨rfl, rfl⟩)⟩

theorem Number.toFloat_beq_zero_iff {n : Number} : (n.toFloat == 0) = true ↔ n.IsZero := by
  cases n with
  | int n =>
    constructor
    · intro h
      by_contra hn
      exact absurd h (Bool.eq_false_iff.1 (integerToFloat_ne_zero hn))
    · intro h
      cases (h : n = 0)
      decide
  | float x => exact float_beq_zero_iff

namespace ArithmeticOp

variable {op : ArithmeticOp} {l r v : Value} {e : EvalError}

theorem onFloats_eq_error_iff {a b : Float} :
    op.onFloats a b = .error e ↔ op = .div ∧ (b == 0) = true ∧ e = .divisionByZero := by
  by_cases hop : op = .div
  · subst hop
    rw [onFloats]
    by_cases hb : (b == 0) = true
    · rw [if_pos hb, Except.error.injEq]
      exact ⟨fun h => ⟨rfl, hb, h.symm⟩, fun h => h.2.2.symm⟩
    · rw [if_neg hb]
      simp only [reduceCtorEq, hb, false_and, and_false]
  · have hresult : op.onFloats a b ≠ .error e := by
      intro h
      cases op with
      | div => exact hop rfl
      | _ => cases h
    exact ⟨fun h => absurd h hresult, fun h => absurd h.1 hop⟩

theorem eq_float_of_onFloats {a b : Float} (h : op.onFloats a b = .ok v) : ∃ x, v = .float x := by
  cases op with
  | div =>
    rw [onFloats] at h
    split at h <;> cases h
    exact ⟨_, rfl⟩
  | _ =>
    cases h
    exact ⟨_, rfl⟩

theorem onIntegers_eq_error_iff_of_any {a b : Int64} :
    op.onIntegers a b = .error e ↔ op = .div ∧ b = 0 ∧ e = .divisionByZero := by
  by_cases h : op = .div ∧ b = 0
  · rw [onIntegers, if_pos h, Except.error.injEq]
    exact ⟨fun he => ⟨h.1, h.2, he.symm⟩, fun he => he.2.2.symm⟩
  · refine ⟨fun hfails => ?_, fun he => absurd ⟨he.1, he.2.1⟩ h⟩
    rw [onIntegers, if_neg h, onFloats_integerToFloat h] at hfails
    split at hfails <;> cases hfails

/-- On numbers only a division by zero fails. -/
theorem apply_numbers_eq_error_iff {a b : Number} (hl : l.number? = some a)
    (hr : r.number? = some b) :
    op.apply l r = .error e ↔ op = .div ∧ b.IsZero ∧ e = .divisionByZero := by
  rw [apply, hl, hr]
  cases a with
  | int a =>
    cases b with
    | int b => exact onIntegers_eq_error_iff_of_any
    | float y =>
      refine onFloats_eq_error_iff.trans ?_
      rw [Number.toFloat_beq_zero_iff]
  | float x =>
    refine onFloats_eq_error_iff.trans ?_
    rw [Number.toFloat_beq_zero_iff]

/-- Arithmetic fails for arrays, and a division for a divisor that is a zero. -/
theorem apply_eq_error_iff :
    op.apply l r = .error e ↔
      (l.IsArray ∨ r.IsArray) ∧ e = .binaryTypeMismatch op.toBinaryOp l.typeName r.typeName
      ∨ op = .div ∧ ¬l.IsArray ∧ r.IsZero ∧ e = .divisionByZero := by
  by_cases harray : l.IsArray ∨ r.IsArray
  · have hmismatch : op.apply l r
        = .error (.binaryTypeMismatch op.toBinaryOp l.typeName r.typeName) := by
      rcases harray with hl | hr
      · rw [apply, Value.isArray_iff.1 hl]
      · rw [apply, Value.isArray_iff.1 hr]
        rcases l.number? with _ | ⟨_ | _⟩ <;> rfl
    rw [hmismatch, Except.error.injEq]
    constructor
    · exact fun he => .inl ⟨harray, he.symm⟩
    · rintro (⟨-, rfl⟩ | ⟨-, hl, ⟨n, hn, -⟩, -⟩)
      · rfl
      · exact absurd harray (not_or.2 ⟨hl, Value.not_isArray_of_number? hn⟩)
  · obtain ⟨hl, hr⟩ := not_or.1 harray
    obtain ⟨a, ha⟩ := Value.exists_number? hl
    obtain ⟨b, hb⟩ := Value.exists_number? hr
    rw [apply_numbers_eq_error_iff ha hb, Value.isZero_iff hb]
    constructor
    · rintro ⟨hop, hzero, he⟩
      exact .inr ⟨hop, hl, hzero, he⟩
    · rintro (⟨h, -⟩ | ⟨hop, -, hzero, he⟩)
      · exact absurd h harray
      · exact ⟨hop, hzero, he⟩

/-- Arithmetic yields an integer or a double, and a double whenever an operand is one. -/
theorem result_of_apply (h : op.apply l r = .ok v) :
    (∃ n, v = .int n) ∧ ¬l.IsFloat ∧ ¬r.IsFloat ∨ ∃ x, v = .float x := by
  rw [apply] at h
  split at h
  · rename_i a b ha hb
    unfold onIntegers at h
    split at h
    · cases h
    · split at h
      · cases h
        exact .inl ⟨⟨_, rfl⟩, Value.not_isFloat_of_number? ha, Value.not_isFloat_of_number? hb⟩
      · exact .inr (eq_float_of_onFloats h)
  · exact .inr (eq_float_of_onFloats h)
  · cases h

end ArithmeticOp

namespace ShiftOp

variable {op : ShiftOp} {l r v : Value} {e : EvalError}

theorem exists_integer? (h : ¬v.IsArray) : ∃ n, v.integer? = some n := by
  obtain ⟨n, hn⟩ := Value.exists_number? h
  exact ⟨n.toInteger, by rw [Value.integer?, hn, Option.map_some]⟩

theorem operand_of_array (h : v.IsArray) : operand v = .error (.typeMismatch "int" v.typeName) := by
  rw [operand, Value.isArray_iff.1 h]

/-- A shift fails for an array on the left, else for one on the right, else for a negative
amount. -/
theorem apply_eq_error_iff :
    op.apply l r = .error e ↔
      l.IsArray ∧ e = .typeMismatch "int" l.typeName
      ∨ ¬l.IsArray ∧ r.IsArray ∧ e = .typeMismatch "int" r.typeName
      ∨ ¬l.IsArray ∧ ∃ n, r.integer? = some n ∧ n.toInt < 0 ∧ e = .negativeShift n := by
  by_cases hl : l.IsArray
  · have hfails : op.apply l r = .error (.typeMismatch "int" l.typeName) := by
      rw [apply, operand_of_array hl]
      rfl
    rw [hfails, Except.error.injEq]
    simp only [hl, true_and, not_true_eq_false, false_and, or_false, eq_comm]
  obtain ⟨value, hvalue⟩ := exists_integer? hl
  by_cases hr : r.IsArray
  · have hfails : op.apply l r = .error (.typeMismatch "int" r.typeName) := by
      rw [apply, operand_of_integer? hvalue, operand_of_array hr]
      rfl
    have hnone : r.integer? = none := by
      rw [Value.integer?, Value.isArray_iff.1 hr, Option.map_none]
    rw [hfails, Except.error.injEq, hnone]
    simp only [hl, hr, true_and, not_false_eq_true, false_and, false_or, or_false, eq_comm,
      reduceCtorEq, exists_false]
  obtain ⟨amount, hamount⟩ := exists_integer? hr
  rw [← toBinaryOp_apply, op.apply_eq hvalue hamount]
  simp only [hl, hr, false_and, not_false_eq_true, true_and, false_or, hamount, Option.some.injEq]
  by_cases hn : amount.toInt < 0
  · rw [if_pos hn, Except.error.injEq]
    constructor
    · exact fun h => ⟨amount, rfl, hn, h.symm⟩
    · rintro ⟨n, rfl, -, rfl⟩
      rfl
  · rw [if_neg hn]
    constructor
    · intro h
      cases h
    · rintro ⟨n, rfl, hneg, -⟩
      exact absurd hneg hn

theorem eq_int_of_apply (h : op.apply l r = .ok v) : ∃ n, v = .int n := by
  have hl : ¬l.IsArray := fun hl => by
    rw [apply_eq_error_iff.2 (.inl ⟨hl, rfl⟩)] at h
    cases h
  have hr : ¬r.IsArray := fun hr => by
    rw [apply_eq_error_iff.2 (.inr (.inl ⟨hl, hr, rfl⟩))] at h
    cases h
  obtain ⟨value, hvalue⟩ := exists_integer? hl
  obtain ⟨amount, hamount⟩ := exists_integer? hr
  rw [← toBinaryOp_apply, op.apply_eq hvalue hamount] at h
  split at h <;> cases h
  exact ⟨_, rfl⟩

end ShiftOp

namespace BinaryOp

variable {op : BinaryOp} {l r : Value} {e : EvalError}

theorem exists_arithmeticOp (h : op.family = .arithmetic) :
    ∃ a : ArithmeticOp, op = a.toBinaryOp := by
  cases op with
  | add => exact ⟨.add, rfl⟩
  | sub => exact ⟨.sub, rfl⟩
  | mul => exact ⟨.mul, rfl⟩
  | div => exact ⟨.div, rfl⟩
  | _ => cases h

theorem exists_shiftOp (h : op.family = .shift) : ∃ s : ShiftOp, op = s.toBinaryOp := by
  cases op with
  | shl => exact ⟨.left, rfl⟩
  | shr => exact ⟨.right, rfl⟩
  | _ => cases h

/-- Comparisons and logical operators always yield a truth value. -/
theorem exists_truth (h : op.family = .comparison ∨ op.family = .logical) (l r : Value) :
    ∃ b, op.apply l r = .ok (.bool b) := by
  cases op with
  | eq | ne | lt | le | gt | ge | and | or => exact ⟨_, rfl⟩
  | _ => rcases h with h | h <;> cases h

theorem family_arithmetic (a : ArithmeticOp) : a.toBinaryOp.family = .arithmetic := by
  cases a <;> rfl

theorem family_shift (s : ShiftOp) : s.toBinaryOp.family = .shift := by
  cases s <;> rfl

theorem fails_arithmetic_iff (a : ArithmeticOp) :
    a.toBinaryOp.Fails l r e ↔
      (l.IsArray ∨ r.IsArray) ∧ e = .binaryTypeMismatch a.toBinaryOp l.typeName r.typeName
      ∨ a = .div ∧ ¬l.IsArray ∧ r.IsZero ∧ e = .divisionByZero := by
  have hfamily := family_arithmetic a
  have hdiv : a.toBinaryOp = .div ↔ a = .div := by cases a <;> decide
  constructor
  · rintro (⟨-, harray⟩ | ⟨hop, hl, hzero⟩ | hshift | hshift | hshift)
    · exact .inl ⟨harray, rfl⟩
    · exact .inr ⟨hdiv.1 hop, hl, hzero, rfl⟩
    all_goals cases hfamily.symm.trans hshift
  · rintro (⟨harray, rfl⟩ | ⟨hop, hl, hzero, rfl⟩)
    · exact .arithmeticOnArray hfamily harray
    · exact .divisionByZero (hdiv.2 hop) hl hzero

theorem fails_shift_iff (s : ShiftOp) :
    s.toBinaryOp.Fails l r e ↔
      l.IsArray ∧ e = .typeMismatch "int" l.typeName
      ∨ ¬l.IsArray ∧ r.IsArray ∧ e = .typeMismatch "int" r.typeName
      ∨ ¬l.IsArray ∧ ∃ n, r.integer? = some n ∧ n.toInt < 0 ∧ e = .negativeShift n := by
  have hfamily := family_shift s
  constructor
  · rintro (⟨harithmetic, -⟩ | ⟨hdiv, -, -⟩ | ⟨-, hl⟩ | ⟨-, hl, hr⟩ | ⟨-, hl, hn, hneg⟩)
    · cases hfamily.symm.trans harithmetic
    · rw [hdiv] at hfamily
      cases hfamily
    · exact .inl ⟨hl, rfl⟩
    · exact .inr (.inl ⟨hl, hr, rfl⟩)
    · exact .inr (.inr ⟨hl, _, hn, hneg, rfl⟩)
  · rintro (⟨hl, rfl⟩ | ⟨hl, hr, rfl⟩ | ⟨hl, n, hn, hneg, rfl⟩)
    · exact .shiftOfArray hfamily hl
    · exact .shiftByArray hfamily hl hr
    · exact .negativeShift hfamily hl hn hneg

theorem not_fails (h : op.family = .comparison ∨ op.family = .logical) : ¬op.Fails l r e := by
  rintro (⟨hop, -⟩ | ⟨rfl, -, -⟩ | ⟨hop, -⟩ | ⟨hop, -, -⟩ | ⟨hop, -, -, -⟩)
  case divisionByZero => rcases h with h | h <;> cases h
  all_goals
    rw [hop] at h
    rcases h with h | h <;> cases h

end BinaryOp

/-- An operator on two values fails exactly when it must, with the right error, and otherwise yields
a value of the right type: comparisons and logical operators a truth value, shifts an integer, and
arithmetic an integer or a double, the latter whenever an operand is a double. -/
theorem operators_fail_exactly (op : BinaryOp) (l r : Value) :
    (∀ e : EvalError, op.apply l r = .error e ↔ op.Fails l r e)
    ∧ ∀ v : Value, op.apply l r = .ok v → op.Yields l r v := by
  have htruth (h : op.family = .comparison ∨ op.family = .logical) :
      (∀ e : EvalError, op.apply l r = .error e ↔ op.Fails l r e)
      ∧ ∀ v : Value, op.apply l r = .ok v → op.Yields l r v := by
    obtain ⟨b, hb⟩ := BinaryOp.exists_truth h l r
    rw [hb]
    refine ⟨fun e => ⟨fun he => (nomatch he), fun he => absurd he (BinaryOp.not_fails h)⟩, ?_⟩
    rintro _ ⟨⟩
    exact .truth b h
  cases hfamily : op.family with
  | arithmetic =>
    obtain ⟨a, rfl⟩ := BinaryOp.exists_arithmeticOp hfamily
    rw [ArithmeticOp.toBinaryOp_apply]
    refine ⟨fun e => ArithmeticOp.apply_eq_error_iff.trans (BinaryOp.fails_arithmetic_iff a).symm,
      fun v hv => ?_⟩
    obtain ⟨⟨n, rfl⟩, hl, hr⟩ | ⟨x, rfl⟩ := ArithmeticOp.result_of_apply hv
    · exact .whole n hfamily hl hr
    · exact .rounded x hfamily
  | comparison => exact htruth (.inl hfamily)
  | logical => exact htruth (.inr hfamily)
  | shift =>
    obtain ⟨s, rfl⟩ := BinaryOp.exists_shiftOp hfamily
    rw [ShiftOp.toBinaryOp_apply]
    refine ⟨fun e => ShiftOp.apply_eq_error_iff.trans (BinaryOp.fails_shift_iff s).symm,
      fun v hv => ?_⟩
    obtain ⟨n, rfl⟩ := ShiftOp.eq_int_of_apply hv
    exact .shifted n hfamily

/-- An array counts before a zero divisor, and a negative zero is a zero divisor like `false`. -/
theorem operators_fail_exactly_zero :
    BinaryOp.div.apply (.array #[]) .null = .error (.binaryTypeMismatch .div "array" "null")
    ∧ BinaryOp.div.apply (.int 1) (.float (-0)) = .error .divisionByZero
    ∧ BinaryOp.div.apply (.float 1) (.bool false) = .error .divisionByZero
    ∧ BinaryOp.sub.apply (.bool true) .null = .ok (.int 1)
    ∧ BinaryOp.sub.Yields (.bool true) .null (.int 1) := by
  have hone : ¬(Value.int 1).IsArray := fun ⟨_, h⟩ => nomatch h
  have hfloat : ¬(Value.float 1).IsArray := fun ⟨_, h⟩ => nomatch h
  refine ⟨?_, ?_, ?_, rfl, (operators_fail_exactly _ _ _).2 _ rfl⟩
  · exact ((operators_fail_exactly .div _ _).1 _).2 (.arithmeticOnArray rfl (.inl ⟨_, rfl⟩))
  · exact ((operators_fail_exactly .div _ _).1 _).2
      (.divisionByZero rfl hone ⟨_, rfl, .inr rfl⟩)
  · exact ((operators_fail_exactly .div _ _).1 _).2 (.divisionByZero rfl hfloat ⟨_, rfl, rfl⟩)

end ExprCore
