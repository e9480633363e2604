import ExprCore.Proofs.LooseComparison

/-!
# Integers and arrays in order

Loose comparison is a total order on the values that are built from integers and arrays alone: the
shorter of two arrays comes first, arrays of one length are in the order of their first elements
that differ, and an integer comes before every array, also where the two meet inside of arrays.

Two such values are equal only if they are the same, and this is what makes the order of arrays
transitive: elements in front of the deciding ones can be exchanged for each other.

## Main definitions

- `Value.OfIntegers`: the values built from integers and arrays

## Main statements

- `Value.OfIntegers.eq_of_compare?`: equality by comparison is equality
- `Value.OfIntegers.compare?_trans`: the order is transitive
- `integers_and_arrays_are_totally_ordered`: the comparisons are those of a total order
-/

namespace ExprCore

theorem compareIntegers_eq_eq_iff {n k : Int64} : compareIntegers n k = .eq ↔ n = k :=
  Int.compare_eq_eq.trans Int64.toInt_inj

theorem compareIntegers_eq_lt_iff {n k : Int64} :
    compareIntegers n k = .lt ↔ n.toInt < k.toInt :=
  Int.compare_eq_lt

namespace Value

/-- The value is an integer or an array of such values. -/
inductive OfIntegers : Value → Prop
  | int (n : Int64) : OfIntegers (.int n)
  | array {items : List Value} : (∀ v ∈ items, OfIntegers v) → OfIntegers (.array ⟨items⟩)

variable {a b c : Value} {as bs cs : List Value}

@[simp] theorem ofIntegers_int (n : Int64) : (int n).OfIntegers := .int n

@[simp] theorem ofIntegers_array_iff {items : List Value} :
    (array ⟨items⟩).OfIntegers ↔ ∀ v ∈ items, v.OfIntegers := by
  constructor
  · rintro ⟨⟩
    assumption
  · exact .array

theorem OfIntegers.not_containsNaN (h : a.OfIntegers) : ¬a.ContainsNaN := by
  induction h with
  | int n => exact not_containsNaN_int n
  | array _ ih =>
    rw [containsNaN_array_iff]
    rintro ⟨v, hmem, hnan⟩
    exact ih v hmem hnan

theorem eq_of_compareItems? (hlength : as.length = bs.length)
    (h : ∀ a ∈ as, ∀ b ∈ bs, a.compare? b = some .eq → a = b)
    (hequal : compareItems? as bs = some .eq) : as = bs := by
  induction as generalizing bs with
  | nil => exact (List.eq_nil_of_length_eq_zero hlength.symm).symm
  | cons a as ih =>
    cases bs with
    | nil => cases hlength
    | cons b bs =>
      obtain ⟨hfirst, hrest⟩ := compareItems?_eq_eq_iff.1 hequal
      have htail := ih (Nat.succ.inj hlength)
        (fun x hx y hy => h x (List.mem_cons_of_mem _ hx) y (List.mem_cons_of_mem _ hy)) hrest
      rw [h a (List.mem_cons_self ..) b (List.mem_cons_self ..) hfirst, htail]

/-- Two values of integers that are equal by comparison are the same. -/
theorem OfIntegers.eq_of_compare? (ha : a.OfIntegers) (hb : b.OfIntegers)
    (h : a.compare? b = some .eq) : a = b := by
  induction ha generalizing b with
  | int n =>
    cases hb with
    | int k =>
      rw [compare?, Option.some.injEq, compareIntegers_eq_eq_iff] at h
      rw [h]
    | array => cases h
  | array _ ih =>
    cases hb with
    | int k => cases h
    | array hbs =>
      rw [compare?_arrays] at h
      split at h
      · rename_i hlength
        rw [eq_of_compareItems? hlength (fun x hx y hy => ih x hx (hbs y hy)) h]
      · rename_i hlength
        exact absurd (Nat.compare_eq_eq.1 (Option.some.inj h)) hlength

theorem compareItems?_eq_lt_iff :
    compareItems? (a :: as) (b :: bs) = some .lt
      ↔ a.compare? b = some .lt ∨ a.compare? b = some .eq ∧ compareItems? as bs = some .lt := by
  rw [compareItems?_cons]
  cases a.compare? b with
  | none => simp
  | some order => cases order <;> simp

theorem compare?_arrays_eq_lt_iff :
    (array ⟨as⟩).compare? (array ⟨bs⟩) = some .lt
      ↔ as.length < bs.length ∨ as.length = bs.length ∧ compareItems? as bs = some .lt := by
  rw [compare?_arrays]
  split
  · rename_i hlength
    simp [hlength]
  · rename_i hlength
    simp [hlength, Nat.compare_eq_lt]

theorem compareItems?_trans (has : ∀ v ∈ as, v.OfIntegers) (hbs : ∀ v ∈ bs, v.OfIntegers)
    (hcs : ∀ v ∈ cs, v.OfIntegers)
    (h : ∀ a ∈ as, ∀ b ∈ bs, ∀ c ∈ cs, a.compare? b = some .lt → b.compare? c = some .lt →
      a.compare? c = some .lt)
    (hab : compareItems? as bs = some .lt) (hbc : compareItems? bs cs = some .lt) :
    compareItems? as cs = some .lt := by
  induction as generalizing bs cs with
  | nil => cases bs <;> cases hab
  | cons a as ih =>
    cases bs with
    | nil => cases hab
    | cons b bs =>
      cases cs with
      | nil => cases hbc
      | cons c cs =>
        obtain ⟨ha, has⟩ := List.forall_mem_cons.1 has
        obtain ⟨hb, hbs⟩ := List.forall_mem_cons.1 hbs
        obtain ⟨hc, hcs⟩ := List.forall_mem_cons.1 hcs
        rw [compareItems?_eq_lt_iff] at hab hbc ⊢
        obtain hab | ⟨hab, hrest⟩ := hab
        · obtain hbc | ⟨hbc, -⟩ := hbc
          · exact .inl (h a (List.mem_cons_self ..) b (List.mem_cons_self ..) c
              (List.mem_cons_self ..) hab hbc)
          · rw [← hb.eq_of_compare? hc hbc]
            exact .inl hab
        · rw [ha.eq_of_compare? hb hab]
          obtain hbc | ⟨hbc, hrest'⟩ := hbc
          · exact .inl hbc
          · refine .inr ⟨hbc, ih has hbs hcs (fun x hx y hy z hz => ?_) hrest hrest'⟩
            exact h x (List.mem_cons_of_mem _ hx) y (List.mem_cons_of_mem _ hy) z
              (List.mem_cons_of_mem _ hz)

/-- Of three values of integers the first comes before the last if each comes before the next. -/
theorem OfIntegers.compare?_trans (ha : a.OfIntegers) (hb : b.OfIntegers) (hc : c.OfIntegers)
    (hab : a.compare? b = some .lt) (hbc : b.compare? c = some .lt) :
    a.compare? c = some .lt := by
  induction ha generalizing b c with
  | int n =>
    cases hc with
    | int l =>
      cases hb with
      | int k =>
        rw [compare?, Option.some.injEq, compareIntegers_eq_lt_iff] at hab hbc ⊢
        omega
      | array => cases hbc
    | array => rfl
  | array has ih =>
    cases hb with
    | int k => cases hab
    | array hbs =>
      cases hc with
      | int l => cases hbc
      | array hcs =>
        rw [compare?_arrays_eq_lt_iff] at hab hbc ⊢
        obtain hab | ⟨hab, hitems⟩ := hab
        · exact .inl (by omega)
        · obtain hbc | ⟨hbc, hitems'⟩ := hbc
          · exact .inl (by omega)
          · refine .inr ⟨hab.trans hbc, compareItems?_trans has hbs hcs ?_ hitems hitems'⟩
            exact fun x hx y hy z hz => ih x hx (hbs y hy) (hcs z hz)

theorem OfIntegers.compare?_eq_eq_iff (ha : a.OfIntegers) (hb : b.OfIntegers) :
    a.compare? b = some .eq ↔ a = b := by
  constructor
  · exact ha.eq_of_compare? hb
  · rintro rfl
    exact (compare?_self_iff a).2 ha.not_containsNaN

theorem OfIntegers.holds_le_iff (ha : a.OfIntegers) (hb : b.OfIntegers) :
    BinaryOp.le.Holds a b ↔ a.compare? b = some .lt ∨ a = b := by
  rw [BinaryOp.holds_le_iff, ha.compare?_eq_eq_iff hb]

theorem OfIntegers.le_total (ha : a.OfIntegers) (hb : b.OfIntegers) :
    BinaryOp.le.Holds a b ∨ BinaryOp.le.Holds b a := by
  have hordered := compare?_ne_none ha.not_containsNaN hb.not_containsNaN
  rw [BinaryOp.holds_le_iff, BinaryOp.holds_le_iff, compare?_swap a b]
  rcases horder : a.compare? b with _ | _ | _ | _
  · exact absurd horder hordered
  · exact .inl (.inl rfl)
  · exact .inl (.inr rfl)
  · exact .inr (.inl rfl)

theorem OfIntegers.le_trans (ha : a.OfIntegers) (hb : b.OfIntegers) (hc : c.OfIntegers)
    (hab : BinaryOp.le.Holds a b) (hbc : BinaryOp.le.Holds b c) : BinaryOp.le.Holds a c := by
  rw [ha.holds_le_iff hb] at hab
  rw [hb.holds_le_iff hc] at hbc
  rw [ha.holds_le_iff hc]
  obtain hab | rfl := hab
  · obtain hbc | rfl := hbc
    · exact .inl (ha.compare?_trans hb hc hab hbc)
    · exact .inl hab
  · exact hbc

theorem OfIntegers.le_antisymm (ha : a.OfIntegers) (hb : b.OfIntegers)
    (hab : BinaryOp.le.Holds a b) (hba : BinaryOp.le.Holds b a) : a = b := by
  rw [ha.holds_le_iff hb] at hab
  rw [BinaryOp.holds_le_iff, compare?_swap a b] at hba
  obtain hab | hab := hab
  · rw [hab] at hba
    obtain hba | hba := hba <;> cases hba
  · exact hab

end Value

/-- On values built from integers and arrays the comparisons are those of a total order. Any two
values have an order, `<=` is total, transitive and antisymmetric, `==` is equality of the values,
and the other comparisons are those that belong to `<=`. -/
theorem integers_and_arrays_are_totally_ordered {a b c : Value} (ha : a.OfIntegers)
    (hb : b.OfIntegers) (hc : c.OfIntegers) :
    a.compare? b ≠ none
      ∧ (BinaryOp.le.Holds a b ∨ BinaryOp.le.Holds b a)
      ∧ (BinaryOp.le.Holds a b → BinaryOp.le.Holds b c → BinaryOp.le.Holds a c)
      ∧ (BinaryOp.le.Holds a b → BinaryOp.le.Holds b a → a = b)
      ∧ (BinaryOp.eq.Holds a b ↔ a = b)
      ∧ (BinaryOp.ne.Holds a b ↔ a ≠ b)
      ∧ (BinaryOp.lt.Holds a b ↔ BinaryOp.le.Holds a b ∧ a ≠ b)
      ∧ (BinaryOp.gt.Holds a b ↔ BinaryOp.le.Holds b a ∧ a ≠ b)
      ∧ (BinaryOp.ge.Holds a b ↔ BinaryOp.le.Holds b a) := by
  have hequal := ha.compare?_eq_eq_iff hb
  have hordered := Value.compare?_ne_none ha.not_containsNaN hb.not_containsNaN
  refine ⟨hordered, ha.le_total hb, ha.le_trans hb hc, ha.le_antisymm hb,
    BinaryOp.holds_eq_iff.trans hequal, BinaryOp.holds_ne_iff.trans (not_congr hequal), ?_⟩
  simp only [BinaryOp.holds_lt_iff, BinaryOp.holds_gt_iff, BinaryOp.holds_le_iff,
    BinaryOp.holds_ge_iff, Value.compare?_swap a b, ne_eq, ← hequal]
  rcases a.compare? b with _ | _ | _ | _ <;> decide

/-- `[0, [1]]` comes before `[[], 0]`, since `0` comes before the empty array, and this one comes
before the longer array `[0, 0, 0]`. -/
theorem integers_and_arrays_are_totally_ordered_mixed :
    let a : Value := .array ⟨[.int 0, .array ⟨[.int 1]⟩]⟩
    let b : Value := .array ⟨[.array ⟨[]⟩, .int 0]⟩
    let c : Value := .array ⟨[.int 0, .int 0, .int 0]⟩
    (a.OfIntegers ∧ b.OfIntegers ∧ c.OfIntegers)
      ∧ BinaryOp.le.Holds a b ∧ BinaryOp.le.Holds b c ∧ BinaryOp.le.Holds a c
      ∧ BinaryOp.lt.Holds a b ∧ ¬BinaryOp.eq.Holds a b := by
  intro a b c
  have ha : a.OfIntegers := by simp [a]
  have hb : b.OfIntegers := by simp [b]
  have hc : c.OfIntegers := by simp [c]
  have hab : BinaryOp.le.Holds a b := rfl
  have hbc : BinaryOp.le.Holds b c := rfl
  obtain ⟨-, -, htrans, -, hequal, -, hlt, -⟩ := integers_and_arrays_are_totally_ordered ha hb hc
  have hne : a ≠ b := by simp [a, b]
  exact ⟨⟨ha, hb, hc⟩, hab, hbc, htrans hab hbc, hlt.2 ⟨hab, hne⟩, mt hequal.1 hne⟩

end ExprCore
