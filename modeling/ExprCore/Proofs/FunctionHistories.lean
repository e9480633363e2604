import ExprCore.FunctionTable
import ExprCore.Proofs.FirstAppearance

/-!
# Histories of function tables

Functions are defined one after another in a table that has none at first. The names and the
functions stay in step: a name that differs from an earlier one in nothing but the case of its
letters shares the number of that one and replaces its function, and any other name takes the next
number. So the last definition of a name counts, and no number ever changes its name.

## Main definitions

- `FunctionTable.defineAll`: definitions one after another

## Main statements

- `FunctionTable.names_defineAll`: the names are numbered in order of first definition
- `FunctionTable.invoke_define_of_lookup`: a definition leaves the functions of other names alone
- `last_definition_counts`: what a table does after any history
-/

namespace ExprCore

namespace FunctionTable

variable {t : FunctionTable} {name query : String} {f : NativeFunction} {target : CallTarget}

/-- The table after functions have been defined one after another. -/
def defineAll (t : FunctionTable) (definitions : List (String × NativeFunction)) : FunctionTable :=
  definitions.foldl (fun t d => (t.define d.1 d.2).2) t

theorem defineAll_append (t : FunctionTable) (earlier later : List (String × NativeFunction)) :
    t.defineAll (earlier ++ later) = (t.defineAll earlier).defineAll later := List.foldl_append

theorem names_define (t : FunctionTable) (name : String) (f : NativeFunction) :
    (t.define name f).2.names = (t.names.insert (foldCase name)).2 := by
  unfold define
  split
  next i h => rw [Numbering.insert_of_some h]
  next => rfl

/-- The names are numbered in order of first definition. -/
theorem names_defineAll (t : FunctionTable) (definitions : List (String × NativeFunction)) :
    (t.defineAll definitions).names
      = t.names.insertAll (definitions.map fun d => foldCase d.1) := by
  induction definitions generalizing t with
  | nil => rfl
  | cons d definitions ih =>
    have hrest := ih (t.define d.1 d.2).2
    rw [names_define] at hrest
    exact hrest

theorem lookup_eq_some_iff :
    t.lookup name = some target ↔ t.names.number? (foldCase name) = some target.index := by
  rw [lookup, Option.map_eq_some_iff]
  constructor
  · rintro ⟨i, hi, rfl⟩
    exact hi
  · exact fun h => ⟨_, h, rfl⟩

theorem lookup_congr (h : foldCase name = foldCase query) : t.lookup name = t.lookup query := by
  rw [lookup, lookup, h]

/-- Two names with one target differ in nothing but case. -/
theorem foldCase_eq_of_lookup (hname : t.lookup name = some target)
    (hquery : t.lookup query = some target) : foldCase name = foldCase query :=
  Numbering.number?_injective (lookup_eq_some_iff.1 hname) (lookup_eq_some_iff.1 hquery)

theorem lt_size_of_lookup (h : t.lookup name = some target) : target.index < t.size := by
  rw [size, t.aligned]
  exact Numbering.lt_size_of_number? (lookup_eq_some_iff.1 h)

/-- A name keeps its target, whatever is defined later. -/
theorem lookup_defineAll_of_some (later : List (String × NativeFunction))
    (h : t.lookup name = some target) : (t.defineAll later).lookup name = some target := by
  rw [lookup_eq_some_iff] at h ⊢
  rw [names_defineAll]
  exact Numbering.number?_insertAll_of_some _ h

/-- A definition leaves the functions of other names alone. -/
theorem invoke_define_of_lookup (h : t.lookup query = some target)
    (hne : foldCase query ≠ foldCase name) (f : NativeFunction) (arguments : List Value) :
    (t.define name f).2.invoke target arguments = t.invoke target arguments := by
  have hlt : target.index < t.functions.length := lt_size_of_lookup h
  unfold define
  split
  next i hi =>
    have htarget : i ≠ target.index := by
      rintro rfl
      exact hne (Numbering.number?_injective (lookup_eq_some_iff.1 h) hi)
    simp only [invoke, List.getElem?_set_ne htarget]
  next => simp only [invoke, List.getElem?_append_left hlt]

/-- A name goes on to run its function as long as it is not defined anew. -/
theorem invoke_defineAll_of_lookup {later : List (String × NativeFunction)}
    (h : t.lookup query = some target)
    (hlater : ∀ d ∈ later, foldCase query ≠ foldCase d.1) (arguments : List Value) :
    (t.defineAll later).invoke target arguments = t.invoke target arguments := by
  induction later generalizing t with
  | nil => rfl
  | cons d later ih =>
    rw [List.forall_mem_cons] at hlater
    have hkept : (t.define d.1 d.2).2.lookup query = some target := by
      rw [lookup_define_of_ne d.2 hlater.1, h]
    exact (ih hkept hlater.2).trans (invoke_define_of_lookup h hlater.1 d.2 arguments)

/-- A number that is not in use runs nothing. -/
theorem invoke_of_size_le (h : t.size ≤ target.index) (arguments : List Value) :
    t.invoke target arguments = .error (.unknownTarget target) := by
  rw [invoke, List.getElem?_eq_none h]

/-- The last definition of a name is the one that its target runs. -/
theorem invoke_defineAll_last {later : List (String × NativeFunction)}
    (hname : foldCase name = foldCase query)
    (hlater : ∀ d ∈ later, foldCase query ≠ foldCase d.1) :
    ∃ target, (t.defineAll ((name, f) :: later)).lookup query = some target
      ∧ ∀ arguments, (t.defineAll ((name, f) :: later)).invoke target arguments = f arguments := by
  have hlookup : (t.define name f).2.lookup query = some (t.define name f).1 := by
    rw [← lookup_congr hname, lookup_define_self]
  refine ⟨_, lookup_defineAll_of_some later hlookup, fun arguments => ?_⟩
  exact (invoke_defineAll_of_lookup hlookup hlater arguments).trans
    (invoke_define_self t name f arguments)

section FromEmpty

variable {definitions : List (String × NativeFunction)}

/-- The names with a target are those that were defined, in whatever case. -/
theorem exists_lookup_defineAll_iff :
    (∃ target, (empty.defineAll definitions).lookup name = some target)
      ↔ ∃ d ∈ definitions, foldCase d.1 = foldCase name := by
  have hmem : foldCase name ∈ (empty.defineAll definitions).names.items
      ↔ ∃ d ∈ definitions, foldCase d.1 = foldCase name := by
    rw [names_defineAll, Numbering.mem_insertAll, List.mem_map]
    exact or_iff_right List.not_mem_nil
  rw [← hmem, Numbering.mem_items_iff]
  simp only [lookup, Option.map_eq_some_iff]
  constructor
  · rintro ⟨_, i, hi, -⟩
    exact ⟨i, hi⟩
  · rintro ⟨i, hi⟩
    exact ⟨_, i, hi, rfl⟩

/-- Every number below the number of functions is the target of a name that was defined. -/
theorem exists_lookup_of_lt (h : target.index < (empty.defineAll definitions).size) :
    ∃ name, (empty.defineAll definitions).lookup name = some target := by
  rw [size, aligned] at h
  obtain ⟨item, hitem, hnumber⟩ := Numbering.exists_number?_of_lt h
  rw [names_defineAll, Numbering.mem_insertAll, List.mem_map] at hitem
  obtain ⟨d, -, rfl⟩ := hitem.resolve_left List.not_mem_nil
  exact ⟨d.1, lookup_eq_some_iff.2 hnumber⟩

theorem size_defineAll :
    (empty.defineAll definitions).size = (definitions.map fun d => foldCase d.1).toFinset.card := by
  rw [size, aligned, names_defineAll]
  exact Numbering.size_insertAll_empty _

end FromEmpty

end FunctionTable

/-- After any history of definitions a name has a target, in every scope, when it was defined in
whatever case, and names share a target when they differ in nothing but case. The target runs the
function that was defined last; it is the one that the definition returned, and no later definition
changes it. The targets are the numbers below the number of functions, which is that of the names
that differ in more than case. Any other target runs nothing and is refused. -/
theorem last_definition_counts (definitions : List (String × NativeFunction)) :
    let t := FunctionTable.empty.defineAll definitions
    (∀ log name scope, (t.registry.lookup log name scope).isSome = true
        ↔ ∃ d ∈ definitions, equalIgnoringCase d.1 name = true)
      ∧ (∀ name other target, t.lookup name = some target →
          (t.lookup other = some target ↔ equalIgnoringCase name other = true))
      ∧ (∀ earlier name f later query, definitions = earlier ++ (name, f) :: later →
          equalIgnoringCase name query = true →
          (∀ d ∈ later, equalIgnoringCase query d.1 ≠ true) →
          ∃ target, (∀ log scope, t.registry.lookup log query scope = some target)
            ∧ ∀ log arguments, t.registry.invoke log target arguments = f arguments)
      ∧ (∀ name target, t.lookup name = some target →
          ∀ later, (t.defineAll later).lookup name = some target)
      ∧ (∀ name f later,
          (t.defineAll ((name, f) :: later)).lookup name = some (t.define name f).1)
      ∧ (∀ target, (∃ name, t.lookup name = some target) ↔ target.index < t.size)
      ∧ t.size = (definitions.map fun d => foldCase d.1).toFinset.card
      ∧ ∀ target, t.size ≤ target.index → t.functions[target.index]? = none
        ∧ ∀ log arguments, t.registry.invoke log target arguments
          = .error (.new s!"no function registered for call target {target.index}") := by
  intro t
  simp only [ne_eq, equalIgnoringCase_iff]
  refine ⟨?_, ?_, ?_, ?_, ?_, ?_, FunctionTable.size_defineAll, ?_⟩
  · intro log name scope
    rw [← FunctionTable.exists_lookup_defineAll_iff, ← Option.isSome_iff_exists]
    rfl
  · intro name other target hname
    constructor
    · exact FunctionTable.foldCase_eq_of_lookup hname
    · intro hcase
      rw [← FunctionTable.lookup_congr hcase, hname]
  · rintro earlier name f later query rfl hname hlater
    obtain ⟨target, hlookup, hinvoke⟩ := FunctionTable.invoke_defineAll_last
      (t := FunctionTable.empty.defineAll earlier) (f := f) hname hlater
    rw [← FunctionTable.defineAll_append] at hlookup hinvoke
    exact ⟨target, fun _ _ => hlookup, fun _ => hinvoke⟩
  · intro name target hname later
    exact FunctionTable.lookup_defineAll_of_some later hname
  · intro name f later
    exact FunctionTable.lookup_defineAll_of_some later (FunctionTable.lookup_define_self t name f)
  · intro target
    constructor
    · rintro ⟨name, hname⟩
      exact FunctionTable.lt_size_of_lookup hname
    · exact FunctionTable.exists_lookup_of_lt
  · intro target hsize
    have hvacant : t.functions[target.index]? = none := List.getElem?_eq_none hsize
    exact ⟨hvacant, fun _ => FunctionTable.invoke_of_size_le hsize⟩

/-- A function is defined under two spellings, with another one in between. The number of the two
runs the later one, and the number behind those in use is refused. -/
theorem last_definition_counts_redefined :
    let one : NativeFunction := fun _ => .ok (.int 1)
    let two : NativeFunction := fun _ => .ok (.int 2)
    let t := FunctionTable.empty.defineAll [("sum", one), ("max", one), ("Sum", two)]
    (∃ target, t.registry.lookup #[] "SUM" .root = some target
        ∧ t.registry.invoke #[] target [] = .ok (.int 2))
      ∧ (∃ name, t.lookup name = some ⟨1⟩)
      ∧ t.registry.invoke #[] ⟨2⟩ []
        = .error (.new "no function registered for call target 2") := by
  intro one two t
  obtain ⟨-, -, hlast, -, -, htarget, hcard, hunknown⟩ :=
    last_definition_counts [("sum", one), ("max", one), ("Sum", two)]
  have hsum : equalIgnoringCase "Sum" "SUM" = true := by decide
  obtain ⟨target, hlookup, hinvoke⟩ :=
    hlast [("sum", one), ("max", one)] "Sum" two [] "SUM" rfl hsum (by simp)
  have hnames : ["sum", "max", "Sum"].map foldCase = ["sum", "max", "sum"] := by decide
  have hsize : t.size = 2 := hcard.trans (congrArg (·.toFinset.card) hnames)
  exact ⟨⟨target, hlookup #[] .root, hinvoke #[] []⟩, (htarget ⟨1⟩).2 (hsize ▸ Nat.one_lt_two),
    (hunknown ⟨2⟩ hsize.le).2 #[] []⟩

end ExprCore
