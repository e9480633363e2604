import ExprCore.Proofs.Trace
import ExprCore.Proofs.WrittenNames

/-!
# The order of reads and writes

Names are bound to slots in the order of the text, where the value of an assignment comes before its
target. A write to an element is evaluated in another order: the keys come before the value. A read
in such a value is not bound to what only the keys write, although they run first.

## Main definitions

- `Reads`: the names of an expression whose reads are not bound, and those among them that may be
  written earlier during evaluation
- `Expr.reads`, `Expr.readsAsPlace`: the reads of an expression, and those in the keys of a place
- `Trace.Fits`: a trace has no other reads and writes than those found in the text

## Main statements

- `Trace.Fits.append`: evaluation in the order of the text
- `Trace.Fits.append_behind`: evaluation of the keys before the value
-/

namespace ExprCore

/-- What is read where it is not bound. -/
structure Reads where
  /-- The names of plain reads that stand where the name is not in sight. -/
  unbound : List Name
  /-- Those among them that are written before in the order of evaluation. -/
  misplaced : List Name

namespace Reads

def none : Reads := ⟨[], []⟩

instance : Append Reads := ⟨fun r q => ⟨r.unbound ++ q.unbound, r.misplaced ++ q.misplaced⟩⟩

/-- The reads of something that is evaluated after keys that write the given names, but bound
before them. -/
def behind (r : Reads) (keys : List Name) : Reads :=
  ⟨r.unbound, r.misplaced ++ r.unbound.filter keys.contains⟩

@[simp] theorem append_none (r : Reads) : r ++ none = r := by
  show (⟨r.unbound ++ [], r.misplaced ++ []⟩ : Reads) = r
  rw [List.append_nil, List.append_nil]

end Reads

def AssignEffect.reads (target value : Reads) : AssignEffect → Reads
  | .plain => value
  | .compound _ => target ++ value

/-- The names written while the keys of a place are evaluated. -/
def Expr.writtenByKeys : Expr → List Name
  | .mk _ (.access _ target none) => target.writtenByKeys
  | .mk _ (.access _ target (some index)) => target.writtenByKeys ++ index.written
  | .mk _ (.paren inner) => inner.writtenByKeys
  | _ => []

mutual

/-- The reads of an expression where the given names are in sight. -/
def Expr.reads (names : NameTable) (sight : Sight) : Expr → Reads
  | .mk _ (.var name) => if sight name then .none else ⟨[name], []⟩
  | .mk _ (.binary _ left right) =>
    left.reads names sight ++ right.reads names (sight.adding left.written)
  | .mk _ (.unary _ operand) => operand.reads names sight
  | .mk _ (.assign token target value) =>
    match token.effect? with
    | none => .none
    | some effect =>
      target.readsAsPlace names (sight.adding (effect.written target.written value.written))
        ++ (effect.reads (target.reads names sight)
          (value.reads names (sight.adding (effect.writtenFirst target.written)))).behind
            target.writtenByKeys
  | .mk _ (.array entries) => readsInEntries names sight entries
  | .mk _ (.access _ target (some index)) =>
    target.reads names sight ++ index.reads names (sight.adding target.written)
  | .mk _ (.call name arguments) =>
    if equalIgnoringCase (names.text name) "unset" then .none
    else readsInAll names sight arguments
  | .mk _ (.paren inner) => inner.reads names sight
  | _ => .none

def Expr.readsAsPlace (names : NameTable) (sight : Sight) : Expr → Reads
  | .mk _ (.access _ target none) => target.readsAsPlace names sight
  | .mk _ (.access _ target (some index)) =>
    target.readsAsPlace names sight ++ index.reads names (sight.adding target.writtenAsPlace)
  | .mk _ (.paren inner) => inner.readsAsPlace names sight
  | _ => .none

def readsInAll (names : NameTable) (sight : Sight) : List Expr → Reads
  | [] => .none
  | e :: es => e.reads names sight ++ readsInAll names (sight.adding e.written) es

def readsInEntries (names : NameTable) (sight : Sight) : List (Element Expr) → Reads
  | [] => .none
  | ⟨_, value⟩ :: entries =>
    value.reads names sight ++ readsInEntries names (sight.adding value.written) entries

end

/-- The names whose reads are not bound although the evaluation may have written them before: they
are read in the value of an element write, are not in sight there, and its keys write them. -/
def Expr.misplaced (names : NameTable) (sight : Sight) (e : Expr) : List Name :=
  (e.reads names sight).misplaced

theorem readsInEntries_eq (names : NameTable) (sight : Sight) (entries : List (Element Expr)) :
    readsInEntries names sight entries = readsInAll names sight (entries.map Element.value) := by
  induction entries generalizing sight with
  | nil => rfl
  | cons entry entries ih => rw [readsInEntries, List.map_cons, readsInAll, ih]

/-- A trace of something that is read and written as the text says, where the given names are in
sight. -/
structure Trace.Fits (scope : Scope) (sight : Sight) (written : List Name) (reads : Reads)
    (t : Trace) : Prop where
  wrote : ∀ slot v, .wrote slot v ∈ t → ∃ name ∈ written, scope.find? name = some slot
  bound : ∀ name slot found, .read name (some slot) found ∈ t → scope.find? name = some slot
  unbound : ∀ name found, .read name none found ∈ t → sight name = false ∧ name ∈ reads.unbound
  ordered : t.Pairwise fun first later => ∀ name slot v found, first = .wrote slot v →
    later = .read name none found → scope.find? name = some slot → name ∈ reads.misplaced

namespace Trace.Fits

variable {scope : Scope} {sight : Sight} {written more : List Name} {reads others : Reads}
  {t u : Trace}

theorem nil : Fits scope sight written reads [] := ⟨nofun, nofun, nofun, .nil⟩

theorem mono (h : Fits scope sight written reads t) {sight' : Sight}
    (hsight : ∀ name, sight name = false → sight' name = false) (hwritten : written ⊆ more)
    (hunbound : reads.unbound ⊆ others.unbound) (hmisplaced : reads.misplaced ⊆ others.misplaced) :
    Fits scope sight' more others t := by
  refine ⟨fun slot v hv => ?_, h.bound, fun name found hname => ?_, ?_⟩
  · obtain ⟨name, hname, hslot⟩ := h.wrote slot v hv
    exact ⟨name, hwritten hname, hslot⟩
  · obtain ⟨hout, hmem⟩ := h.unbound name found hname
    exact ⟨hsight name hout, hunbound hmem⟩
  · exact h.ordered.imp fun hR name slot v found hv hread hslot =>
      hmisplaced (hR name slot v found hv hread hslot)

theorem write {name : Name} {slot : Slot} {v : Value} (hslot : scope.find? name = some slot)
    (hname : name ∈ written) : Fits scope sight written reads [.wrote slot v] := by
  refine ⟨fun other v' hv => ?_, nofun, nofun, List.pairwise_singleton _ _⟩
  cases List.mem_singleton.1 hv
  exact ⟨name, hname, hslot⟩

theorem read_bound {name : Name} {slot : Slot} {found : Option Value}
    (hslot : scope.find? name = some slot) :
    Fits scope sight written reads [.read name (some slot) found] := by
  refine ⟨nofun, fun other slot' found' hread => ?_, nofun, List.pairwise_singleton _ _⟩
  cases List.mem_singleton.1 hread
  exact hslot

theorem read_unbound {name : Name} {found : Option Value} (hsight : sight name = false)
    (hname : name ∈ reads.unbound) : Fits scope sight written reads [.read name none found] := by
  refine ⟨nofun, nofun, fun other found' hread => ?_, List.pairwise_singleton _ _⟩
  cases List.mem_singleton.1 hread
  exact ⟨hsight, hname⟩

theorem clear (slots : List Slot) : Fits scope sight written reads (slots.map .cleared) := by
  refine ⟨by simp, by simp, by simp, ?_⟩
  refine List.pairwise_of_forall_mem_list fun first hfirst later _ _ _ _ _ hwrote => ?_
  subst hwrote
  simp at hfirst

/-- Two traces one after the other, when every write in the first one that a read in the second one
is not bound to is known to be misplaced. -/
theorem append_of_cross (ht : Fits scope sight written reads t)
    (hu : Fits scope sight written reads u)
    (hcross : ∀ slot v name found, .wrote slot v ∈ t → .read name none found ∈ u →
      scope.find? name = some slot → name ∈ reads.misplaced) :
    Fits scope sight written reads (t ++ u) := by
  refine ⟨fun slot v hv => ?_, fun name slot found hname => ?_, fun name found hname => ?_,
    List.pairwise_append.2 ⟨ht.ordered, hu.ordered, ?_⟩⟩
  · exact (List.mem_append.1 hv).elim (ht.wrote slot v) (hu.wrote slot v)
  · exact (List.mem_append.1 hname).elim (ht.bound name slot found) (hu.bound name slot found)
  · exact (List.mem_append.1 hname).elim (ht.unbound name found) (hu.unbound name found)
  · rintro first hfirst later hlater name slot v found rfl rfl hslot
    exact hcross slot v name found hfirst hlater hslot

/-- What is evaluated in the order of the text adds up: a name written in the first part is in sight
in the second one. -/
theorem append {behind : List Name} (ht : Fits scope sight written reads t)
    (hu : Fits scope (sight.adding behind) more others u) (hbehind : written ⊆ behind) :
    Fits scope sight (written ++ more) (reads ++ others) (t ++ u) := by
  refine append_of_cross
    (ht.mono (fun _ h => h) (List.subset_append_left _ _) (List.subset_append_left _ _)
      (List.subset_append_left _ _))
    (hu.mono (fun name h => ?_) (List.subset_append_right _ _) (List.subset_append_right _ _)
      (List.subset_append_right _ _)) ?_
  · exact (Bool.or_eq_false_iff.1 h).1
  · -- a name that the first part writes is in sight in the second one, so no unbound read has it
    intro slot v name found hv hread hslot
    obtain ⟨other, hother, hslot'⟩ := ht.wrote slot v hv
    have hsight := (hu.unbound name found hread).1
    rw [Scope.find?_injective hslot' hslot] at hother
    rw [Sight.adding, List.contains_iff_mem.2 (hbehind hother), Bool.or_true] at hsight
    cases hsight

/-- Keys that are evaluated before a value whose names were bound before them. -/
theorem append_behind {keys : List Name} (ht : Fits scope (sight.adding more) keys reads t)
    (hu : Fits scope sight more others u) :
    Fits scope sight (more ++ keys) (reads ++ others.behind keys) (t ++ u) := by
  refine append_of_cross
    (ht.mono (fun name h => ?_) (List.subset_append_right _ _) (List.subset_append_left _ _)
      (List.subset_append_left _ _))
    (hu.mono (fun _ h => h) (List.subset_append_left _ _) (List.subset_append_right _ _) ?_) ?_
  · exact (Bool.or_eq_false_iff.1 h).1
  · exact List.Subset.trans (List.subset_append_left _ _) (List.subset_append_right _ _)
  · -- a name that the keys write may be unbound in the value: such a read is misplaced
    intro slot v name found hv hread hslot
    obtain ⟨other, hother, hslot'⟩ := ht.wrote slot v hv
    rw [Scope.find?_injective hslot' hslot] at hother
    have hunbound := (hu.unbound name found hread).2
    have hfilter : name ∈ others.unbound.filter keys.contains :=
      List.mem_filter.2 ⟨hunbound, List.contains_iff_mem.2 hother⟩
    exact List.mem_append_right _ (List.mem_append_right _ hfilter)

end Trace.Fits

end ExprCore
