import ModuleLinker.Proofs.Exports.Walks
import ModuleLinker.Proofs.Naming.Bindings

/-!
# Names of namespaces

The third round follows re-exports to their origins and takes a name for each
namespace when an export first needs it.  Two tables remember these names, one for
members and one for modules outside, so the invariant of the round says that both
tables together index one ledger.  Under it every entry of every export map is
written for the entity that the export denotes.
-/

namespace ModuleLinker

namespace Naming

/-- An export that does not forward is its own origin. -/
theorem resolve_of_mem_linkable {facts : BuildFacts} {module : ModuleId} {e : Export}
    (he : e ∈ linkable facts module) (hown : e.isForwarding = false) :
    facts.registry.resolve ⟨module, e.name⟩ = .origin ⟨module, e.name⟩ := by
  obtain ⟨table, htable, hdeclared, hprovided, -⟩ := mem_linkable_iff.mp he
  have hfind := ExportTable.find?_of_mem_declared hdeclared
  have hforward : e.forward = none := by
    rw [Export.isForwarding, ← Bool.not_eq_true, Option.not_isSome_iff_eq_none] at hown
    exact hown
  apply ExportRegistry.resolve_of_step_eq_stop
  simp [ExportRegistry.step, htable, ExportTable.provisionOf, hfind, hprovided, hforward,
    ExportRegistry.stepForward]

end Naming

namespace Ledger

/-- A table of the namespaces in a ledger whose modules satisfy a predicate. -/
def Indexes (p : ModuleId → Prop) (ledger : Ledger) (table : OrderedMap ModuleId String) : Prop :=
  ∀ module name, table.find? module = some name ↔
    p module ∧ (.namespaceOf module, name) ∈ ledger

variable {p : ModuleId → Prop} {ledger : Ledger} {table : OrderedMap ModuleId String}
  {module : ModuleId}

/-- A module that a table lacks has no name in the ledger. -/
theorem Indexes.notMem_owners (h : ledger.Indexes p table) (hmodule : p module)
    (hnone : table.find? module = none) : .namespaceOf module ∉ ledger.owners := by
  intro hmem
  obtain ⟨⟨owner, name⟩, hentry, rfl⟩ := List.mem_map.mp hmem
  exact absurd ((h module name).mpr ⟨hmodule, hentry⟩) (by simp [hnone])

/-- A name that is entered in the ledger and in the table. -/
theorem Indexes.insert (h : ledger.Indexes p table) (hmodule : p module)
    (hnone : table.find? module = none) (name : String) :
    Indexes p (ledger ++ [(.namespaceOf module, name)]) (table.insert module name) := by
  intro other found
  rw [OrderedMap.find?_insert, List.mem_append, List.mem_singleton]
  by_cases heq : module = other
  · subst heq
    rw [if_pos rfl, Option.some.injEq]
    constructor
    · rintro rfl
      exact ⟨hmodule, Or.inr rfl⟩
    · rintro ⟨-, hold | hnew⟩
      · exact absurd ((h module found).mpr ⟨hmodule, hold⟩) (by simp [hnone])
      · exact (Prod.mk.inj hnew).2.symm
  · rw [if_neg heq, h other found]
    constructor
    · exact fun hold => ⟨hold.1, Or.inl hold.2⟩
    · rintro ⟨hother, hold | hnew⟩
      · exact ⟨hother, hold⟩
      · exact absurd (Owner.namespaceOf.inj (Prod.mk.inj hnew).1).symm heq

/-- A name that is entered in the ledger for a module that is none of the table's. -/
theorem Indexes.skip (h : ledger.Indexes p table) (hmodule : ¬ p module) (name : String) :
    Indexes p (ledger ++ [(.namespaceOf module, name)]) table := by
  intro other found
  rw [h other found, List.mem_append, List.mem_singleton]
  constructor
  · exact fun hold => ⟨hold.1, Or.inl hold.2⟩
  · rintro ⟨hother, hold | hnew⟩
    · exact ⟨hother, hold⟩
    · exact absurd (Owner.namespaceOf.inj (Prod.mk.inj hnew).1 ▸ hother) hmodule

end Ledger

namespace NamespaceNames

/-- The invariant of the third round: the namespaces named since a base scope are
listed once each in a ledger, and the two tables index those of the merged modules
and those of the others. -/
structure Coherent (merged : List ModuleId) (base : Scope) (ledger : Ledger)
    (names : NamespaceNames) : Prop where
  grows : base.Grows ledger.names names.scope
  nodup_owners : ledger.owners.Nodup
  isNamespace : ∀ owner ∈ ledger.owners, ∃ module, owner = .namespaceOf module
  inside : ledger.Indexes (· ∈ merged) names.inside
  outside : ledger.Indexes (· ∉ merged) names.outside

namespace Coherent

variable {merged : List ModuleId} {base : Scope} {ledger : Ledger} {names : NamespaceNames}

theorem start (merged : List ModuleId) (base : Scope) : Coherent merged base [] ⟨base, ∅, ∅⟩ where
  grows := Scope.Grows.refl base
  nodup_owners := List.nodup_nil
  isNamespace _ h := absurd h List.not_mem_nil
  inside _ _ := ⟨fun h => absurd h (by simp), fun h => absurd h.2 List.not_mem_nil⟩
  outside _ _ := ⟨fun h => absurd h (by simp), fun h => absurd h.2 List.not_mem_nil⟩

/-- Taking a name for a namespace that has none keeps the invariant, once the name is
in the table to which it belongs. -/
theorem take (h : Coherent merged base ledger names) {module : ModuleId}
    (hnew : .namespaceOf module ∉ ledger.owners) (preferred : String)
    {inside outside : OrderedMap ModuleId String}
    (hinside : Ledger.Indexes (· ∈ merged)
      (ledger ++ [(.namespaceOf module, (names.scope.allocate preferred).1)]) inside)
    (houtside : Ledger.Indexes (· ∉ merged)
      (ledger ++ [(.namespaceOf module, (names.scope.allocate preferred).1)]) outside) :
    Coherent merged base (ledger ++ [(.namespaceOf module, (names.scope.allocate preferred).1)])
      ⟨(names.scope.allocate preferred).2, inside, outside⟩ where
  grows := by
    rw [Ledger.names_append]
    exact h.grows.trans (Scope.Grows.allocate names.scope preferred)
  nodup_owners := by
    rw [Ledger.owners_append]
    exact UniqueList.nodup_append_singleton h.nodup_owners hnew
  isNamespace owner howner := by
    rw [Ledger.owners_append] at howner
    cases List.mem_append.mp howner with
    | inl hold => exact h.isNamespace owner hold
    | inr hmem => exact ⟨module, List.mem_singleton.mp hmem⟩
  inside := hinside
  outside := houtside

/-- The namespace of a merged module has a name in the ledger once it is asked for. -/
theorem exists_insideName (h : Coherent merged base ledger names) (facts : BuildFacts)
    {module : ModuleId} (hmodule : module ∈ merged) :
    ∃ more : Ledger,
      Coherent merged base (ledger ++ more) (names.insideName facts module).1 ∧
        (.namespaceOf module, (names.insideName facts module).2) ∈ ledger ++ more := by
  rw [insideName]
  split
  · rename_i name hname
    rw [← List.append_nil ledger] at h
    exact ⟨[], h, ((h.inside module name).mp hname).2⟩
  · rename_i hnone
    exact ⟨_, h.take (h.inside.notMem_owners hmodule hnone) _
      (h.inside.insert hmodule hnone _) (h.outside.skip (fun hnot => hnot hmodule) _),
      List.mem_append_right _ List.mem_cons_self⟩

/-- So has the namespace of a module outside. -/
theorem exists_outsideName (h : Coherent merged base ledger names) (facts : BuildFacts)
    {module : ModuleId} (hmodule : module ∉ merged) :
    ∃ more : Ledger,
      Coherent merged base (ledger ++ more) (names.outsideName facts module).1 ∧
        (.namespaceOf module, (names.outsideName facts module).2) ∈ ledger ++ more := by
  rw [outsideName]
  split
  · rename_i name hname
    rw [← List.append_nil ledger] at h
    exact ⟨[], h, ((h.outside module name).mp hname).2⟩
  · rename_i hnone
    exact ⟨_, h.take (h.outside.notMem_owners hmodule hnone) _
      (h.inside.skip hmodule _) (h.outside.insert hmodule hnone _),
      List.mem_append_right _ List.mem_cons_self⟩

end Coherent

end NamespaceNames

end ModuleLinker
