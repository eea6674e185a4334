import ModuleLinker.Proofs.Naming.ExportMaps

/-!
# The three rounds

Naming goes through the members three times.  Here each round has a name, and what
the rounds owe to each other is collected once: the second finds every local name
that the first has taken, and the third refers to the bindings of the second and
keeps the names of the namespaces in two tables.
-/

namespace ModuleLinker

namespace NamedMembers

/-- The scope and the members as the first round leaves them. -/
def entered (facts : BuildFacts) (modules : UniqueList ModuleId) : Scope × List Member :=
  Naming.enterMembers facts 0 (Scope.ofNames [exportsObject]) modules.toList

/-- The scope and the own exports of every member as the second round leaves them. -/
def bound (facts : BuildFacts) (modules : UniqueList ModuleId) :
    Scope × List (ModuleId × ExportMap) :=
  Naming.bindMembers facts (entered facts modules).1 (entered facts modules).2

/-- The names of the namespaces and the members with their export maps as the third
round leaves them. -/
def mapped (facts : BuildFacts) (modules : UniqueList ModuleId) : NamespaceNames × List Member :=
  Naming.mapMembers facts (OrderedMap.ofList (bound facts modules).2)
    ⟨(bound facts modules).1, ∅, ∅⟩ (entered facts modules).2

theorem ofModules_eq (facts : BuildFacts) (modules : UniqueList ModuleId) :
    ofModules facts modules = {
      scope := (mapped facts modules).1.scope
      members := (mapped facts modules).2.map fun member =>
        { member with namespaceName := (mapped facts modules).1.inside.find? member.module }
      outside := (mapped facts modules).1.outside } := rfl

theorem map_module_entered (facts : BuildFacts) (modules : UniqueList ModuleId) :
    (entered facts modules).2.map Member.module = modules.toList :=
  Naming.map_module_enterMembers facts 0 _ modules.toList

theorem module_mem_of_mem_entered {facts : BuildFacts} {modules : UniqueList ModuleId}
    {member : Member} (h : member ∈ (entered facts modules).2) : member.module ∈ modules.toList :=
  map_module_entered facts modules ▸ List.mem_map_of_mem h

/-- The ledgers of the second and the third round, with what each of them says of the
names that its round hands out. -/
structure Ledgers (facts : BuildFacts) (modules : UniqueList ModuleId)
    (unbacked spaces : Ledger) : Prop where
  grows : (entered facts modules).1.Grows unbacked.names (bound facts modules).1
  owners_unbacked : unbacked.owners = (entered facts modules).2.flatMap fun member =>
    Naming.unbackedOwners facts member.module (Naming.linkable facts member.module)
  ownMaps : Naming.OwnMaps facts modules.toList
    ((entered facts modules).2.flatMap Member.localLedger ++ unbacked)
    (OrderedMap.ofList (bound facts modules).2)
  coherent : NamespaceNames.Coherent modules.toList (bound facts modules).1 spaces
    (mapped facts modules).1
  denotes : ∀ member ∈ (mapped facts modules).2,
    Naming.Denotes facts modules.toList
      ((entered facts modules).2.flatMap Member.localLedger ++ unbacked ++ spaces)
      member.module member.exportMap

theorem exists_ledgers (facts : BuildFacts) (modules : UniqueList ModuleId) :
    ∃ unbacked spaces, Ledgers facts modules unbacked spaces := by
  obtain ⟨unbacked, hgrows, howners, hkeys, howns⟩ := Naming.exists_bindMembers
    (fun member (h : member ∈ (entered facts modules).2) =>
      Naming.entered_of_mem_enterMembers h) (entered facts modules).1
  have hown := Naming.ownMaps_ofList modules.nodup
    (hkeys.trans (map_module_entered facts modules)) howns
  obtain ⟨spaces, hspaces, hdenotes⟩ := Naming.exists_mapMembers hown
    (NamespaceNames.Coherent.start modules.toList (bound facts modules).1)
    fun member => module_mem_of_mem_entered
  exact ⟨unbacked, spaces, hgrows, howners, hown, hspaces, hdenotes⟩

/-- The names of the three rounds are handed out one after the other, and the exports object is
there before them. -/
theorem Ledgers.grows_scope {facts : BuildFacts} {modules : UniqueList ModuleId}
    {unbacked spaces : Ledger} (h : Ledgers facts modules unbacked spaces) :
    (Scope.ofNames [exportsObject]).Grows
      (Ledger.names ((entered facts modules).2.flatMap Member.localLedger ++ unbacked ++ spaces))
      (ofModules facts modules).scope := by
  have hlocals := Naming.grows_enterMembers facts 0 (Scope.ofNames [exportsObject]) modules.toList
  rw [Ledger.names_append, Ledger.names_append]
  exact (hlocals.trans h.grows).trans h.coherent.grows

end NamedMembers

end ModuleLinker
