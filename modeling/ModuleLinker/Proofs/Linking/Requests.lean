import ModuleLinker.Proofs.Concatenation.Building
import ModuleLinker.Proofs.Interface.Drafts
import ModuleLinker.Proofs.Linking.Publishing
import ModuleLinker.Proofs.Scope.Requests

/-!
# Requests made while linking

A request for a name can fail, and linking makes many of them: merging asks for the names of
bindings and namespaces, and planning for those of aliases.  Both are defined by names that are
handed out without fail.  Here those names are traced back to requests, one after the other.
If there are fewer of them in the end than the counter of a request can count, none of the
requests fails, so no link stops for want of a name.
-/

namespace ModuleLinker

/-- The names of a merged scope are what requests yield, if they can be counted. -/
theorem NamedMembers.requestAll_ofModules {facts : BuildFacts} {modules : UniqueList ModuleId}
    (hroom : (ofModules facts modules).scope.names.size < UInt32.size) :
    ∃ requests names, (Scope.ofNames [exportsObject]).requestAll requests =
        .ok (names, (ofModules facts modules).scope) ∧
      (ofModules facts modules).scope.names.toList = exportsObject :: names := by
  obtain ⟨unbacked, spaces, hrounds⟩ := exists_ledgers facts modules
  have hgrows := hrounds.grows_scope
  obtain ⟨requests, hnames, hscope⟩ := hgrows.requested
  rw [← hscope] at hroom
  have hall := Scope.requestAll_eq_ok hroom
  rw [hnames, hscope] at hall
  exact ⟨requests, _, hall, hgrows.toList_eq⟩

/-! ## Planning -/

namespace Draft

/-- The requests to a start scope that lead to a draft: what is handed out are the names of its
aliases, and what is reserved are the names that it declares. -/
structure Requested (start : Scope) (draft : Draft) (requests : List Scope.Request) : Prop where
  scope_eq : start.performAll requests = draft.scope
  allocated_eq : start.allocatedNames requests = draft.aliases.map AliasDeclaration.name
  reserved_eq : start.reservedNames requests = draft.declared.map DeclaredExport.exported

namespace Requested

variable {start : Scope} {draft next : Draft} {requests : List Scope.Request} {e : Export}

theorem withDeclared (h : Requested start draft requests) (hfree : e.name ∉ draft.scope.names)
    (expression : String) :
    Requested start (draft.withDeclared e.name expression)
      (requests ++ [.reserve e.name]) where
  scope_eq := by
    rw [Scope.performAll_append, h.scope_eq]
    rfl
  allocated_eq := by
    rw [Scope.allocatedNames_append, h.allocated_eq]
    exact List.append_nil _
  reserved_eq := by
    have hfresh : ¬ draft.scope.isTaken e.name = true := mt Scope.isTaken_iff.mp hfree
    rw [Scope.reservedNames_append, h.scope_eq, h.reserved_eq, Draft.withDeclared,
      List.map_append, Scope.reservedNames, if_neg hfresh]
    rfl

theorem withAlias (h : Requested start draft requests) (init : String) (reference : Reference) :
    Requested start (draft.withAlias e.name init reference)
      (requests ++ [.allocate (aliasBase e.name)]) where
  scope_eq := by
    rw [Scope.performAll_append, h.scope_eq]
    rfl
  allocated_eq := by
    rw [Scope.allocatedNames_append, h.scope_eq, h.allocated_eq, Draft.withAlias,
      List.map_append]
    rfl
  reserved_eq := by
    rw [Scope.reservedNames_append, h.reserved_eq]
    exact List.append_nil _

/-- An export makes one request or none. -/
theorem exists_step {facts : BuildFacts} {module : ModuleId} {definitions : ExportMap}
    (h : Requested start draft requests) (hstep : Step facts module definitions draft e next) :
    ∃ more, Requested start next more := by
  cases hstep with
  | hidden _ => exact ⟨requests, h⟩
  | listed _ _ => exact ⟨requests, h.scope_eq, h.allocated_eq, h.reserved_eq⟩
  | declared _ _ hfree _ => exact ⟨_, h.withDeclared hfree _⟩
  | aliased _ _ _ => exact ⟨_, h.withAlias _ _⟩
  | undefined _ _ => exact ⟨_, h.withAlias _ _⟩

end Requested

end Draft

namespace Interface

theorem exists_requested_draftFrom (facts : BuildFacts) (library : Library) (table : ExportTable)
    (module : ModuleId) (scope : Scope) :
    ∃ requests, Draft.Requested scope (draftFrom facts library table module scope) requests := by
  let Reached (_ : List Export) (draft : Draft) : Prop :=
    ∃ requests, Draft.Requested scope draft requests
  have hstart : Reached [] (Draft.start scope) := ⟨[], rfl, rfl, rfl⟩
  have hreached : Reached ([] ++ library.selected table)
      (draftFrom facts library table module scope) :=
    Draft.foldl_planExport (fun ⟨_, hrequested⟩ hstep => hrequested.exists_step hstep) hstart
      (library.selected table)
  exact hreached

/-- The aliases of an interface are what requests yield one after the other, if the names that
it introduces can be counted together with those of its start scope. -/
theorem requestAll_of_plan {build : Build} {library : Library} {module : ModuleId}
    {unit : Option Concatenation} {interface : Interface}
    (hplan : (plan build library module unit).value = .ok interface)
    (hroom : (startScope build.toBuildFacts module unit).names.size + interface.introduced.length <
      UInt32.size) :
    ∃ requests last, (startScope build.toBuildFacts module unit).requestAll requests =
        .ok (interface.aliases.map AliasDeclaration.name, last) ∧
      (startScope build.toBuildFacts module unit).reservedNames requests =
        interface.declared.map DeclaredExport.exported := by
  obtain ⟨table, -, hshows⟩ := exists_shows_of_plan_eq_ok hplan
  obtain ⟨requests, hrequested⟩ := exists_requested_draftFrom build.toBuildFacts library table
    module (startScope build.toBuildFacts module unit)
  have haccount := accounted_draftFrom build.toBuildFacts library table module
    (startScope build.toBuildFacts module unit)
  have hsize := haccount.perm.length_eq
  rw [List.length_append, ← hshows.introduced_eq, ← hrequested.scope_eq] at hsize
  have hall := Scope.requestAll_eq_ok (lt_of_eq_of_lt hsize hroom)
  rw [hrequested.allocated_eq, ← hshows.aliases_eq] at hall
  exact ⟨requests, _, hall, hshows.declared_eq ▸ hrequested.reserved_eq⟩

end Interface

/-- Linking takes the names that requests yield.  If those of the merged scope and of the
interface can be counted, every request on the way succeeds: first those of merging, and behind
them those of planning. -/
theorem Build.requestAll_of_link {build : Build} {root : ModuleId} {members : List ModuleId}
    {linked : LinkedLibrary} (hmembers : members ≠ [])
    (hlink : (build.link root members).result = .ok linked) :
    ∃ library unit interface, Library.ofOptions build.configuration.library = .ok library ∧
      (Concatenation.build build root members).value = .ok unit ∧
      (Interface.plan (build.publish unit (unit.definitions build.registry)) library root
        (some unit)).value = .ok interface ∧
      (unit.scope.names.size + interface.introduced.length < UInt32.size →
        ∃ merging names planning last,
          (Scope.ofNames [exportsObject]).requestAll merging = .ok (names, unit.scope) ∧
          unit.scope.names.toList = exportsObject :: names ∧
          unit.scope.requestAll planning =
            .ok (interface.aliases.map AliasDeclaration.name, last) ∧
          unit.scope.reservedNames planning =
            interface.declared.map DeclaredExport.exported) := by
  obtain ⟨library, unit, interface, hlibrary, -, hbuild, hplan, -⟩ :=
    exists_of_link_eq_ok hmembers hlink
  refine ⟨library, unit, interface, hlibrary, hbuild, hplan, fun hroom => ?_⟩
  obtain ⟨planning, last, hplanning, hreserved⟩ := Interface.requestAll_of_plan hplan hroom
  obtain ⟨-, -, tapped, rewritten, -, rfl⟩ := Concatenation.exists_of_build_eq_ok hbuild
  obtain ⟨merging, names, hmerging, hnames⟩ :=
    NamedMembers.requestAll_ofModules (Nat.lt_of_le_of_lt (Nat.le_add_right _ _) hroom)
  exact ⟨merging, names, planning, last, hmerging, hnames, hplanning, hreserved⟩

end ModuleLinker
