import Mathlib.Data.List.Nodup
import ModuleLinker.Concatenation.Naming
import ModuleLinker.Proofs.Scope
import ModuleLinker.Proofs.Text.Quoted

/-!
# Owners of names

Every name of a merged scope belongs to one thing: to a binding of a member's
code, to an export that its member's code does not bind, or to the namespace of a
module.  A ledger lists the names with their owners in the order in which they
were taken.  What an export denotes is said without any names, by following it to
its origin; a sound ledger then writes different entities differently.
-/

namespace ModuleLinker

/-- What a name in a merged scope belongs to. -/
inductive Owner
  /-- A declaration or an import binding of a member's code. -/
  | topLevel (module : ModuleId) (localName : String)
  /-- An export of a member for which the member's code binds nothing. -/
  | unbacked (module : ModuleId) (exportName : String)
  /-- The namespace of a module, whether it is merged or not. -/
  | namespaceOf (module : ModuleId)
deriving DecidableEq, Repr

namespace Owner

/-- The module to which an owner belongs. -/
def module : Owner → ModuleId
  | topLevel module _ => module
  | unbacked module _ => module
  | namespaceOf module => module

end Owner

/-- What an export denotes: a binding of the merged scope, or a property of the
namespace of a module that is not merged. -/
inductive Entity
  | binding (owner : Owner)
  | property (module : ModuleId) (name : String)
deriving DecidableEq, Repr

namespace Naming

/-- The owner of the binding of an export that does not forward: what its
module's code binds for it, or else the export itself. -/
def ownerOf (facts : BuildFacts) (site : ExportSite) : Owner :=
  if (facts.codeOf site.module).backingOf site.name ∈ (facts.codeOf site.module).topLevelNames then
    .topLevel site.module ((facts.codeOf site.module).backingOf site.name)
  else .unbacked site.module site.name

/-- What an export denotes where the given modules are merged, by what following it
comes to. -/
def entityAt? (facts : BuildFacts) (merged : List ModuleId) : Resolution → Option Entity
  | .origin origin =>
    if origin.module ∈ merged then some (.binding (ownerOf facts origin))
    else some (.property origin.module (outsideAccessName facts origin))
  | .namespaceOf module => some (.binding (.namespaceOf module))
  | .missing _ => none
  | .undetermined _ => none
  | .circular _ => none

theorem entityAt?_origin_of_mem (facts : BuildFacts) {merged : List ModuleId}
    {origin : ExportSite} (h : origin.module ∈ merged) :
    entityAt? facts merged (.origin origin) = some (.binding (ownerOf facts origin)) :=
  if_pos h

theorem entityAt?_origin_of_notMem (facts : BuildFacts) {merged : List ModuleId}
    {origin : ExportSite} (h : origin.module ∉ merged) :
    entityAt? facts merged (.origin origin) =
      some (.property origin.module (outsideAccessName facts origin)) :=
  if_neg h

/-- What an export denotes where the given modules are merged, if it leads
anywhere. -/
def entity? (facts : BuildFacts) (merged : List ModuleId) (site : ExportSite) : Option Entity :=
  entityAt? facts merged (facts.registry.resolve site)

end Naming

/-- Names with their owners, in the order in which they were taken. -/
abbrev Ledger : Type := List (Owner × String)

namespace Ledger

/-- The names of a ledger. -/
def names (ledger : Ledger) : List String := ledger.map Prod.snd

/-- The owners of a ledger. -/
def owners (ledger : Ledger) : List Owner := ledger.map Prod.fst

@[simp] theorem owners_nil : owners [] = [] := rfl

@[simp] theorem names_append (first second : Ledger) :
    names (first ++ second) = first.names ++ second.names := List.map_append

@[simp] theorem owners_append (first second : Ledger) :
    owners (first ++ second) = first.owners ++ second.owners := List.map_append

/-- A ledger without repetitions in which every name is an identifier. -/
structure Sound (ledger : Ledger) : Prop where
  nodup_owners : ledger.owners.Nodup
  nodup_names : ledger.names.Nodup
  isIdentifier : ∀ name ∈ ledger.names, Identifier.isIdentifier name = true

/-- How an entity is written with the names of a ledger. -/
inductive Writes (ledger : Ledger) : Entity → Reference → Prop
  | binding {owner : Owner} {name : String} (h : (owner, name) ∈ ledger) :
    Writes ledger (.binding owner) (.identifier name)
  | property {module : ModuleId} {name : String} (h : (.namespaceOf module, name) ∈ ledger)
      (access : String) :
    Writes ledger (.property module access) (.expression (name ++ Quoted.property access))

theorem Writes.mono {ledger larger : Ledger} (hsubset : ledger ⊆ larger) {entity : Entity}
    {reference : Reference} (h : ledger.Writes entity reference) :
    larger.Writes entity reference := by
  cases h with
  | binding h => exact .binding (hsubset h)
  | property h access => exact .property (hsubset h) access

namespace Sound

variable {ledger : Ledger}

theorem name_unique (hsound : ledger.Sound) {owner : Owner} {first second : String}
    (hfirst : (owner, first) ∈ ledger) (hsecond : (owner, second) ∈ ledger) : first = second :=
  (Prod.mk.inj (List.inj_on_of_nodup_map hsound.nodup_owners hfirst hsecond rfl)).2

theorem owner_unique (hsound : ledger.Sound) {first second : Owner} {name : String}
    (hfirst : (first, name) ∈ ledger) (hsecond : (second, name) ∈ ledger) : first = second :=
  (Prod.mk.inj (List.inj_on_of_nodup_map hsound.nodup_names hfirst hsecond rfl)).1

theorem isIdentifier_of_mem (hsound : ledger.Sound) {owner : Owner} {name : String}
    (h : (owner, name) ∈ ledger) : Identifier.isIdentifier name = true :=
  hsound.isIdentifier name (List.mem_map_of_mem (f := Prod.snd) h)

/-- An entity is written in one way only. -/
theorem reference_unique (hsound : ledger.Sound) {entity : Entity} {first second : Reference}
    (hfirst : ledger.Writes entity first) (hsecond : ledger.Writes entity second) :
    first = second := by
  cases hfirst with
  | binding hfirst =>
    cases hsecond with
    | binding hsecond => rw [hsound.name_unique hfirst hsecond]
  | property hfirst access =>
    cases hsecond with
    | property hsecond _ => rw [hsound.name_unique hfirst hsecond]

/-- Different entities are written differently: bindings have names of their own,
and a property access shows both the namespace and the property. -/
theorem entity_unique (hsound : ledger.Sound) {first second : Entity} {reference : Reference}
    (hfirst : ledger.Writes first reference) (hsecond : ledger.Writes second reference) :
    first = second := by
  cases hfirst with
  | binding hfirst =>
    cases hsecond with
    | binding hsecond => rw [hsound.owner_unique hfirst hsecond]
  | @property _ name hfirst access =>
    generalize htext : name ++ Quoted.property access = text at hsecond
    cases hsecond with
    | @property _ other hsecond otherAccess =>
      obtain ⟨rfl, rfl⟩ := Quoted.append_property_inj (hsound.isIdentifier_of_mem hfirst)
        (hsound.isIdentifier_of_mem hsecond) htext
      obtain ⟨rfl⟩ := hsound.owner_unique hfirst hsecond
      rfl

/-- Two references are equal exactly when what they are written for is. -/
theorem reference_eq_iff (hsound : ledger.Sound) {first second : Entity}
    {firstReference secondReference : Reference} (hfirst : ledger.Writes first firstReference)
    (hsecond : ledger.Writes second secondReference) :
    firstReference = secondReference ↔ first = second := by
  constructor
  · rintro rfl
    exact hsound.entity_unique hfirst hsecond
  · rintro rfl
    exact hsound.reference_unique hfirst hsecond

/-- Of entries of a sound ledger, the names are distinct exactly when their owners
are. -/
theorem nodup_names_iff (hsound : ledger.Sound) {entries : Ledger} (hsubset : entries ⊆ ledger) :
    entries.names.Nodup ↔ entries.owners.Nodup := by
  constructor
  · intro hnodup
    apply (List.Nodup.of_map _ hnodup).map_on
    intro first hfirst second hsecond heq
    exact Prod.ext heq (hsound.name_unique (hsubset hfirst) (heq ▸ hsubset hsecond))
  · intro hnodup
    apply (List.Nodup.of_map _ hnodup).map_on
    intro first hfirst second hsecond heq
    exact Prod.ext (hsound.owner_unique (hsubset hfirst) (heq ▸ hsubset hsecond)) heq

/-- Of entries of a sound ledger, a name is among the names exactly when its owner is
among the owners. -/
theorem mem_names_iff (hsound : ledger.Sound) {entries : Ledger} (hsubset : entries ⊆ ledger)
    {owner : Owner} {name : String} (h : (owner, name) ∈ ledger) :
    name ∈ entries.names ↔ owner ∈ entries.owners := by
  constructor
  · intro hmem
    obtain ⟨⟨other, _⟩, hentry, rfl⟩ := List.mem_map.mp hmem
    rw [hsound.owner_unique h (hsubset hentry)]
    exact List.mem_map_of_mem (f := Prod.fst) hentry
  · intro hmem
    obtain ⟨⟨_, other⟩, hentry, rfl⟩ := List.mem_map.mp hmem
    rw [hsound.name_unique h (hsubset hentry)]
    exact List.mem_map_of_mem (f := Prod.snd) hentry

end Sound

/-- Entries that belong to distinct modules do not repeat an owner. -/
theorem nodup_flatMap_owners {α : Type} {items : List α} {moduleOf : α → ModuleId}
    {ownersOf : α → List Owner} (hitems : (items.map moduleOf).Nodup)
    (hnodup : ∀ item ∈ items, (ownersOf item).Nodup)
    (hmodule : ∀ item ∈ items, ∀ owner ∈ ownersOf item, owner.module = moduleOf item) :
    (items.flatMap ownersOf).Nodup := by
  induction items with
  | nil => exact List.nodup_nil
  | cons item rest ih =>
    rw [List.map_cons, List.nodup_cons] at hitems
    rw [List.flatMap_cons, List.nodup_append]
    refine ⟨hnodup item List.mem_cons_self,
      ih hitems.2 (fun other h => hnodup other (List.mem_cons_of_mem _ h))
        (fun other h => hmodule other (List.mem_cons_of_mem _ h)), ?_⟩
    intro owner howner later hlater heq
    obtain ⟨other, hother, hlater⟩ := List.mem_flatMap.mp hlater
    have hsame : moduleOf item = moduleOf other := by
      rw [← hmodule item List.mem_cons_self owner howner, heq,
        hmodule other (List.mem_cons_of_mem _ hother) later hlater]
    exact hitems.1 (hsame ▸ List.mem_map_of_mem (f := moduleOf) hother)

end Ledger

end ModuleLinker
