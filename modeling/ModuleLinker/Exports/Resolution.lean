import ModuleLinker.Exports.Registry

/-!
# Resolution of exports

A re-export is followed from site to site until an export is met that does not
forward.  A module that is not registered is opaque: any name of it is taken as
an origin.  The walk keeps the sites it has met, so a circle is noticed at the
first site that comes again.
-/

namespace ModuleLinker

/-- What following an export from site to site comes to. -/
inductive Resolution
  /-- An export that forwards no further, or any name of an opaque module. -/
  | origin (site : ExportSite)
  /-- The namespace of a module. -/
  | namespaceOf (module : ModuleId)
  /-- A site that is known not to be provided. -/
  | missing (site : ExportSite)
  /-- A site of which it is not known whether it is provided. -/
  | undetermined (site : ExportSite)
  /-- The first site that came again. -/
  | circular (site : ExportSite)
deriving DecidableEq, Repr

namespace Resolution

/-- Whether the walk came to an export or a namespace. -/
def isResolved : Resolution → Bool
  | origin _ => true
  | namespaceOf _ => true
  | missing _ => false
  | undetermined _ => false
  | circular _ => false

end Resolution

/-- What one step of the walk does at a site. -/
inductive Step
  | stop (resolution : Resolution)
  | forward (target : ExportSite)
deriving DecidableEq, Repr

namespace ExportRegistry

/-- The step at a provided export, given where it forwards. -/
def stepForward (site : ExportSite) : Option Forward → Step
  | none => .stop (.origin site)
  | some ⟨module, none⟩ => .stop (.namespaceOf module)
  | some ⟨module, some name⟩ => .forward ⟨module, name⟩

/-- The step of the walk at a site: stop there or go on to another site. -/
def step (registry : ExportRegistry) (site : ExportSite) : Step :=
  match registry.table? site.module with
  | none => .stop (.origin site)
  | some table =>
    match table.provisionOf site.name with
    | .notProvided => .stop (.missing site)
    | .unknown => .stop (.undetermined site)
    | .provided => stepForward site ((table.exports.find? site.name).bind Export.forward)

/-- Walk on from a site; `visited` holds the sites met so far and `fuel` bounds
the number of steps. -/
def walk (registry : ExportRegistry) : Nat → List ExportSite → ExportSite → Resolution
  | 0, _, site => .circular site
  | fuel + 1, visited, site =>
    if site ∈ visited then .circular site
    else
      match registry.step site with
      | .stop resolution => resolution
      | .forward target => registry.walk fuel (site :: visited) target

/-- The exports that forward to a named export. -/
def forwarders (registry : ExportRegistry) : List Export :=
  registry.tables.values.flatMap fun table =>
    table.declared.filter fun e => e.forwardSite?.isSome

/-- Follow an export to its origin.  Every step but the last leaves another
export that forwards to a named one, so one step more than there are such
exports always suffices. -/
def resolve (registry : ExportRegistry) (site : ExportSite) : Resolution :=
  registry.walk (registry.forwarders.length + 1) [] site

theorem walk_of_visited {registry : ExportRegistry} {visited : List ExportSite}
    {site : ExportSite} (h : site ∈ visited) (fuel : Nat) :
    registry.walk fuel visited site = .circular site := by
  cases fuel with
  | zero => rfl
  | succ fuel => simp [walk, h]

end ExportRegistry

end ModuleLinker
