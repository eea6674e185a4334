import ModuleLinker.Collections.UniqueList
import ModuleLinker.Exports.Basic
import ModuleLinker.Text.Order

/-!
# The forwarding graph

Re-exports form a graph on export sites.  A site is numbered when it is first
seen and keeps its number for good; an edge leads from a site to the named site
to which its export forwards now.  Since an export forwards at most once, the
cycles are found by following the edges from every site in turn.
-/

namespace ModuleLinker

/-- The sites in the order of their numbers, and the forwarding edges between
them. -/
structure ForwardingGraph where
  sites : UniqueList ExportSite
  edges : List (ExportSite × ExportSite)
deriving DecidableEq, Repr

namespace ForwardingGraph

instance : EmptyCollection ForwardingGraph := ⟨⟨∅, []⟩⟩

instance : Inhabited ForwardingGraph := ⟨∅⟩

/-- Give a site the next number, unless it has one. -/
def number (g : ForwardingGraph) (site : ExportSite) : ForwardingGraph :=
  { g with sites := g.sites.insert site }

/-- Remove every edge that leaves a site. -/
def cut (g : ForwardingGraph) (source : ExportSite) : ForwardingGraph :=
  { g with edges := g.edges.filter fun edge => !decide (edge.1 = source) }

/-- Add an edge to a target, which is numbered if it is new. -/
def connect (g : ForwardingGraph) (source target : ExportSite) : ForwardingGraph :=
  let numbered := g.number target
  { numbered with edges := numbered.edges ++ [(source, target)] }

/-- Let a site forward to a target or to nothing, whatever it did before.  The
site is numbered before its target. -/
def redirect (g : ForwardingGraph) (source : ExportSite) (target : Option ExportSite) :
    ForwardingGraph :=
  let free := (g.number source).cut source
  match target with
  | none => free
  | some target => free.connect source target

/-- The site to which a site forwards. -/
def next? (g : ForwardingGraph) (site : ExportSite) : Option ExportSite :=
  (g.edges.find? fun edge => decide (edge.1 = site)).map Prod.snd

/-- What following the edges from a site meets: the sites on the way, the last
one first, and the cycle that the way runs into, if it does and if the cycle
was not settled before. -/
structure Walk where
  trail : List ExportSite
  cycle : Option (List ExportSite)
deriving DecidableEq, Repr

/-- Follow the edges until they end, meet a settled site, or come back to the
trail.  `fuel` bounds the number of steps. -/
def walk (g : ForwardingGraph) (settled : List ExportSite) :
    Nat → List ExportSite → ExportSite → Walk
  | 0, trail, _ => ⟨trail, none⟩
  | fuel + 1, trail, site =>
    if site ∈ settled then ⟨trail, none⟩
    else if site ∈ trail then
      ⟨trail, some (site :: trail.takeWhile fun other => !decide (other = site))⟩
    else
      match g.next? site with
      | none => ⟨site :: trail, none⟩
      | some target => walk g settled fuel (site :: trail) target

/-- Sites are listed by module and then by name. -/
def siteNotAfter (first second : ExportSite) : Bool :=
  if first.module.number.toNat < second.module.number.toNat then true
  else if second.module.number.toNat < first.module.number.toNat then false
  else TextOrder.notAfter first.name second.name

/-- The cycles that are met from the given starts on, each when the first start
that leads to it is reached. -/
def cyclesFrom (g : ForwardingGraph) :
    List ExportSite → List ExportSite → List (List ExportSite)
  | [], _ => []
  | start :: starts, settled =>
    let met := g.walk settled (g.sites.size + 1) [] start
    let later := g.cyclesFrom starts (met.trail ++ settled)
    match met.cycle with
    | none => later
    | some cycle => cycle.mergeSort siteNotAfter :: later

/-- The cycles of the graph, each with its sites by module and name, in the
order of the lowest-numbered sites that lead to them. -/
def cycles (g : ForwardingGraph) : List (List ExportSite) := g.cyclesFrom g.sites.toList []

@[simp] theorem sites_cut (g : ForwardingGraph) (source : ExportSite) :
    (g.cut source).sites = g.sites := rfl

@[simp] theorem edges_number (g : ForwardingGraph) (site : ExportSite) :
    (g.number site).edges = g.edges := rfl

/-- Cutting a site leaves no edge from it. -/
theorem next?_cut_self (g : ForwardingGraph) (source : ExportSite) :
    (g.cut source).next? source = none := by
  simp [next?, cut]

end ForwardingGraph

end ModuleLinker
