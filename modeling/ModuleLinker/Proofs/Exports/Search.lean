import Mathlib.Data.List.Nodup
import Mathlib.Logic.Relation

/-!
# Depth-first search for components

A depth-first search visits the nodes of a graph from given ones on and emits each strongly
connected component when the search of its first node is complete.  Whatever was visited
before, the search emits the components that have no node among that, each of them once.
-/

namespace ModuleLinker

namespace DepthFirst

variable {α : Type} {next : α → List α}

/-- The edges lead from one node to another in any number of steps. -/
abbrev Reaches (next : α → List α) : α → α → Prop :=
  Relation.ReflTransGen fun node other => other ∈ next node

/-- The edges lead from each of two nodes to the other. -/
def Connected (next : α → List α) (node other : α) : Prop :=
  Reaches next node other ∧ Reaches next other node

/-- All nodes that are connected with a node, each once. -/
structure IsComponent (next : α → List α) (node : α) (component : List α) : Prop where
  nodup : component.Nodup
  mem_iff : ∀ other, other ∈ component ↔ Connected next node other

/-- What is emitted when the search of a node is complete: the component of the node, if no
node of it was visited before, and nothing otherwise. -/
inductive Completes (next : α → List α) (visited : List α) (node : α) : List (List α) → Prop
  | first {component : List α} (hcomponent : IsComponent next node component)
      (hfirst : component.Disjoint visited) : Completes next visited node [component]
  | later {other : α} (hvisited : other ∈ visited) (hconnected : Connected next node other) :
      Completes next visited node []

/-- A depth-first search from the nodes of a list in their order.  It starts when the nodes
of a first list are visited and ends when those of a last one are, and it emits a list of
components. -/
inductive Search (next : α → List α) : List α → List α → List α → List (List α) → Prop
  | done (visited : List α) : Search next visited [] visited []
  | skip {visited rest after : List α} {node : α} {components : List (List α)}
      (hvisited : node ∈ visited) (hrest : Search next visited rest after components) :
      Search next visited (node :: rest) after components
  | visit {visited rest between after : List α} {node : α} {inner own later : List (List α)}
      (hnew : node ∉ visited)
      (hinner : Search next (node :: visited) (next node) between inner)
      (hown : Completes next visited node own)
      (hrest : Search next between rest after later) :
      Search next visited (node :: rest) after (inner ++ own ++ later)

variable {visited nodes after component : List α} {node other : α} {components : List (List α)}

namespace Connected

theorem refl (next : α → List α) (node : α) : Connected next node node := ⟨.refl, .refl⟩

theorem symm (h : Connected next node other) : Connected next other node := ⟨h.2, h.1⟩

theorem trans {last : α} (h : Connected next node other) (hlast : Connected next other last) :
    Connected next node last :=
  ⟨h.1.trans hlast.1, hlast.2.trans h.2⟩

/-- What lies on the way from a node to a connected one is connected with it. -/
theorem of_between {last : α} (h : Connected next node last) (hother : Reaches next node other)
    (hlast : Reaches next other last) : Connected next node other :=
  ⟨hother, hlast.trans h.2⟩

end Connected

namespace IsComponent

theorem self_mem (h : IsComponent next node component) : node ∈ component :=
  (h.mem_iff node).mpr (.refl next node)

/-- A component is that of each of its nodes. -/
theorem of_mem (h : IsComponent next node component) (hother : other ∈ component) :
    IsComponent next other component where
  nodup := h.nodup
  mem_iff last := by
    have hconnected := (h.mem_iff other).mp hother
    rw [h.mem_iff]
    exact ⟨hconnected.symm.trans, hconnected.trans⟩

/-- Components with a common node have the same nodes. -/
theorem subset_of_mem {first second : List α} {start : α} (h : IsComponent next start first)
    (hother : IsComponent next node second) (hfirst : other ∈ first) (hsecond : other ∈ second) :
    first ⊆ second := by
  intro last hlast
  rw [(hother.of_mem hsecond).mem_iff]
  exact ((h.of_mem hfirst).mem_iff last).mp hlast

end IsComponent

/-- If the nodes on the way to a node have all their successors in a list, the list holds
the node. -/
theorem mem_of_reaches {seen : List α} {p : α → Prop}
    (hclosed : ∀ node ∈ seen, p node → next node ⊆ seen) (hreach : Reaches next node other)
    (hway : ∀ between, Reaches next node between → Reaches next between other → p between)
    (hnode : node ∈ seen) : other ∈ seen := by
  induction hreach with
  | refl => exact hnode
  | @tail between last hbetween hstep ih =>
    have hmem : between ∈ seen := ih fun earlier hearlier hlater =>
      hway earlier hearlier (hlater.tail hstep)
    exact hclosed between hmem (hway between hbetween (.single hstep)) hstep

namespace Search

/-- The search visits the nodes from which it starts, and forgets none. -/
theorem subset (h : Search next visited nodes after components) :
    visited ⊆ after ∧ nodes ⊆ after := by
  induction h with
  | done visited => exact ⟨List.Subset.refl visited, List.nil_subset visited⟩
  | skip hvisited _ ih => exact ⟨ih.1, List.cons_subset.mpr ⟨ih.1 hvisited, ih.2⟩⟩
  | visit _ _ _ _ ihinner ihrest =>
    obtain ⟨hnode, hvisited⟩ := List.cons_subset.mp ihinner.1
    exact ⟨List.Subset.trans hvisited ihrest.1, List.cons_subset.mpr ⟨ihrest.1 hnode, ihrest.2⟩⟩

/-- If nodes other than those on the stack have all their successors visited, this comes to
hold of the top of the stack when its own successors are visited. -/
theorem closed_pop {seen : List α} (hnext : next node ⊆ seen)
    (hclosed : ∀ other ∈ seen, other ∉ node :: visited → next other ⊆ seen) :
    ∀ other ∈ seen, other ∉ visited → next other ⊆ seen := by
  intro other hother hnew
  by_cases heq : other = node
  · rw [heq]
    exact hnext
  · exact hclosed other hother (List.not_mem_cons_of_ne_of_not_mem heq hnew)

/-- Nodes that are visited newly have all their successors visited. -/
theorem closed (h : Search next visited nodes after components) :
    ∀ node ∈ after, node ∉ visited → next node ⊆ after := by
  induction h with
  | done visited => exact fun node hnode hnew => absurd hnode hnew
  | skip _ _ ih => exact ih
  | @visit _ _ between _ _ _ _ _ _ hinner _ hrest ihinner ihrest =>
    intro other hother hnew
    by_cases hbetween : other ∈ between
    · have hsubset := closed_pop hinner.subset.2 ihinner other hbetween hnew
      exact List.Subset.trans hsubset hrest.subset.1
    · exact ihrest other hother hbetween

/-- Nodes that are visited newly are reached from those from which the search starts. -/
theorem reached (h : Search next visited nodes after components) :
    ∀ other ∈ after, other ∈ visited ∨ ∃ node ∈ nodes, Reaches next node other := by
  induction h with
  | done visited => exact fun other hother => Or.inl hother
  | skip _ _ ih =>
    intro other hother
    exact (ih other hother).imp_right fun ⟨node, hnode, hreach⟩ =>
      ⟨node, List.mem_cons_of_mem _ hnode, hreach⟩
  | @visit _ _ _ _ node _ _ _ _ _ _ _ ihinner ihrest =>
    intro other hother
    rcases ihrest other hother with hother | ⟨start, hstart, hreach⟩
    · rcases ihinner other hother with hother | ⟨start, hstart, hreach⟩
      · rcases List.mem_cons.mp hother with rfl | hother
        · exact Or.inr ⟨other, List.mem_cons_self, .refl⟩
        · exact Or.inl hother
      · exact Or.inr ⟨node, List.mem_cons_self, .head hstart hreach⟩
    · exact Or.inr ⟨start, List.mem_cons_of_mem _ hstart, hreach⟩

/-- When the search of the first node of a component is complete, the whole component has
been visited. -/
theorem component_subset {between : List α}
    (h : Search next (node :: visited) (next node) between components)
    (hcomponent : IsComponent next node component) (hfirst : component.Disjoint visited) :
    component ⊆ between := by
  intro other hother
  have hconnected := (hcomponent.mem_iff other).mp hother
  apply mem_of_reaches (p := (· ∉ visited)) (closed_pop h.subset.2 h.closed) hconnected.1
  · intro last hlast hback hvisited
    exact hfirst ((hcomponent.mem_iff last).mpr (hconnected.of_between hlast hback)) hvisited
  · exact h.subset.1 List.mem_cons_self

/-- What is emitted are components of nodes that are visited newly. -/
theorem emitted (h : Search next visited nodes after components) :
    ∀ component ∈ components, component.Disjoint visited ∧ component ⊆ after ∧
      ∃ node, IsComponent next node component := by
  induction h with
  | done _ => exact fun _ hmem => absurd hmem List.not_mem_nil
  | skip _ _ ih => exact ih
  | visit _ hinner hown hrest ihinner ihrest =>
    intro component hmem
    rcases List.mem_append.mp hmem with hmem | hmem
    · rcases List.mem_append.mp hmem with hmem | hmem
      · obtain ⟨hdisjoint, hsubset, hcomponent⟩ := ihinner component hmem
        exact ⟨(List.disjoint_cons_right.mp hdisjoint).2,
          List.Subset.trans hsubset hrest.subset.1, hcomponent⟩
      · cases hown with
        | first hcomponent hfirst =>
          obtain rfl := List.mem_singleton.mp hmem
          have hwhole := hinner.component_subset hcomponent hfirst
          exact ⟨hfirst, List.Subset.trans hwhole hrest.subset.1, _, hcomponent⟩
        | later _ _ => exact absurd hmem List.not_mem_nil
    · obtain ⟨hdisjoint, hsubset, hcomponent⟩ := ihrest component hmem
      have hvisited := (List.cons_subset.mp hinner.subset.1).2
      exact ⟨fun other hother hmem => hdisjoint hother (hvisited hmem), hsubset, hcomponent⟩

/-- What the search of one node emits comes in front of what is emitted later. -/
theorem inner_append_own {between : List α} {own : List (List α)} (hnew : node ∉ visited)
    (hinner : Search next (node :: visited) (next node) between components)
    (hown : Completes next visited node own) :
    Search next visited [node] between (components ++ own) := by
  have h := visit hnew hinner hown (.done between)
  rwa [List.append_nil] at h

/-- No two of the components have a common node. -/
theorem pairwise_disjoint (h : Search next visited nodes after components) :
    components.Pairwise List.Disjoint := by
  induction h with
  | done _ => exact .nil
  | skip _ _ ih => exact ih
  | visit hnew hinner hown hrest ihinner ihrest =>
    rw [List.pairwise_append]
    refine ⟨?_, ihrest, fun first hfirst second hsecond other hother hlater => ?_⟩
    · cases hown with
      | later _ _ =>
        rw [List.append_nil]
        exact ihinner
      | first hcomponent hdisjoint =>
        rw [List.pairwise_append]
        refine ⟨ihinner, List.pairwise_singleton _ _, ?_⟩
        intro first hfirst second hsecond other hother hlast
        obtain rfl := List.mem_singleton.mp hsecond
        obtain ⟨hnode, -, start, hstart⟩ := hinner.emitted first hfirst
        -- A component with a node of this one would hold the node of which this is the component.
        exact hnode (hcomponent.subset_of_mem hstart hlast hother hcomponent.self_mem)
          List.mem_cons_self
    · have hbetween := ((inner_append_own hnew hinner hown).emitted first hfirst).2.1
      exact (hrest.emitted second hsecond).1 hlater (hbetween hother)

/-- A component of which no node was visited before is emitted once one of its nodes is
visited. -/
theorem complete (h : Search next visited nodes after components) :
    ∀ node ∈ after, (∀ other, Connected next node other → other ∉ visited) →
      ∃ component ∈ components, node ∈ component := by
  induction h with
  | done _ => exact fun node hnode hnew => absurd hnode (hnew node (.refl next node))
  | skip _ _ ih => exact ih
  | @visit visited _ between _ node inner own later _ hinner hown hrest ihinner ihrest =>
    intro last hlast hnew
    by_cases hbetween : last ∈ between
    · by_cases hconnected : Connected next node last
      · cases hown with
        | @first component hcomponent _ =>
          refine ⟨component, ?_, (hcomponent.mem_iff last).mpr hconnected⟩
          simp
        | later hvisited hother => exact absurd hvisited (hnew _ (hconnected.symm.trans hother))
      · obtain ⟨component, hmem, hlast⟩ := ihinner last hbetween fun other hother =>
          List.not_mem_cons_of_ne_of_not_mem (fun heq => hconnected (heq ▸ hother.symm))
            (hnew other hother)
        exact ⟨component, List.mem_append_left _ (List.mem_append_left _ hmem), hlast⟩
    · obtain ⟨component, hmem, hlast⟩ := ihrest last hlast fun other hother hmem => by
        -- From a node of the component that was visited the search would have come here.
        have hclosed := closed_pop hinner.subset.2 hinner.closed
        apply hbetween (mem_of_reaches (p := (· ∉ visited)) hclosed hother.2 _ hmem)
        intro middle hmiddle hback
        exact hnew middle (hother.trans (hother.symm.of_between hmiddle hback))
      exact ⟨component, List.mem_append_right _ hmem, hlast⟩

/-- Every component of a finite graph can be listed. -/
theorem exists_isComponent {all : List α} (hclosed : ∀ node ∈ all, next node ⊆ all)
    (hnodup : all.Nodup) (hnode : node ∈ all) : ∃ component, IsComponent next node component := by
  classical
  refine ⟨all.filter fun other => decide (Connected next node other), hnodup.filter _, ?_⟩
  intro other
  rw [List.mem_filter, decide_eq_true_iff, and_iff_right_iff_imp]
  intro hconnected
  exact mem_of_reaches (p := fun _ => True) (fun node hnode _ => hclosed node hnode) hconnected.1
    (fun _ _ _ => trivial) hnode

theorem exists_completes {all : List α} (hclosed : ∀ node ∈ all, next node ⊆ all)
    (hnodup : all.Nodup) (hnode : node ∈ all) (visited : List α) :
    ∃ own, Completes next visited node own := by
  obtain ⟨component, hcomponent⟩ := exists_isComponent hclosed hnodup hnode
  by_cases hfirst : component.Disjoint visited
  · exact ⟨[component], .first hcomponent hfirst⟩
  · obtain ⟨other, hother, hvisited⟩ : ∃ other ∈ component, other ∈ visited := by
      simpa [List.Disjoint] using hfirst
    exact ⟨[], .later hvisited ((hcomponent.mem_iff other).mp hother)⟩

variable [DecidableEq α]

/-- The number of nodes of a list that are still to be visited. -/
def remaining (all visited : List α) : Nat :=
  (all.filter fun node => decide (node ∉ visited)).length

theorem remaining_mono {all seen : List α} (h : visited ⊆ seen) :
    remaining all seen ≤ remaining all visited := by
  apply (List.monotone_filter_right all _).length_le
  intro node hnode
  exact decide_eq_true (mt (@h node) (of_decide_eq_true hnode))

theorem remaining_cons_lt {all : List α} (hnode : node ∈ all) (hnew : node ∉ visited) :
    remaining all (node :: visited) < remaining all visited := by
  obtain ⟨before, behind, rfl⟩ := List.append_of_mem hnode
  have hbefore : remaining before (node :: visited) ≤ remaining before visited :=
    remaining_mono (List.subset_cons_self node visited)
  have hbehind : remaining behind (node :: visited) ≤ remaining behind visited :=
    remaining_mono (List.subset_cons_self node visited)
  simp only [remaining] at *
  rw [List.filter_append, List.filter_append, List.filter_cons_of_neg (by simp),
    List.filter_cons_of_pos (by simpa using hnew), List.length_append, List.length_append,
    List.length_cons]
  omega

/-- In a finite graph there is a search from any nodes, since each visit leaves fewer nodes
to visit. -/
theorem exists_search {all : List α} (hclosed : ∀ node ∈ all, next node ⊆ all)
    (hnodup : all.Nodup) (hnodes : nodes ⊆ all) (visited : List α) :
    ∃ after components, Search next visited nodes after components := by
  induction hbound : remaining all visited using Nat.strongRecOn
    generalizing visited nodes with
  | _ bound ih =>
    subst hbound
    induction nodes with
    | nil => exact ⟨visited, [], .done visited⟩
    | cons node rest ihrest =>
      obtain ⟨hnode, hrest⟩ := List.cons_subset.mp hnodes
      by_cases hmem : node ∈ visited
      · obtain ⟨after, components, h⟩ := ihrest hrest
        exact ⟨after, components, .skip hmem h⟩
      · have hless : remaining all (node :: visited) < remaining all visited :=
          remaining_cons_lt hnode hmem
        obtain ⟨between, inner, hinner⟩ := ih _ hless (hclosed node hnode) (node :: visited) rfl
        obtain ⟨own, hown⟩ := exists_completes hclosed hnodup hnode visited
        obtain ⟨after, later, hlater⟩ :=
          ih _ (Nat.lt_of_le_of_lt (remaining_mono hinner.subset.1) hless) hrest between rfl
        exact ⟨after, inner ++ own ++ later, .visit hmem hinner hown hlater⟩

end Search

end DepthFirst

end ModuleLinker
