import ModuleLinker.Proofs.Linking

/-!
# Linking is atomic

An attempt to link that fails leaves the build as it was, since everything that can
fail comes before anything is written: once the members are merged, the root has a plan,
and the plan never asks for a name that is taken.  An attempt that succeeds writes the
definitions of the root and the imports of the members, and nothing else.
-/

namespace ModuleLinker

namespace Build

variable {build : Build} {root : ModuleId} {members : List ModuleId} {reason : LinkError}

theorem link_of_refuses (h : build.Refuses root members reason) :
    (build.link root members).result = .error reason := by
  cases h with
  | options hoptions => rw [link, hoptions]
  | library hoptions hcheck =>
    rw [link, hoptions]
    dsimp only
    rw [hcheck]
  | merging hoptions hcheck hmembers hbuild =>
    rw [link_eq_linkMembers hoptions hcheck, linkMembers,
      if_neg (mt List.isEmpty_iff.mp hmembers)]
    dsimp only
    rw [hbuild]

/-- Linking fails exactly for the reasons that are known before anything is written. -/
theorem link_eq_error_iff :
    (build.link root members).result = .error reason ↔ build.Refuses root members reason := by
  refine ⟨fun h => ?_, link_of_refuses⟩
  have hlinks := linksTo_link build root members
  generalize build.link root members = outcome at hlinks h
  cases hlinks with
  | refused hrefuses => exact Except.error.inj h ▸ hrefuses
  | alone _ _ _ _ => exact absurd h (by simp)
  | merged _ _ _ _ _ => exact absurd h (by simp)

theorem build_link_of_error (h : (build.link root members).result = .error reason) :
    (build.link root members).build = build := by
  have hlinks := linksTo_link build root members
  generalize build.link root members = outcome at hlinks h
  cases hlinks with
  | refused _ => rfl
  | alone _ _ _ _ => rfl
  | merged _ _ _ _ _ => exact absurd h (by simp)

theorem build_link_nil (build : Build) (root : ModuleId) :
    (build.link root []).build = build := by
  have hlinks := linksTo_link build root []
  generalize build.link root [] = outcome at hlinks
  cases hlinks with
  | refused _ => rfl
  | alone _ _ _ _ => rfl
  | merged _ _ hmembers _ _ => exact absurd rfl hmembers

/-- Linking is atomic and writes only what it publishes.  It fails exactly for the
reasons that are known beforehand, and a failure leaves the build as it was, as linking a
root without members does.  A success with members changes nothing but the code facts of
the runtime: the root gets its definitions, and the members get the imports with which
the taps left them.  Names never run out on the way, so no scope is asked in vain. -/
theorem link_atomic (build : Build) (root : ModuleId) (members : List ModuleId) :
    (∀ reason, (build.link root members).result = .error reason ↔
      build.Refuses root members reason) ∧
    (∀ reason, (build.link root members).result = .error reason →
      (build.link root members).build = build) ∧
    (build.link root []).build = build ∧
    (∀ linked, members ≠ [] → (build.link root members).result = .ok linked →
      ∃ unit, (Concatenation.build build root members).value = .ok unit ∧
        unit.modules = (UniqueList.ofList members).toList ∧
        linked.definitions = unit.definitions build.registry ∧
        (build.link root members).build =
          { build with code := (build.link root members).build.code } ∧
        ∀ module runtime, (build.link root members).build.code.get module runtime =
          if runtime = build.runtime then
            { build.code.get module runtime with
              definitions :=
                if module = root then some linked.definitions
                else (build.code.get module runtime).definitions
              imports :=
                (unit.members.find? module).elim (build.code.get module runtime).imports
                  Member.imports }
          else build.code.get module runtime) ∧
    ∀ (scope : Scope) (preferred : String), (scope.allocate preferred).1 ∉ scope.names := by
  refine ⟨fun _ => link_eq_error_iff, fun _ => build_link_of_error, build_link_nil build root,
    fun linked hmembers hlink => ?_, Scope.allocate_notMem⟩
  obtain ⟨library, unit, interface, -, -, hunit, -, hlinked, hbuild⟩ :=
    exists_of_link_eq_ok hmembers hlink
  have hdefinitions : linked.definitions = unit.definitions build.registry :=
    congrArg LinkedLibrary.definitions hlinked
  refine ⟨unit, hunit, Concatenation.modules_of_build hunit, hdefinitions, ?_,
    fun module runtime => ?_⟩
  · rw [hbuild]
    rfl
  · rw [hbuild, get_code_publish, hdefinitions, ← Concatenation.root_of_build hunit]
    rfl

/-- A build with a last tap that gives the same answer for every member. -/
def buildAnswering (answer : Except String MapAnswer) : Build :=
  outsideBuild.addMapTap ⟨"check", fun _ _ member => pure (member, answer)⟩

/-- A root that is not registered is refused, and so are a tap that fails and one that takes
names away; the build stays as it was.  Without them the root gets its definitions and the
members their rebound imports in the runtime of the build, and nothing changes in any other. -/
theorem link_atomic_outside :
    (outsideBuild.link ⟨7⟩ [⟨7⟩]).result = .error (.unregistered ⟨7⟩) ∧
      (outsideBuild.link ⟨7⟩ [⟨7⟩]).build = outsideBuild ∧
      ((buildAnswering (.error "no answer")).link ⟨0⟩ [⟨0⟩, ⟨1⟩]).result =
        .error (.extensionFailed "no answer") ∧
      ((buildAnswering (.error "no answer")).link ⟨0⟩ [⟨0⟩, ⟨1⟩]).build =
        buildAnswering (.error "no answer") ∧
      ((buildAnswering (.ok (.replace ∅))).link ⟨0⟩ [⟨0⟩, ⟨1⟩]).result =
        .error (.namesChanged "check" ⟨0⟩ [] ["value", "path", "read"]) ∧
      ((buildAnswering (.ok (.replace ∅))).link ⟨0⟩ [⟨0⟩, ⟨1⟩]).build =
        buildAnswering (.ok (.replace ∅)) ∧
      ∃ linked, (outsideBuild.link ⟨0⟩ [⟨0⟩, ⟨1⟩]).result = .ok linked ∧
        linked.definitions.entries = outsideDefinitions ∧
        ((outsideBuild.link ⟨0⟩ [⟨0⟩, ⟨1⟩]).build.code.get ⟨0⟩ "main").definitions =
          some linked.definitions ∧
        ((outsideBuild.link ⟨0⟩ [⟨0⟩, ⟨1⟩]).build.code.get ⟨1⟩ "main").definitions = none ∧
        ((outsideBuild.link ⟨0⟩ [⟨0⟩, ⟨1⟩]).build.code.get ⟨1⟩ "main").imports =
          [⟨"node:path", [⟨"join", "join"⟩, ⟨"sep", "read_1"⟩]⟩] ∧
        (outsideBuild.link ⟨0⟩ [⟨0⟩, ⟨1⟩]).build.code.get ⟨0⟩ "worker" =
          outsideBuild.code.get ⟨0⟩ "worker" := by
  have hrefused : (outsideBuild.link ⟨7⟩ [⟨7⟩]).result = .error (.unregistered ⟨7⟩) := by decide
  have hfailed : ((buildAnswering (.error "no answer")).link ⟨0⟩ [⟨0⟩, ⟨1⟩]).result =
      .error (.extensionFailed "no answer") := by decide +kernel
  have hchanged : ((buildAnswering (.ok (.replace ∅))).link ⟨0⟩ [⟨0⟩, ⟨1⟩]).result =
      .error (.namesChanged "check" ⟨0⟩ [] ["value", "path", "read"]) := by decide +kernel
  obtain ⟨linked, hlink, -, hdefinitions⟩ := exists_link_outsideBuild
  obtain ⟨-, hkeeps, -, -, -⟩ := link_atomic outsideBuild ⟨7⟩ [⟨7⟩]
  obtain ⟨-, hkeepsFailed, -, -, -⟩ :=
    link_atomic (buildAnswering (.error "no answer")) ⟨0⟩ [⟨0⟩, ⟨1⟩]
  obtain ⟨-, hkeepsChanged, -, -, -⟩ :=
    link_atomic (buildAnswering (.ok (.replace ∅))) ⟨0⟩ [⟨0⟩, ⟨1⟩]
  obtain ⟨-, -, -, hwrites, -⟩ := link_atomic outsideBuild ⟨0⟩ [⟨0⟩, ⟨1⟩]
  obtain ⟨unit, hunit, -, -, -, hget⟩ := hwrites linked (List.cons_ne_nil _ _) hlink
  have himports : (Concatenation.build outsideBuild ⟨0⟩ [⟨0⟩, ⟨1⟩]).value.toOption.map
      (fun unit => (unit.members.find? ⟨1⟩).map Member.imports) =
        some (some [⟨"node:path", [⟨"join", "join"⟩, ⟨"sep", "read_1"⟩]⟩]) := by decide +kernel
  rw [hunit] at himports
  obtain ⟨member, hmember, hrebound⟩ := Option.map_eq_some_iff.mp (Option.some.inj himports)
  have hruntime : outsideBuild.runtime = "main" := rfl
  refine ⟨hrefused, hkeeps _ hrefused, hfailed, hkeepsFailed _ hfailed, hchanged,
    hkeepsChanged _ hchanged, linked, hlink, hdefinitions, ?_, ?_, ?_, ?_⟩
  · rw [hget, hruntime, if_pos rfl, if_pos rfl]
  · rw [hget, hruntime, if_pos rfl, if_neg (by decide)]
    rfl
  · rw [hget, hruntime, if_pos rfl, hmember]
    exact hrebound
  · rw [hget, hruntime, if_neg (by decide)]

end Build

end ModuleLinker
