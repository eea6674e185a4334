import ModuleLinker.Proofs.Linking.Transparency

/-!
# Taps that do nothing

A map tap that hands every member back as it got it and keeps every export map can stand
anywhere among the others, whatever those do: they see the same members and the same
maps, a run ends at the same tap, and what linking yields and publishes is the same.  If
the tap writes nothing either, the journals are the same too.
-/

namespace ModuleLinker

namespace Journaled

variable {α β : Type} {quiet : Prop}

/-- Two journaled values that are equal, with equal entries beside them if nothing is
written that tells them apart. -/
structure Matches (quiet : Prop) (plain tapped : Journaled α) : Prop where
  value_eq : tapped.value = plain.value
  entries_eq : quiet → tapped.entries = plain.entries

theorem Matches.refl (journaled : Journaled α) : journaled.Matches quiet journaled :=
  ⟨rfl, fun _ => rfl⟩

/-- What is done with matching values has to match for each value only. -/
theorem Matches.bind {plain tapped : Journaled α} {next other : α → Journaled β}
    (h : plain.Matches quiet tapped) (hnext : ∀ value, (next value).Matches quiet (other value)) :
    (plain >>= next).Matches quiet (tapped >>= other) where
  value_eq := by
    rw [value_bind, value_bind, h.value_eq]
    exact (hnext plain.value).value_eq
  entries_eq hquiet := by
    rw [entries_bind, entries_bind, h.value_eq, h.entries_eq hquiet,
      (hnext plain.value).entries_eq hquiet]

end Journaled

namespace MapTap

/-- A tap that leaves every member and every export map as it is. -/
def IsIdle (tap : MapTap) : Prop :=
  ∀ module map member, (tap.run module map member).value = (member, .ok .keep)

/-- A tap that writes nothing in the journal. -/
def IsQuiet (tap : MapTap) : Prop :=
  ∀ module map member, (tap.run module map member).entries = []

/-- Two lists of taps that do the same to every member. -/
def RunAlike (quiet : Prop) (plain tapped : List MapTap) : Prop :=
  ∀ module current member,
    (runAll module plain current member).Matches quiet (runAll module tapped current member)

variable {tap : MapTap}

/-- An idle tap in front of others. -/
theorem IsIdle.runAlike_cons (hidle : tap.IsIdle) (taps : List MapTap) :
    RunAlike tap.IsQuiet taps (tap :: taps) := by
  intro module current member
  rw [runAll]
  constructor
  · rw [Journaled.value_bind, hidle]
  · intro hquiet
    rw [Journaled.entries_bind, hquiet, hidle, List.nil_append]

/-- Taps run alike behind one that is the same on both sides. -/
theorem RunAlike.cons {quiet : Prop} {plain tapped : List MapTap}
    (h : RunAlike quiet plain tapped) (head : MapTap) :
    RunAlike quiet (head :: plain) (head :: tapped) := by
  intro module current member
  rw [runAll, runAll]
  apply (Journaled.Matches.refl _).bind
  rintro ⟨after, answer⟩
  -- Only a run that goes on after the first tap comes to the others at all.
  cases answer with
  | error reason => exact .refl _
  | ok answer =>
    cases answer with
    | keep => exact h module current after
    | replace map =>
      show Journaled.Matches quiet (ite _ _ _) (ite _ _ _)
      split
      · exact h module ⟨map, true⟩ after
      · exact .refl _

/-- An idle tap at any place among others. -/
theorem IsIdle.runAlike_insertIdx (hidle : tap.IsIdle) (taps : List MapTap) (place : Nat) :
    RunAlike tap.IsQuiet taps (taps.insertIdx place tap) := by
  induction taps generalizing place with
  | nil =>
    cases place with
    | zero => exact hidle.runAlike_cons []
    | succ place =>
      intro module current member
      exact .refl _
  | cons head rest ih =>
    cases place with
    | zero => exact hidle.runAlike_cons (head :: rest)
    | succ place =>
      rw [List.insertIdx_succ_cons]
      exact (ih place).cons head

end MapTap

namespace Concatenation

variable {quiet : Prop} {plain tapped : List MapTap}

/-- Taps that run alike leave the same members, or fail at the same one. -/
theorem tapMembers_matches (h : MapTap.RunAlike quiet plain tapped) (members : List Member) :
    (tapMembers plain members).Matches quiet (tapMembers tapped members) := by
  induction members with
  | nil => exact .refl _
  | cons member rest ih =>
    rw [tapMembers, tapMembers]
    apply (h member.module ⟨member.exportMap, false⟩ member).bind
    rintro ⟨after, outcome⟩
    cases outcome with
    | error reason => exact .refl _
    | ok rewritten =>
      apply ih.bind
      intro outcome
      exact .refl _

/-- Merging with taps that run alike. -/
theorem build_matches (h : MapTap.RunAlike quiet plain tapped) (build : Build) (root : ModuleId)
    (modules : List ModuleId) :
    (Concatenation.build (build.withMapTaps plain) root modules).Matches quiet
      (Concatenation.build (build.withMapTaps tapped) root modules) := by
  rw [Concatenation.build, Concatenation.build]
  dsimp only
  split
  · exact .refl _
  · rw [Build.registry_withMapTaps, Build.registry_withMapTaps]
    split
    · exact .refl _
    · apply (tapMembers_matches h _).bind
      intro outcome
      exact .refl _

end Concatenation

/-- What linking leaves behind with taps that run alike: the same result, the same build
up to the taps, and the same journal if nothing is written. -/
structure LinkOutcome.SameButTaps (quiet : Prop) (taps : List MapTap)
    (plain tapped : LinkOutcome) : Prop where
  result_eq : tapped.result = plain.result
  build_eq : tapped.build = plain.build.withMapTaps taps
  journal_eq : quiet → tapped.journal = plain.journal

namespace Build

variable {quiet : Prop} {plain tapped : List MapTap}

@[simp] theorem configuration_withMapTaps (build : Build) (mapTaps : List MapTap) :
    (build.withMapTaps mapTaps).configuration = build.configuration := rfl

theorem finish_sameButTaps (build : Build) (library : Library) (root : ModuleId)
    (unit : Option Concatenation) (imports : List ImportStatement) (definitions : ExportMap)
    {journal other : List JournalEntry} (hjournal : quiet → other = journal) :
    LinkOutcome.SameButTaps quiet tapped
      (build.finish library root unit imports definitions journal)
      ((build.withMapTaps tapped).finish library root unit imports definitions other) := by
  have hplan : Interface.plan (build.withMapTaps tapped) library root unit =
      Interface.plan build library root unit := rfl
  rw [finish, finish, hplan]
  split
  · exact ⟨rfl, rfl, fun hquiet => by rw [hjournal hquiet]⟩
  · exact ⟨rfl, rfl, fun hquiet => by rw [hjournal hquiet]⟩

theorem linkMembers_sameButTaps (h : MapTap.RunAlike quiet plain tapped) (build : Build)
    (library : Library) (root : ModuleId) (members : List ModuleId) :
    LinkOutcome.SameButTaps quiet tapped
      ((build.withMapTaps plain).linkMembers library root members)
      ((build.withMapTaps tapped).linkMembers library root members) := by
  have hmerged := Concatenation.build_matches h build root members
  rw [linkMembers, linkMembers]
  dsimp only
  split
  · exact finish_sameButTaps (build.withMapTaps plain) library root none _ _ fun _ => rfl
  · rw [hmerged.value_eq]
    have hjournal (hquiet : quiet) := congrArg
      (build.registry.cycles.map JournalEntry.circularExports ++ ·) (hmerged.entries_eq hquiet)
    split
    · exact ⟨rfl, rfl, hjournal⟩
    next unit _ =>
      exact finish_sameButTaps ((build.withMapTaps plain).publish unit _) library root (some unit)
        _ _ hjournal

theorem link_sameButTaps (h : MapTap.RunAlike quiet plain tapped) (build : Build)
    (root : ModuleId) (members : List ModuleId) :
    LinkOutcome.SameButTaps quiet tapped ((build.withMapTaps plain).link root members)
      ((build.withMapTaps tapped).link root members) := by
  rw [link, link, configuration_withMapTaps, configuration_withMapTaps]
  cases Library.ofOptions build.configuration.library with
  | error reason => exact ⟨rfl, rfl, fun _ => rfl⟩
  | ok library =>
    dsimp only
    rw [registry_withMapTaps, registry_withMapTaps]
    cases library.checkAgainst build.registry root with
    | error reason => exact ⟨rfl, rfl, fun _ => rfl⟩
    | ok _ => exact linkMembers_sameButTaps h build library root members

/-- The build with one more map tap, at a place among the others. -/
def insertMapTap (build : Build) (place : Nat) (tap : MapTap) : Build :=
  build.withMapTaps (build.extensions.mapTaps.insertIdx place tap)

/-- An idle tap changes nothing, wherever it stands and whatever the other taps do.  Linking
yields the same library or fails for the same reason, and the build that it leaves behind is
the same but for the tap.  The journal is the same too if the tap writes nothing. -/
theorem link_insertMapTap (build : Build) (place : Nat) {tap : MapTap} (hidle : tap.IsIdle)
    (root : ModuleId) (members : List ModuleId) :
    ((build.insertMapTap place tap).link root members).result =
        (build.link root members).result ∧
      ((build.insertMapTap place tap).link root members).build =
        (build.link root members).build.insertMapTap place tap ∧
      (tap.IsQuiet → ((build.insertMapTap place tap).link root members).journal =
        (build.link root members).journal) := by
  have hsame := link_sameButTaps (hidle.runAlike_insertIdx build.extensions.mapTaps place) build
    root members
  have hextensions : (build.link root members).build.extensions = build.extensions := by
    rw [build_link_eq]
  refine ⟨hsame.result_eq, ?_, hsame.journal_eq⟩
  rw [insertMapTap, insertMapTap, hextensions]
  exact hsame.build_eq

/-- A map tap that hands on what it gets. -/
def passingTap : MapTap where
  name := "passing"
  run _ _ member := pure (member, .ok .keep)

/-- A map tap that fails on every member. -/
def failingTap : MapTap where
  name := "failing"
  run _ _ member := pure (member, .error "not now")

/-- Behind rebinding the passing tap leaves the renamed import and the journal as they are,
and between rebinding and a tap that fails it does not keep that from failing. -/
theorem link_insertMapTap_passing :
    (∃ linked, ((renamedImportBuild.insertMapTap 1 passingTap).link ⟨0⟩ [⟨0⟩, ⟨1⟩]).result =
        .ok linked ∧
      linked.code = "import \x7b join as join_1 \x7d from \"node:path\";\n" ∧
      linked.mapsRewritten = true) ∧
      ((renamedImportBuild.insertMapTap 1 passingTap).link ⟨0⟩ [⟨0⟩, ⟨1⟩]).journal =
        (renamedImportBuild.link ⟨0⟩ [⟨0⟩, ⟨1⟩]).journal ∧
      (((renamedImportBuild.addMapTap failingTap).insertMapTap 1 passingTap).link ⟨0⟩
        [⟨0⟩, ⟨1⟩]).result = .error (.extensionFailed "not now") := by
  have hidle : passingTap.IsIdle := fun _ _ _ => rfl
  obtain ⟨linked, hlink, hread⟩ := exists_eq_ok_of_map_toOption
    (renamedImportBuild.link ⟨0⟩ [⟨0⟩, ⟨1⟩]).result
    (fun linked => (linked.code, linked.mapsRewritten))
    (y := ("import \x7b join as join_1 \x7d from \"node:path\";\n", true)) (by decide)
  obtain ⟨hsame, -, hjournal⟩ := link_insertMapTap renamedImportBuild 1 hidle ⟨0⟩ [⟨0⟩, ⟨1⟩]
  obtain ⟨hfails, -⟩ := link_insertMapTap (renamedImportBuild.addMapTap failingTap) 1 hidle ⟨0⟩
    [⟨0⟩, ⟨1⟩]
  have hfailing : ((renamedImportBuild.addMapTap failingTap).link ⟨0⟩ [⟨0⟩, ⟨1⟩]).result =
      .error (.extensionFailed "not now") := by decide
  exact ⟨⟨linked, hsame.trans hlink, congrArg Prod.fst hread, congrArg Prod.snd hread⟩,
    hjournal fun _ _ _ => rfl, hfails.trans hfailing⟩

end Build

end ModuleLinker
