import Mathlib.Data.List.Induction
import ModuleLinker.Proofs.Concatenation.Tapping

/-!
# The tap that ends a run

Map taps run one after the other, each on the map and the member that the taps before it
left.  A run goes on as long as a tap neither fails nor answers with other names, and what
it hands on is told by the answers so far.  So a run of taps is a course without an
offence, or such a course up to one tap whose offence decides the error, whatever stands
behind that tap.  Names are judged by the map that the tap received: what one tap drops,
a later one cannot bring back.
-/

namespace ModuleLinker

namespace Journaled

variable {α : Type}

/-- A journaled value behind entries that were written before. -/
def prepend (journal : List JournalEntry) (next : Journaled α) : Journaled α :=
  ⟨journal ++ next.entries, next.value⟩

theorem prepend_prepend (first second : List JournalEntry) (next : Journaled α) :
    (next.prepend second).prepend first = next.prepend (first ++ second) := by
  rw [prepend, prepend, prepend, List.append_assoc]

theorem prepend_pure (journal : List JournalEntry) (value : α) :
    (pure value : Journaled α).prepend journal = ⟨journal, value⟩ := by
  rw [prepend, entries_pure, List.append_nil, value_pure]

/-- What follows a journaled value is told behind what was told before. -/
theorem bind_eq_prepend {β : Type} (first : Journaled α) (next : α → Journaled β) :
    first >>= next = (next first.value).prepend first.entries := rfl

end Journaled

namespace MapAnswer

/-- The map that an answer puts in the place of the one before. -/
def replacement? : MapAnswer → Option ExportMap
  | keep => none
  | replace map => some map

end MapAnswer

namespace MapTap

/-- The map that is handed on after some answers: the last one that was put in the place of
another, or the map from which the run started. -/
def mapAfter (map : ExportMap) (answers : List MapAnswer) : ExportMap :=
  (answers.filterMap MapAnswer.replacement?).getLastD map

/-- Whether an answer leaves the map or gives one with the same names. -/
def KeepsNames (map : ExportMap) (answer : MapAnswer) : Prop :=
  ∀ replacement, answer = .replace replacement →
    ∀ name, name ∈ replacement.keys ↔ name ∈ map.keys

variable {module : ModuleId} {map : ExportMap} {member : Member}

@[simp] theorem mapAfter_append_keep (map : ExportMap) (answers : List MapAnswer) :
    mapAfter map (answers ++ [.keep]) = mapAfter map answers := by
  rw [mapAfter, List.filterMap_append]
  exact congrArg (List.getLastD · map) (List.append_nil _)

@[simp] theorem mapAfter_append_replace (map replacement : ExportMap)
    (answers : List MapAnswer) :
    mapAfter map (answers ++ [.replace replacement]) = replacement := by
  rw [mapAfter, List.filterMap_append]
  exact List.getLastD_concat

/-- A course of taps without an offence: what they answered, what they wrote in the journal,
and the member as the last of them left it. -/
inductive Course (module : ModuleId) (map : ExportMap) (member : Member) :
    List MapTap → List MapAnswer → List JournalEntry → Member → Prop
  | start : Course module map member [] [] [] member
  | extend {passed : List MapTap} {answers : List MapAnswer} {journal entries : List JournalEntry}
      {before after : Member} {tap : MapTap} {answer : MapAnswer}
      (earlier : Course module map member passed answers journal before)
      (ran : tap.run module (mapAfter map answers) before = ⟨entries, (after, .ok answer)⟩)
      (keepsNames : KeepsNames (mapAfter map answers) answer) :
      Course module map member (passed ++ [tap]) (answers ++ [answer]) (journal ++ entries) after

/-- A tap that must not go on: what it writes in the journal, the member that it hands back,
and the error.  It fails for a reason of its own, or it answers with other names, and then
the names that it adds and those that it drops are told in the order in which they stand in
the map that has them. -/
inductive Offends (module : ModuleId) (tap : MapTap) (map : ExportMap) (member : Member) :
    List JournalEntry → Member → LinkError → Prop
  | fails {entries : List JournalEntry} {after : Member} {reason : String}
      (ran : tap.run module map member = ⟨entries, (after, .error reason)⟩) :
      Offends module tap map member entries after (.extensionFailed reason)
  | changesNames {entries : List JournalEntry} {after : Member} {replacement : ExportMap}
      (ran : tap.run module map member = ⟨entries, (after, .ok (.replace replacement))⟩)
      (otherNames : ¬ KeepsNames map (.replace replacement)) :
      Offends module tap map member entries after
        (.namesChanged tap.name module
          (replacement.keys.filter fun name => decide (name ∉ map.keys))
          (map.keys.filter fun name => decide (name ∉ replacement.keys)))

theorem missingIn_eq_filter (first second : ExportMap) :
    missingIn first second = second.keys.filter fun name => decide (name ∉ first.keys) := by
  rw [missingIn]
  apply List.filter_congr
  intro name _
  rw [OrderedMap.contains, decide_not]

/-- The check of an answer: nothing is missing on either side. -/
theorem keepsNames_replace_iff {map replacement : ExportMap} :
    KeepsNames map (.replace replacement) ↔
      ((missingIn map replacement).isEmpty && (missingIn replacement map).isEmpty) = true := by
  rw [Bool.and_eq_true, List.isEmpty_iff, List.isEmpty_iff, missingIn_eq_nil_iff,
    missingIn_eq_nil_iff]
  constructor
  · intro h
    exact ⟨fun name => (h replacement rfl name).mp, fun name => (h replacement rfl name).mpr⟩
  · rintro ⟨hadded, hremoved⟩ _ ⟨rfl⟩ name
    exact ⟨hadded name, hremoved name⟩

/-- Either a tap goes on or it offends. -/
theorem goesOn_or_offends (module : ModuleId) (tap : MapTap) (map : ExportMap)
    (member : Member) :
    (∃ entries after answer, tap.run module map member = ⟨entries, (after, .ok answer)⟩ ∧
        KeepsNames map answer) ∨
      ∃ entries after reason, Offends module tap map member entries after reason := by
  rcases hrun : tap.run module map member with ⟨entries, after, answer⟩
  cases answer with
  | error reason => exact Or.inr ⟨entries, after, _, .fails hrun⟩
  | ok answer =>
    by_cases hnames : KeepsNames map answer
    · exact Or.inl ⟨entries, after, answer, rfl, hnames⟩
    · cases answer with
      | keep => exact absurd (fun _ heq => MapAnswer.noConfusion heq) hnames
      | replace replacement => exact Or.inr ⟨entries, after, _, .changesNames hrun hnames⟩

/-- What a list of taps comes to: a course, or a course up to the first tap that offends. -/
theorem course_or_offends (module : ModuleId) (map : ExportMap) (member : Member)
    (taps : List MapTap) :
    (∃ answers journal after, Course module map member taps answers journal after) ∨
      ∃ passed tap later answers journal before entries after reason,
        taps = passed ++ tap :: later ∧ Course module map member passed answers journal before ∧
          Offends module tap (mapAfter map answers) before entries after reason := by
  -- From the end on: the taps in front of the last one come to an offence, or the last one sees
  -- what they left.
  induction taps using List.reverseRecOn with
  | nil => exact Or.inl ⟨[], [], member, .start⟩
  | append_singleton front tap ih =>
    obtain ⟨answers, journal, before, hcourse⟩ |
      ⟨passed, first, later, answers, journal, before, entries, after, reason, rfl, hcourse,
        hoffends⟩ := ih
    · obtain ⟨entries, after, answer, hran, hnames⟩ | ⟨entries, after, reason, hoffends⟩ :=
        goesOn_or_offends module tap (mapAfter map answers) before
      · exact Or.inl ⟨_, _, _, hcourse.extend hran hnames⟩
      · exact Or.inr ⟨front, tap, [], answers, journal, before, entries, after, reason, rfl,
          hcourse, hoffends⟩
    · refine Or.inr ⟨passed, first, later ++ [tap], answers, journal, before, entries, after,
        reason, ?_, hcourse, hoffends⟩
      rw [List.append_assoc, List.cons_append]

variable {passed taps : List MapTap} {tap : MapTap} {answers : List MapAnswer}
  {journal entries : List JournalEntry} {before after : Member} {reason : LinkError}

/-- What is handed on after some answers, with the note whether one of them replaced the
map. -/
def rewrittenAfter (map : ExportMap) (answers : List MapAnswer) : Rewritten :=
  ⟨mapAfter map answers, answers.any fun answer => answer.replacement?.isSome⟩

theorem changed_rewrittenAfter_iff :
    (rewrittenAfter map answers).changed = true ↔ ∃ replacement, .replace replacement ∈ answers := by
  rw [rewrittenAfter, List.any_eq_true]
  constructor
  · rintro ⟨answer, hanswer, hreplaces⟩
    cases answer with
    | keep => exact absurd hreplaces Bool.false_ne_true
    | replace replacement => exact ⟨replacement, hanswer⟩
  · rintro ⟨replacement, hanswer⟩
    exact ⟨.replace replacement, hanswer, rfl⟩

/-- Behind a tap that goes on, a run goes on with what the tap left. -/
theorem runAll_cons_of_goesOn {answer : MapAnswer}
    (hran : tap.run module (mapAfter map answers) member = ⟨entries, (after, .ok answer)⟩)
    (hnames : KeepsNames (mapAfter map answers) answer) (rest : List MapTap) :
    runAll module (tap :: rest) (rewrittenAfter map answers) member =
      (runAll module rest (rewrittenAfter map (answers ++ [answer])) after).prepend entries := by
  have hran' : tap.run module (rewrittenAfter map answers).map member =
      ⟨entries, (after, .ok answer)⟩ := hran
  rw [runAll, Journaled.bind_eq_prepend, hran']
  cases answer with
  | keep =>
    have hsame : rewrittenAfter map (answers ++ [.keep]) = rewrittenAfter map answers := by
      simp [rewrittenAfter, MapAnswer.replacement?]
    rw [hsame]
  | replace replacement =>
    have hnext : rewrittenAfter map (answers ++ [.replace replacement]) = ⟨replacement, true⟩ := by
      simp [rewrittenAfter, MapAnswer.replacement?]
    have hcheck := keepsNames_replace_iff.mp hnames
    rw [hnext]
    simp only [rewrittenAfter, hcheck, if_true]

/-- A run comes through a course of taps without an offence to the taps behind them. -/
theorem runAll_append_of_course (h : Course module map member passed answers journal before)
    (rest : List MapTap) :
    runAll module (passed ++ rest) ⟨map, false⟩ member =
      (runAll module rest (rewrittenAfter map answers) before).prepend journal := by
  induction h generalizing rest with
  | start => rfl
  | @extend passed answers journal entries before after tap answer _ ran keepsNames ih =>
    rw [List.append_assoc, List.singleton_append, ih, runAll_cons_of_goesOn ran keepsNames,
      Journaled.prepend_prepend]

/-- A run ends at a tap that offends. -/
theorem runAll_cons_of_offends {current : Rewritten}
    (h : Offends module tap current.map before entries after reason) (later : List MapTap) :
    runAll module (tap :: later) current before = ⟨entries, (after, .error reason)⟩ := by
  rw [runAll, Journaled.bind_eq_prepend]
  cases h with
  | fails ran =>
    rw [ran]
    exact Journaled.prepend_pure entries _
  | changesNames ran otherNames =>
    rw [keepsNames_replace_iff] at otherNames
    rw [ran]
    dsimp only
    rw [if_neg otherNames, Journaled.prepend_pure, missingIn_eq_filter, missingIn_eq_filter]

/-- So does a run with a course in front of that tap, whatever stands behind it. -/
theorem runAll_of_offends (h : Course module map member passed answers journal before)
    (hoffends : Offends module tap (mapAfter map answers) before entries after reason)
    (later : List MapTap) :
    runAll module (passed ++ tap :: later) ⟨map, false⟩ member =
      ⟨journal ++ entries, (after, .error reason)⟩ := by
  have hstep : Offends module tap (rewrittenAfter map answers).map before entries after reason :=
    hoffends
  rw [runAll_append_of_course h, runAll_cons_of_offends hstep, Journaled.prepend]

/-- A course through all taps is the whole run. -/
theorem runAll_of_course (h : Course module map member taps answers journal after) :
    runAll module taps ⟨map, false⟩ member =
      ⟨journal, (after, .ok (rewrittenAfter map answers))⟩ := by
  have hrun := runAll_append_of_course h []
  rw [List.append_nil] at hrun
  rw [hrun]
  exact Journaled.prepend_pure journal _

/-- A run fails exactly at its first offence. -/
theorem runAll_eq_error_iff {told : List JournalEntry} :
    runAll module taps ⟨map, false⟩ member = ⟨told, (after, .error reason)⟩ ↔
      ∃ passed tap later answers journal before entries,
        taps = passed ++ tap :: later ∧
          Course module map member passed answers journal before ∧
          Offends module tap (mapAfter map answers) before entries after reason ∧
          told = journal ++ entries := by
  constructor
  · intro hrun
    obtain ⟨answers, journal, last, hcourse⟩ |
      ⟨passed, tap, later, answers, journal, before, entries, last, cause, rfl, hcourse,
        hoffends⟩ := course_or_offends module map member taps
    · rw [runAll_of_course hcourse] at hrun
      exact absurd (congrArg (fun run => run.value.2) hrun) (by simp)
    · rw [runAll_of_offends hcourse hoffends] at hrun
      injection hrun with htold hvalue
      obtain ⟨rfl, heq⟩ := Prod.mk.inj hvalue
      obtain rfl := Except.error.inj heq
      exact ⟨passed, tap, later, answers, journal, before, entries, rfl, hcourse, hoffends,
        htold.symm⟩
  · rintro ⟨passed, tap, later, answers, journal, before, entries, rfl, hcourse, hoffends, rfl⟩
    exact runAll_of_offends hcourse hoffends later

/-- A run that does not fail is a course of all its taps. -/
theorem runAll_eq_ok_iff {told : List JournalEntry} {rewritten : Rewritten} :
    runAll module taps ⟨map, false⟩ member = ⟨told, (after, .ok rewritten)⟩ ↔
      ∃ answers, Course module map member taps answers told after ∧
        rewritten.map = mapAfter map answers ∧
        (rewritten.changed = true ↔ ∃ replacement, .replace replacement ∈ answers) := by
  constructor
  · intro hrun
    obtain ⟨answers, journal, last, hcourse⟩ |
      ⟨passed, tap, later, answers, journal, before, entries, last, cause, rfl, hcourse,
        hoffends⟩ := course_or_offends module map member taps
    · rw [runAll_of_course hcourse] at hrun
      injection hrun with htold hvalue
      obtain ⟨rfl, heq⟩ := Prod.mk.inj hvalue
      obtain rfl := Except.ok.inj heq
      exact ⟨answers, htold ▸ hcourse, rfl, changed_rewrittenAfter_iff⟩
    · rw [runAll_of_offends hcourse hoffends] at hrun
      exact absurd (congrArg (fun run => run.value.2) hrun) (by simp)
  · rintro ⟨answers, hcourse, hmap, hchanged⟩
    obtain ⟨last, changed⟩ := rewritten
    obtain rfl : last = mapAfter map answers := hmap
    obtain rfl : changed = (rewrittenAfter map answers).changed :=
      Bool.eq_iff_iff.mpr (hchanged.trans changed_rewrittenAfter_iff.symm)
    exact runAll_of_course hcourse

/-- A run of map taps is decided by its first offence.  It fails exactly when some tap, on the
map and the member that the taps before it left without an offence, fails or answers with
other names; then this tap gives the error, and neither the outcome nor the journal depends on
the taps behind it.  Otherwise every tap has had its turn on what the one before it left: the
run hands on the last replacement, or the map from which it started, with the same names, and
it notes a change exactly when some tap replaced the map. -/
theorem runAll_decided_by_first_offence (module : ModuleId) (taps : List MapTap)
    (map : ExportMap) (member : Member) :
    (∀ told after reason,
      runAll module taps ⟨map, false⟩ member = ⟨told, (after, .error reason)⟩ ↔
        ∃ passed tap later answers journal before entries,
          taps = passed ++ tap :: later ∧
            Course module map member passed answers journal before ∧
            Offends module tap (mapAfter map answers) before entries after reason ∧
            told = journal ++ entries) ∧
      (∀ passed tap later answers journal before entries after reason,
        taps = passed ++ tap :: later →
          Course module map member passed answers journal before →
          Offends module tap (mapAfter map answers) before entries after reason →
          ∀ others, runAll module (passed ++ tap :: others) ⟨map, false⟩ member =
            runAll module taps ⟨map, false⟩ member) ∧
      (∀ told after rewritten,
        runAll module taps ⟨map, false⟩ member = ⟨told, (after, .ok rewritten)⟩ ↔
          ∃ answers, Course module map member taps answers told after ∧
            rewritten.map = mapAfter map answers ∧
            (rewritten.changed = true ↔ ∃ replacement, .replace replacement ∈ answers)) ∧
      ∀ after rewritten,
        (runAll module taps ⟨map, false⟩ member).value = (after, .ok rewritten) →
          ∀ name, name ∈ rewritten.map.keys ↔ name ∈ map.keys := by
  refine ⟨fun _ _ _ => runAll_eq_error_iff, ?_, fun _ _ _ => runAll_eq_ok_iff,
    fun _ _ hrun _ => mem_keys_of_runAll_eq_ok hrun⟩
  rintro passed tap later answers journal before entries after reason rfl hcourse hoffends others
  rw [runAll_of_offends hcourse hoffends, runAll_of_offends hcourse hoffends]

/-- A map tap that answers with the same map everywhere. -/
def constantTap (name : String) (map : ExportMap) : MapTap where
  name
  run _ _ member := pure (member, .ok (.replace map))

-- What the first tap drops the second one would bring back, but the run has ended by then.
example :
    let map : ExportMap := OrderedMap.ofList [("a", .identifier "x"), ("b", .identifier "y")]
    (runAll ⟨0⟩ [constantTap "drop" (OrderedMap.ofList [("b", .identifier "z")]),
        constantTap "restore" map] ⟨map, false⟩ ⟨⟨0⟩, 0, map, ∅, none, []⟩).value.2 =
      .error (.namesChanged "drop" ⟨0⟩ [] ["a"]) := by
  decide

end MapTap

end ModuleLinker
