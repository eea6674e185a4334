import ModuleLinker.Interface.Plan
import ModuleLinker.Interface.Wrapper

/-!
# Taps that the plan asks

Publishing a concatenation changes nothing but facts about generated code.  A tap whose
answer does not depend on them answers as before, and so the plan for merged members stays
the same as long as their scope and the definitions of the module do.
-/

namespace ModuleLinker

/-- The reasons of a bailout tap do not depend on the facts about generated code. -/
def BailoutTap.IgnoresCode (tap : BailoutTap) : Prop :=
  ∀ module facts code,
    (tap.reason module { facts with code }).value = (tap.reason module facts).value

/-- The verdicts of a definitions tap do not depend on the facts about generated code, as
long as those of the bailout taps that it may ask do not. -/
def DefinitionsTap.IgnoresCode (tap : DefinitionsTap) : Prop :=
  ∀ definitions module facts code bailoutTaps,
    (∀ asked ∈ bailoutTaps, BailoutTap.IgnoresCode asked) →
      (tap.verdict definitions module { facts with code } bailoutTaps).value =
        (tap.verdict definitions module facts bailoutTaps).value

theorem BailoutTap.value_firstReason_withCode {taps : List BailoutTap}
    (htaps : ∀ tap ∈ taps, tap.IgnoresCode) (module : ModuleId) (facts : BuildFacts)
    (code : CodeTable) :
    (firstReason module { facts with code } taps).value =
      (firstReason module facts taps).value := by
  induction taps with
  | nil => rfl
  | cons tap rest ih =>
    rw [List.forall_mem_cons] at htaps
    rw [firstReason, firstReason, Journaled.value_bind, Journaled.value_bind, htaps.1 module]
    cases (tap.reason module facts).value with
    | some reason => rfl
    | none => exact ih htaps.2

theorem DefinitionsTap.value_firstVerdict_withCode {taps : List DefinitionsTap}
    {bailoutTaps : List BailoutTap} (htaps : ∀ tap ∈ taps, tap.IgnoresCode)
    (hbailout : ∀ tap ∈ bailoutTaps, tap.IgnoresCode) (definitions : ExportMap)
    (module : ModuleId) (facts : BuildFacts) (code : CodeTable) :
    (firstVerdict definitions module { facts with code } bailoutTaps taps).value =
      (firstVerdict definitions module facts bailoutTaps taps).value := by
  induction taps with
  | nil => rfl
  | cons tap rest ih =>
    rw [List.forall_mem_cons] at htaps
    rw [firstVerdict, firstVerdict, Journaled.value_bind, Journaled.value_bind,
      htaps.1 definitions module facts code bailoutTaps hbailout]
    cases (tap.verdict definitions module facts bailoutTaps).value with
    | some verdict => rfl
    | none => exact ih htaps.2

namespace Wrapper

theorem value_canOmit_withCode {bailoutTaps : List BailoutTap}
    (hbailout : ∀ tap ∈ bailoutTaps, tap.IgnoresCode) (module : ModuleId) (facts : BuildFacts)
    (code : CodeTable) :
    (canOmit module { facts with code } bailoutTaps).value =
      (canOmit module facts bailoutTaps).value := by
  rw [canOmit, canOmit, Journaled.value_bind, Journaled.value_bind,
    BailoutTap.value_firstReason_withCode hbailout]
  rfl

/-- The decision about wrappers looks at imports and chunks, and asks the bailout taps. -/
theorem ignoresCode_tap : tap.IgnoresCode :=
  fun _ module facts code _ hbailout =>
    congrArg some (value_canOmit_withCode hbailout module facts code)

end Wrapper

namespace Interface

variable {build : Build} {library : Library} {module : ModuleId} {interface : Interface}

/-- The plan for merged members depends on their scope and on the definitions of the
module, but on no other facts about code unless a tap reads them. -/
theorem value_plan_withCode (build : Build)
    (hbailout : ∀ tap ∈ build.extensions.bailoutTaps, tap.IgnoresCode)
    (hdefinitionsTaps : ∀ tap ∈ build.extensions.definitionsTaps, tap.IgnoresCode)
    (library : Library) {code : CodeTable} {first second : Concatenation}
    (hscope : second.scope = first.scope)
    (hdefinitions : definitionsOf { build.toBuildFacts with code } module =
      definitionsOf build.toBuildFacts module) :
    (plan { build with code } library module (some second)).value =
      (plan build library module (some first)).value := by
  rw [plan, plan]
  dsimp only
  cases build.registry.table? module with
  | none => rfl
  | some table =>
    have hverdict := DefinitionsTap.value_firstVerdict_withCode hdefinitionsTaps hbailout
      (definitionsOf build.toBuildFacts module) module build.toBuildFacts code
    simp only [Option.isSome_some, if_true, Journaled.value_bind, Journaled.value_pure,
      hdefinitions, startScope, hscope, hverdict]
    rfl

theorem wrapperOmittable_of_plan_none
    (h : (plan build library module none).value = .ok interface) :
    interface.wrapperOmittable = false := by
  rw [plan] at h
  split at h
  · exact absurd h (by simp)
  · exact (congrArg Interface.wrapperOmittable (Except.ok.inj h)).symm

/-- Where the wrapper check is the only definitions tap, it decides about merged
members. -/
theorem wrapperOmittable_of_plan_some (build : Build) {unit : Concatenation}
    (htaps : build.extensions.definitionsTaps = [Wrapper.tap])
    (h : (plan build library module (some unit)).value = .ok interface) :
    interface.wrapperOmittable =
      (Wrapper.canOmit module build.toBuildFacts build.extensions.bailoutTaps).value := by
  rw [plan] at h
  split at h
  · exact absurd h (by simp)
  · rw [htaps] at h
    exact (congrArg Interface.wrapperOmittable (Except.ok.inj h)).symm

end Interface

end ModuleLinker
