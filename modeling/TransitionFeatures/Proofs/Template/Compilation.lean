import Mathlib.Data.List.Forall2
import TransitionFeatures.Template.Set

/-!
# Compiling descriptors

Descriptors are read in one pass that puts templates to one side and refused descriptors to the
other; what becomes of the two is decided when all have been read.  If nothing was refused, every
descriptor has its template at its own place, and the requirements of that template stand at the
same place.  Otherwise exactly the refused descriptors are reported.  A list that is put together
from two is compiled as its parts are: `TemplateSet.compile_all_or_nothing`.
-/

namespace TransitionFeatures

namespace TemplateSet

/-! ## One pass over the descriptors -/

/-- What has been read so far: the templates, and the descriptors that cannot be read. -/
structure Tally where
  templates : List Template
  refused : List String

namespace Tally

/-- What has been read before the first descriptor: nothing. -/
def empty : Tally :=
  { templates := [], refused := [] }

/-- Read one more descriptor. -/
def enter (tally : Tally) (descriptor : String) : Tally :=
  match Template.parse? descriptor with
  | some template => { tally with templates := tally.templates ++ [template] }
  | none => { tally with refused := tally.refused ++ [descriptor] }

/-- What becomes of the templates once all descriptors are read. -/
def verdict (tally : Tally) : Logged (Except CompileError TemplateSet) :=
  if tally.refused = [] then
    { result := .ok (ofTemplates tally.templates)
      events := [.compiled tally.templates.length (ofTemplates tally.templates).elementCount] }
  else
    { result := .error (.invalidDescriptors tally.refused)
      events := [.rejected tally.refused] }

/-- Each descriptor adds to one side only. -/
theorem enter_eq (tally : Tally) (descriptor : String) :
    tally.enter descriptor =
      { templates := tally.templates ++ [descriptor].filterMap Template.parse?
        refused := tally.refused ++ invalid [descriptor] } := by
  unfold enter
  cases read : Template.parse? descriptor <;> simp [read, invalid]

/-- A pass adds what it reads behind what was read before, and both sides stay in order. -/
theorem foldl_enter (descriptors : List String) (tally : Tally) :
    descriptors.foldl enter tally =
      { templates := tally.templates ++ descriptors.filterMap Template.parse?
        refused := tally.refused ++ invalid descriptors } := by
  induction descriptors generalizing tally with
  | nil => simp [invalid]
  | cons descriptor rest inductionHypothesis =>
    rw [List.foldl_cons, inductionHypothesis, enter_eq, List.append_assoc, List.append_assoc,
      ← List.filterMap_append, invalid, invalid, ← List.filter_append]
    rfl

end Tally

/-- A compilation is the verdict on one pass. -/
theorem compile_eq_verdict (descriptors : List String) :
    compile descriptors = (descriptors.foldl Tally.enter .empty).verdict := by
  rw [Tally.foldl_enter, Tally.verdict, Tally.empty, List.nil_append, List.nil_append]
  unfold compile
  split
  · rename_i nothing
    rw [if_pos nothing]
    rfl
  · rename_i something
    rw [if_neg something]

theorem result_compile_eq_ok_iff {descriptors : List String} {set : TemplateSet} :
    (compile descriptors).result = .ok set ↔
      invalid descriptors = [] ∧ set = ofTemplates (descriptors.filterMap Template.parse?) := by
  rw [compile_eq_verdict, Tally.foldl_enter, Tally.verdict]
  by_cases nothing : invalid descriptors = [] <;> simp [Tally.empty, nothing, eq_comm]

theorem result_compile_eq_error_iff {descriptors : List String} {error : CompileError} :
    (compile descriptors).result = .error error ↔
      invalid descriptors ≠ [] ∧ error = .invalidDescriptors (invalid descriptors) := by
  rw [compile_eq_verdict, Tally.foldl_enter, Tally.verdict]
  by_cases nothing : invalid descriptors = [] <;> simp [Tally.empty, nothing, eq_comm]

/-! ## Sets in step with their descriptors -/

theorem invalid_eq_nil_iff {descriptors : List String} :
    invalid descriptors = [] ↔
      ∀ descriptor ∈ descriptors, ∃ template, Template.parse? descriptor = some template := by
  simp [invalid, List.filter_eq_nil_iff, Option.ne_none_iff_exists']

theorem invalid_append (first second : List String) :
    invalid (first ++ second) = invalid first ++ invalid second :=
  List.filter_append first second

/-- Descriptors that can all be read are in step with what is read. -/
theorem forall₂_filterMap_parse? {descriptors : List String}
    (readable : ∀ descriptor ∈ descriptors, ∃ template,
      Template.parse? descriptor = some template) :
    List.Forall₂ (fun descriptor template => Template.parse? descriptor = some template)
      descriptors (descriptors.filterMap Template.parse?) := by
  induction descriptors with
  | nil => exact .nil
  | cons descriptor rest inductionHypothesis =>
    rw [List.forall_mem_cons] at readable
    obtain ⟨template, read⟩ := readable.1
    rw [List.filterMap_cons_some read]
    exact .cons read (inductionHypothesis readable.2)

theorem elementCount_eq (set : TemplateSet) :
    set.elementCount = (set.templates.flatMap Template.elements).length := by
  unfold elementCount
  induction set.templates with
  | nil => rfl
  | cons template rest inductionHypothesis =>
    rw [List.foldr_cons, List.flatMap_cons, List.length_append, inductionHypothesis]

/-- A set has the template of each descriptor and its requirements at the place of the descriptor,
and combines what its templates require. -/
structure Aligned (set : TemplateSet) (descriptors : List String) : Prop where
  templates : List.Forall₂
    (fun descriptor template => Template.parse? descriptor = some template)
    descriptors set.templates
  requirements : ∀ place : Nat,
    set.requirements[place]? = set.templates[place]?.map Template.requirements
  combined : ∀ requirement : Requirement, requirement ∈ set.combinedRequirements ↔
    ∃ template ∈ set.templates, requirement ∈ template.requirements

theorem aligned_of_compile {descriptors : List String} {set : TemplateSet}
    (compiled : (compile descriptors).result = .ok set) : set.Aligned descriptors := by
  obtain ⟨readable, rfl⟩ := result_compile_eq_ok_iff.mp compiled
  exact {
    templates := forall₂_filterMap_parse? (invalid_eq_nil_iff.mp readable)
    requirements := fun _ => List.getElem?_map
    combined := fun _ => mem_combinedRequirements_ofTemplates }

/-! ## Sets put together -/

/-- A set goes through the templates of one set and then of another. -/
structure Joins (set first second : TemplateSet) : Prop where
  templates : set.templates = first.templates ++ second.templates
  requirements : set.requirements = first.requirements ++ second.requirements
  combined : set.combinedRequirements =
    first.combinedRequirements.union second.combinedRequirements

theorem joins_ofTemplates_iff {set : TemplateSet} {first second : List Template} :
    set.Joins (ofTemplates first) (ofTemplates second) ↔ set = ofTemplates (first ++ second) := by
  constructor
  · intro joins
    obtain ⟨templates, requirements⟩ := set
    have sameTemplates : templates = first ++ second := joins.templates
    have sameRequirements : requirements = (first ++ second).map Template.requirements :=
      joins.requirements.trans List.map_append.symm
    rw [sameTemplates, sameRequirements, ofTemplates]
  · rintro rfl
    refine ⟨rfl, List.map_append, Requirements.ext fun requirement => ?_⟩
    simp only [Requirements.mem_union, mem_combinedRequirements_ofTemplates, List.mem_append,
      or_and_right, exists_or]

/-- Two lists of descriptors, one after the other, compile if and only if both do. -/
theorem result_compile_append_eq_ok_iff {first second : List String} {set : TemplateSet} :
    (compile (first ++ second)).result = .ok set ↔
      ∃ firstSet secondSet, (compile first).result = .ok firstSet ∧
        (compile second).result = .ok secondSet ∧ set.Joins firstSet secondSet := by
  simp only [result_compile_eq_ok_iff, invalid_append, List.append_eq_nil_iff,
    List.filterMap_append]
  constructor
  · rintro ⟨⟨firstReadable, secondReadable⟩, rfl⟩
    exact ⟨_, _, ⟨firstReadable, rfl⟩, ⟨secondReadable, rfl⟩, joins_ofTemplates_iff.mpr rfl⟩
  · rintro ⟨_, _, ⟨firstReadable, rfl⟩, ⟨secondReadable, rfl⟩, joins⟩
    exact ⟨⟨firstReadable, secondReadable⟩, joins_ofTemplates_iff.mp joins⟩

/-- A compilation fails if and only if some descriptor cannot be read, and then lists all of these
in order, each as often as it is given.  Otherwise it gives a set that is in step with the
descriptors.  Two lists, one after the other, compile to what they compile to by themselves, or the
descriptors that cannot be read in the first list are listed before those in the second.  Each
compilation reports one event, with the number of refused descriptors or the numbers of templates
and of elements. -/
theorem compile_all_or_nothing (descriptors : List String) :
    ((∃ error, (compile descriptors).result = .error error) ↔
      ∃ descriptor ∈ descriptors, Template.parse? descriptor = none) ∧
    (∀ error, (compile descriptors).result = .error error →
      ∃ refused, refused = descriptors.filter (fun text => (Template.parse? text).isNone) ∧
        error = .invalidDescriptors refused ∧
        (compile descriptors).events = [.rejected refused] ∧
        ∀ printable,
          ((Event.rejected refused).fields printable).lookup "count" =
            some (toString refused.length)) ∧
    (∀ set, (compile descriptors).result = .ok set →
      set.Aligned descriptors ∧
        (compile descriptors).events =
          [.compiled set.templates.length (set.templates.flatMap Template.elements).length]) ∧
    ∀ later,
      (∀ set, (compile (descriptors ++ later)).result = .ok set ↔
        ∃ first second, (compile descriptors).result = .ok first ∧
          (compile later).result = .ok second ∧ set.Joins first second) ∧
      ((∃ error, (compile (descriptors ++ later)).result = .error error) →
        (compile (descriptors ++ later)).result = .error (.invalidDescriptors
          (descriptors.filter (fun text => (Template.parse? text).isNone) ++
            later.filter fun text => (Template.parse? text).isNone))) := by
  refine ⟨?_, ?_, ?_, fun later => ⟨fun set => result_compile_append_eq_ok_iff, ?_⟩⟩
  · simp only [result_compile_eq_error_iff, exists_and_left, exists_eq, and_true, ne_eq,
      List.eq_nil_iff_forall_not_mem, not_forall, not_not, mem_invalid_iff]
  · intro error failed
    obtain ⟨something, rfl⟩ := result_compile_eq_error_iff.mp failed
    refine ⟨invalid descriptors, rfl, rfl, ?_, fun _ => rfl⟩
    rw [compile_eq_verdict, Tally.foldl_enter, Tally.verdict]
    simp [Tally.empty, something]
  · intro set compiled
    refine ⟨aligned_of_compile compiled, ?_⟩
    obtain ⟨nothing, rfl⟩ := result_compile_eq_ok_iff.mp compiled
    rw [← elementCount_eq, compile_eq_verdict, Tally.foldl_enter, Tally.verdict]
    simp [Tally.empty, nothing, ofTemplates]
  · rintro ⟨error, failed⟩
    obtain ⟨_, rfl⟩ := result_compile_eq_error_iff.mp failed
    rw [failed, invalid_append]
    rfl

example : (compile ["s0w", "s9z", "", "b0t", "a"]).result =
    .error (.invalidDescriptors ["s9z", "", "a"]) := by
  decide

end TemplateSet

end TransitionFeatures
