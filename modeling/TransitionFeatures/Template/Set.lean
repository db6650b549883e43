import TransitionFeatures.Event
import TransitionFeatures.Template.Descriptor
import TransitionFeatures.Template.Requirements

/-!
# Template sets

Descriptors are compiled all together: a set has one template for every
descriptor, or it is refused with all the descriptors that cannot be read.  Each
compilation reports exactly one event.
-/

namespace TransitionFeatures

/-- Why a template set is refused. -/
inductive CompileError
  | invalidDescriptors (descriptors : List String)
  deriving DecidableEq

/-- The text of a compile error. -/
def CompileError.message : CompileError → String
  | invalidDescriptors descriptors =>
    "Features do not match pattern: " ++ ", ".intercalate descriptors

/-- Templates in the order of their descriptors, with the requirements of each at
the same place. -/
structure TemplateSet where
  templates : List Template
  requirements : List Requirements
  deriving DecidableEq

/-- The place of a template in its set. -/
abbrev TemplateId := Nat

namespace TemplateSet

/-- Look a template up. -/
def template (set : TemplateSet) (id : TemplateId) : Except Fault Template :=
  match set.templates[id]? with
  | some template => .ok template
  | none => .error (.unknownTemplate id)

theorem template_eq_ok_iff {set : TemplateSet} {id : TemplateId} {found : Template} :
    set.template id = .ok found ↔ set.templates[id]? = some found := by
  unfold template
  split <;> simp_all

/-- The descriptors that cannot be read, in order and with repetitions. -/
def invalid (descriptors : List String) : List String :=
  descriptors.filter fun descriptor => (Template.parse? descriptor).isNone

theorem mem_invalid_iff {descriptor : String} {descriptors : List String} :
    descriptor ∈ invalid descriptors ↔
      descriptor ∈ descriptors ∧ Template.parse? descriptor = none := by
  simp [invalid]

/-- The set of some templates. -/
def ofTemplates (templates : List Template) : TemplateSet :=
  { templates, requirements := templates.map Template.requirements }

/-- The number of elements in all templates. -/
def elementCount (set : TemplateSet) : Nat :=
  set.templates.foldr (fun template count => template.elements.length + count) 0

/-- Read all descriptors, or refuse them because of those that cannot be read. -/
def compile (descriptors : List String) : Logged (Except CompileError TemplateSet) :=
  match invalid descriptors with
  | [] =>
    let set := ofTemplates (descriptors.filterMap Template.parse?)
    { result := .ok set
      events := [.compiled set.templates.length set.elementCount] }
  | rejected =>
    { result := .error (.invalidDescriptors rejected)
      events := [.rejected rejected] }

/-- What any template of the set reads. -/
def combinedRequirements (set : TemplateSet) : Requirements :=
  .unions set.requirements

@[simp]
theorem mem_combinedRequirements_ofTemplates {templates : List Template}
    {requirement : Requirement} :
    requirement ∈ (ofTemplates templates).combinedRequirements ↔
      ∃ template ∈ templates, requirement ∈ template.requirements := by
  simp only [combinedRequirements, ofTemplates, Requirements.mem_unions, List.mem_map]
  constructor
  · rintro ⟨_, ⟨template, member, rfl⟩, required⟩
    exact ⟨template, member, required⟩
  · rintro ⟨template, member, required⟩
    exact ⟨_, ⟨template, member, rfl⟩, required⟩

end TemplateSet

end TransitionFeatures
