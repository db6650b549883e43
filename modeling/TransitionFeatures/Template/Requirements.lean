import TransitionFeatures.Template.Core

/-!
# Requirements

The parts of a parser state and the derived data that a template may read.  A
set of requirements is a mask with one bit for each of them; `mem_union`,
`mem_ofList` and `ext` let it be used as a set.
-/

namespace TransitionFeatures

/-- Something that a template may read. -/
inductive Requirement
  | stack
  | buffer
  | actions
  | head
  | gaps
  | separator
  | indicator
  deriving DecidableEq

namespace Requirement

/-- The bit of a requirement in a mask. -/
def bit : Requirement → Nat
  | stack => 0
  | buffer => 1
  | actions => 2
  | head => 3
  | gaps => 4
  | separator => 5
  | indicator => 6

/-- The name of a requirement in reports. -/
def name : Requirement → String
  | stack => "STACK"
  | buffer => "BUFFER"
  | actions => "ACTIONS"
  | head => "HEAD"
  | gaps => "GAPS"
  | separator => "SEPARATOR"
  | indicator => "INDICATOR"

/-- All requirements in the order of their bits. -/
def all : List Requirement :=
  [stack, buffer, actions, head, gaps, separator, indicator]

theorem mem_all (requirement : Requirement) : requirement ∈ all := by
  cases requirement <;> decide

theorem bit_lt (requirement : Requirement) : requirement.bit < 7 := by
  cases requirement <;> decide

theorem bit_inj {first second : Requirement} :
    first.bit = second.bit ↔ first = second := by
  cases first <;> cases second <;> decide

theorem exists_bit_eq {place : Nat} (bound : place < 7) :
    ∃ requirement : Requirement, requirement.bit = place := by
  match place, bound with
  | 0, _ => exact ⟨stack, rfl⟩
  | 1, _ => exact ⟨buffer, rfl⟩
  | 2, _ => exact ⟨actions, rfl⟩
  | 3, _ => exact ⟨head, rfl⟩
  | 4, _ => exact ⟨gaps, rfl⟩
  | 5, _ => exact ⟨separator, rfl⟩
  | 6, _ => exact ⟨indicator, rfl⟩

end Requirement

/-- A set of requirements, one bit for each. -/
structure Requirements where
  mask : BitVec 7
  deriving DecidableEq

namespace Requirements

instance : Membership Requirement Requirements where
  mem set requirement := set.mask.getLsbD requirement.bit = true

instance (requirement : Requirement) (set : Requirements) :
    Decidable (requirement ∈ set) :=
  inferInstanceAs (Decidable (set.mask.getLsbD requirement.bit = true))

theorem mem_iff {requirement : Requirement} {set : Requirements} :
    requirement ∈ set ↔ set.mask.getLsbD requirement.bit = true :=
  Iff.rfl

/-- Sets with the same members are equal. -/
theorem ext {first second : Requirements}
    (same : ∀ requirement : Requirement, requirement ∈ first ↔ requirement ∈ second) :
    first = second := by
  cases first with
  | mk firstMask =>
    cases second with
    | mk secondMask =>
      refine congrArg Requirements.mk (BitVec.eq_of_getLsbD_eq fun place bound => ?_)
      obtain ⟨requirement, rfl⟩ := Requirement.exists_bit_eq bound
      exact Bool.eq_iff_iff.mpr (same requirement)

/-- The set without members. -/
def none : Requirements :=
  { mask := 0 }

@[simp]
theorem not_mem_none (requirement : Requirement) : requirement ∉ none := by
  simp [mem_iff, none]

/-- The set of one requirement. -/
def only (requirement : Requirement) : Requirements :=
  { mask := BitVec.twoPow 7 requirement.bit }

@[simp]
theorem mem_only {requirement other : Requirement} :
    other ∈ only requirement ↔ other = requirement := by
  cases requirement <;> cases other <;> decide

/-- The members of either set. -/
def union (first second : Requirements) : Requirements :=
  { mask := first.mask ||| second.mask }

@[simp]
theorem mem_union {requirement : Requirement} {first second : Requirements} :
    requirement ∈ first.union second ↔ requirement ∈ first ∨ requirement ∈ second := by
  simp [mem_iff, union]

/-- The set of the listed requirements. -/
def ofList (requirements : List Requirement) : Requirements :=
  requirements.foldr (fun requirement set => (only requirement).union set) none

@[simp]
theorem mem_ofList {requirement : Requirement} {requirements : List Requirement} :
    requirement ∈ ofList requirements ↔ requirement ∈ requirements := by
  induction requirements with
  | nil => simp [ofList]
  | cons first rest inductionHypothesis =>
    simp only [ofList, List.foldr_cons, mem_union, mem_only, List.mem_cons] at *
    rw [inductionHypothesis]

/-- The union of the listed sets. -/
def unions (sets : List Requirements) : Requirements :=
  sets.foldr union none

@[simp]
theorem mem_unions {requirement : Requirement} {sets : List Requirements} :
    requirement ∈ unions sets ↔ ∃ set ∈ sets, requirement ∈ set := by
  induction sets with
  | nil => simp [unions]
  | cons first rest inductionHypothesis =>
    simp only [unions, List.foldr_cons, mem_union] at *
    rw [inductionHypothesis]
    simp

/-- Whether two sets have a member in common. -/
def meets (first second : Requirements) : Bool :=
  first.mask &&& second.mask != 0

theorem meets_iff {first second : Requirements} :
    first.meets second = true ↔
      ∃ requirement : Requirement, requirement ∈ first ∧ requirement ∈ second := by
  simp only [meets, bne_iff_ne, ne_eq]
  constructor
  · intro nonzero
    refine Classical.byContradiction fun disjoint => nonzero ?_
    refine BitVec.eq_of_getLsbD_eq fun place bound => ?_
    obtain ⟨requirement, rfl⟩ := Requirement.exists_bit_eq bound
    have apart := not_and.mp (not_exists.mp disjoint requirement)
    rw [mem_iff, mem_iff] at apart
    simpa using apart
  · rintro ⟨requirement, left, right⟩ zero
    have bit := congrArg (fun mask => mask.getLsbD requirement.bit) zero
    rw [mem_iff] at left right
    simp [left, right] at bit

/-- The members in the order of their bits. -/
def toList (set : Requirements) : List Requirement :=
  Requirement.all.filter fun requirement => decide (requirement ∈ set)

@[simp]
theorem mem_toList {requirement : Requirement} {set : Requirements} :
    requirement ∈ set.toList ↔ requirement ∈ set := by
  simp [toList, Requirement.mem_all]

/-- The mask as a number. -/
def toNat (set : Requirements) : Nat :=
  set.mask.toNat

end Requirements

/-- What a source reads. -/
def Source.requirement : Source → Requirement
  | stack => .stack
  | buffer => .buffer
  | actions => .actions

/-- What a property reads at a node.  The two separator properties look at the
heads of the stack tops wherever the node comes from. -/
def Property.required : Property → List Requirement
  | text | partOfSpeech => [.head]
  | separator | separatorCount => [.separator, .head, .stack]
  | gapType | gapLengthSum => [.gaps]
  | edgeTag | parentCount | childCount | implicitCount | remoteCount => []

/-- What an element reads.  The properties of an action are its own. -/
def Element.required (element : Element) : List Requirement :=
  element.source.requirement ::
    if element.isBare then [.indicator]
    else if element.source = .actions then []
    else element.properties.flatMap Property.required

/-- What the elements of a template read. -/
def Template.requirements (template : Template) : Requirements :=
  .ofList (template.elements.flatMap Element.required)

@[simp]
theorem Template.mem_requirements {requirement : Requirement} {template : Template} :
    requirement ∈ template.requirements ↔
      ∃ element ∈ template.elements, requirement ∈ element.required := by
  simp [requirements]

end TransitionFeatures
