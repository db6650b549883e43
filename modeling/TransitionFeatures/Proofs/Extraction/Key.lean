import TransitionFeatures.Proofs.Evaluation.Slots
import TransitionFeatures.Proofs.Extraction.Report
import TransitionFeatures.Proofs.Template.Grammar

/-!
# Keys

A classifier knows a feature by its key, in which the values are joined by bars and nothing is
escaped.  Free texts may have bars in them; counts, gap values and indicators have none.  The name
of a feature is a descriptor and has no equality sign, so the key tells it; the template of that
name fixes the slots of the values.  If all values but one are free of bars, the key can be split
again, from the front and from the back of the one that may have some.

`Feature.keys_do_not_collide` states how far a key determines its feature.
-/

namespace TransitionFeatures

open MonadAttach (CanReturn)

/-! ## Free texts -/

/-- Whether a property reads a text as the graph or the actions have it. -/
def Property.isFreeText : Property → Bool
  | .text | .partOfSpeech | .edgeTag | .separator => true
  | _ => false

/-- Whether a slot takes a free text. -/
def Slot.isFreeText : Slot → Bool
  | .reading _ property => property.isFreeText
  | .indicator _ _ => false

/-- How many free texts a template reads. -/
def Template.freeTexts (template : Template) : Nat :=
  (template.elements.flatMap Element.properties).countP Property.isFreeText

theorem Element.countP_isFreeText_slots (previous : Option Element) (elements : List Element) :
    (slots previous elements).countP Slot.isFreeText =
      (elements.flatMap Element.properties).countP Property.isFreeText := by
  induction elements generalizing previous with
  | nil => rfl
  | cons element rest inductionHypothesis =>
    have seam : (Slot.between previous element).countP Slot.isFreeText = 0 := by
      unfold Slot.between
      split
      · rfl
      · split <;> rfl
    rw [slots, List.countP_append, List.countP_append, seam, inductionHypothesis, List.countP_map,
      List.flatMap_cons, List.countP_append, Nat.zero_add]
    rfl

theorem Template.countP_isFreeText_slots (template : Template) :
    template.slots.countP Slot.isFreeText = template.freeTexts :=
  Element.countP_isFreeText_slots none template.elements

theorem bar_not_mem_toString (count : Nat) : '|' ∉ (toString count).toList := by
  rw [Nat.toString_eq_repr, Nat.toList_repr]
  intro member
  have digit := Nat.isDigit_of_mem_toDigits (by decide) (by decide) member
  cases digit

theorem GapType.bar_not_mem_code (gapType : GapType) : '|' ∉ gapType.code.toList := by
  cases gapType <;> decide

section Returns

variable {m : Type → Type} [Monad m] [LawfulMonad m] [MonadAttach m] [LawfulMonadAttach m]
  [DerivedData m] {state : State}

theorem Property.bar_not_mem_of_atNode {property : Property} (plain : property.isFreeText = false)
    {id : NodeId} {value : String}
    (returned : CanReturn (property.atNode state id : ExceptT Fault m (Option String))
      (some value)) : '|' ∉ value.toList := by
  rcases LawfulMonadAttach.canReturn_bind_imp' returned with ⟨node, _, valued⟩
  cases property with
  | text | partOfSpeech | edgeTag | separator => cases plain
  | separatorCount =>
    rcases LawfulMonadAttach.canReturn_bind_imp' valued with ⟨separators?, _, together⟩
    have counted := LawfulMonadAttach.eq_of_canReturn_pure together
    rcases Option.map_eq_some_iff.mp counted with ⟨separators, _, rfl⟩
    exact bar_not_mem_toString separators.length
  | gapType =>
    rcases LawfulMonadAttach.canReturn_bind_imp' valued with ⟨gapType, _, together⟩
    cases LawfulMonadAttach.eq_of_canReturn_pure together
    exact gapType.bar_not_mem_code
  | parentCount | childCount =>
    cases LawfulMonadAttach.eq_of_canReturn_pure valued
    exact bar_not_mem_toString _
  | gapLengthSum | implicitCount | remoteCount =>
    rcases LawfulMonadAttach.canReturn_bind_imp' valued with ⟨_, _, together⟩
    cases LawfulMonadAttach.eq_of_canReturn_pure together
    exact bar_not_mem_toString _

/-- Whatever is read that is no free text has no bar in it. -/
theorem Property.bar_not_mem_of_returns {property : Property}
    (plain : property.isFreeText = false) {focus : Focus} {value : String}
    (returned : property.Returns m state focus value) : '|' ∉ value.toList := by
  rcases LawfulMonadAttach.canReturn_bind_imp' returned with ⟨value?, asked, passed⟩
  cases value? with
  | none => cases LawfulMonadAttach.eq_of_canReturn_pure passed
  | some found =>
    cases LawfulMonadAttach.eq_of_canReturn_pure passed
    cases focus with
    | node id => exact bar_not_mem_of_atNode plain (canReturn_of_adapt asked)
    | action action =>
      have answered := eq_ok_of_canReturn_liftM asked
      cases property with
      | text | edgeTag => cases plain
      | _ => cases answered

theorem Slot.Holds.bar_not_mem {slot : Slot} {value : String}
    (holds : slot.Holds state (Property.Returns m state) value)
    (plain : slot.isFreeText = false) : '|' ∉ value.toList := by
  cases holds with
  | reading _ returned => exact Property.bar_not_mem_of_returns plain returned
  | indicator seam => cases seam <;> decide

end Returns

/-- Values for some slots, of which those for slots that are not open have no bar in them. -/
def Slot.BarsOnlyIn (isOpen : Slot → Bool) (slots : List Slot) (values : List String) : Prop :=
  List.Forall₂ (fun slot value => isOpen slot = false → '|' ∉ value.toList) slots values

/-! ## Features and their templates -/

/-- What an extractor gives on a state, in a plain run or in one with a report. -/
def Feature.Extracted (feature : Feature) : Prop :=
  ∃ options extractor state, (Extractor.ofOptions options).result = .ok extractor ∧
    ((∃ features, (extractor.extract state).result = .ok features ∧ feature ∈ features) ∨
      ∃ report, (extractor.report state).result = .ok report ∧ feature ∈ report.features)

section Returns

variable {m : Type → Type} [Monad m] [LawfulMonad m] [MonadAttach m] [LawfulMonadAttach m]
  [DerivedData m] {state : State}

/-- Whatever a run finds is what the template of that number returned. -/
theorem exists_template_of_canReturn {id : TemplateId} {templates : List Template}
    {logged : Logged (Except EvalError (List Found))} {found : List Found}
    (returned : CanReturn (runTemplates state id templates : m _) logged)
    (ended : logged.result = .ok found) {one : Found} (member : one ∈ found) :
    ∃ template, (template, one.template) ∈ templates.zipIdx id ∧
      CanReturn (template.read state : ExceptT Halt m (List String)) one.values := by
  induction templates generalizing id logged found with
  | nil =>
    cases LawfulMonadAttach.eq_of_canReturn_pure returned
    cases ended
    cases member
  | cons template rest inductionHypothesis =>
    rw [runTemplates] at returned
    rcases LawfulMonadAttach.canReturn_bind_imp' returned with ⟨outcome, evaluated, after⟩
    cases outcome with
    | ok values =>
      rcases LawfulMonadAttach.canReturn_bind_imp' after with ⟨later, laterReturned, together⟩
      cases LawfulMonadAttach.eq_of_canReturn_pure together
      rcases map_eq_ok_iff.mp ended with ⟨others, laterEnded, rfl⟩
      rcases List.mem_cons.mp member with rfl | restMember
      · exact ⟨template, List.mem_cons_self, evaluated⟩
      · rcases inductionHypothesis laterReturned laterEnded restMember with ⟨origin, among, gives⟩
        exact ⟨origin, List.mem_cons_of_mem _ among, gives⟩
    | error halt =>
      cases halt with
      | skip reason =>
        rcases LawfulMonadAttach.canReturn_bind_imp' after with ⟨later, laterReturned, together⟩
        cases LawfulMonadAttach.eq_of_canReturn_pure together
        rcases inductionHypothesis laterReturned ended member with ⟨origin, among, gives⟩
        exact ⟨origin, List.mem_cons_of_mem _ among, gives⟩
      | error cause =>
        cases LawfulMonadAttach.eq_of_canReturn_pure after
        cases ended

theorem Template.barsOnlyIn_of_canReturn {template : Template} {values : List String}
    (returned : CanReturn (template.read state : ExceptT Halt m (List String)) values) :
    Slot.BarsOnlyIn Slot.isFreeText template.slots values :=
  (Template.fills_of_canReturn returned).holds.imp fun _ _ holds => holds.bar_not_mem

end Returns

namespace Extractor

variable {extractor : Extractor} {state : State}

/-- The values that a run finds are those of the template of that number. -/
theorem exists_template_of_mem_found {found : List Found}
    (ran : (extractor.run state).result = .ok found) {one : Found} (member : one ∈ found) :
    ∃ template, extractor.set.templates[one.template]? = some template ∧
      Slot.BarsOnlyIn Slot.isFreeText template.slots one.values := by
  rw [run] at ran
  split at ran
  · let run : StateM Memo _ := runTemplates state 0 extractor.set.templates
    have returned : CanReturn run (run.run .empty).1 := ⟨.empty, (run.run .empty).2, rfl⟩
    rcases exists_template_of_canReturn returned ran member with ⟨template, place, gives⟩
    exact ⟨template, List.mem_zipIdx_iff_getElem?.mp place,
      Template.barsOnlyIn_of_canReturn gives⟩
  · let run : Id _ := runTemplates state 0 extractor.set.templates
    have returned : CanReturn run (Id.run run) := rfl
    rcases exists_template_of_canReturn returned ran member with ⟨template, place, gives⟩
    exact ⟨template, List.mem_zipIdx_iff_getElem?.mp place,
      Template.barsOnlyIn_of_canReturn gives⟩

theorem exists_template_of_mem {features : List Feature}
    (extracted : (extractor.extract state).result = .ok features) {feature : Feature}
    (member : feature ∈ features) :
    ∃ template ∈ extractor.set.templates, template.name = feature.name ∧
      Slot.BarsOnlyIn Slot.isFreeText template.slots feature.values := by
  rcases bind_eq_ok_iff.mp extracted with ⟨found, ran, named⟩
  rcases (mem_iff_of_mapM_eq_ok (features_eq_ok_iff.mp named)).mp member with
    ⟨one, oneMember, made⟩
  rcases exists_template_of_mem_found ran oneMember with ⟨template, place, bars⟩
  rw [feature_eq_ok place] at made
  cases made
  exact ⟨template, List.mem_of_getElem? place, rfl, bars⟩

end Extractor

/-- The name of a feature tells its template, and only the free texts that it reads may have bars
in them. -/
theorem Feature.Extracted.exists_template {feature : Feature} (extracted : feature.Extracted) :
    ∃ template, Template.parse? feature.name = some template ∧
      Slot.BarsOnlyIn Slot.isFreeText template.slots feature.values := by
  rcases extracted with ⟨options, extractor, state, made, given⟩
  have inPlainRun : ∃ features, (extractor.extract state).result = .ok features ∧
      feature ∈ features := by
    rcases given with plain | ⟨report, reported, member⟩
    · exact plain
    · refine ⟨report.features, ?_, member⟩
      rw [← (extractor.plain_report state).1, reported]
      rfl
  rcases inPlainRun with ⟨features, ended, member⟩
  rcases Extractor.exists_template_of_mem ended member with ⟨template, among, name, bars⟩
  rcases map_eq_ok_iff.mp made with ⟨set, compiled, rfl⟩
  rw [(TemplateSet.result_compile_eq_ok_iff.mp compiled).2] at among
  rcases List.mem_filterMap.mp among with ⟨descriptor, _, read⟩
  have sameName := (Template.parse?_eq_some_iff.mp read).1
  rw [← name, sameName]
  exact ⟨template, read, bars⟩

/-! ## Joined values -/

/-- The parts of a text between its bars. -/
def barred (text : String) : List (List Char) :=
  text.toList.splitOn '|'

theorem barred_inj {text other : String} : barred text = barred other ↔ text = other := by
  constructor
  · intro equal
    have joined := congrArg (List.intercalate ['|']) equal
    rw [barred, barred, List.intercalate_splitOn, List.intercalate_splitOn] at joined
    exact String.toList_inj.mp joined
  · rintro rfl
    rfl

theorem barred_of_not_mem {text : String} (plain : '|' ∉ text.toList) :
    barred text = [text.toList] :=
  List.splitOn_eq_singleton plain

/-- Joined values fall into the parts of the single ones. -/
theorem barred_intercalate {values : List String} (nonempty : values ≠ []) :
    barred ("|".intercalate values) = values.flatMap barred := by
  induction values with
  | nil => exact absurd rfl nonempty
  | cons value rest inductionHypothesis =>
    cases rest with
    | nil => simp [String.intercalate_singleton]
    | cons next later =>
      have bar : "|".toList = ['|'] := rfl
      rw [List.flatMap_cons, ← inductionHypothesis (List.cons_ne_nil next later),
        String.intercalate_cons_cons]
      simp only [barred, String.toList_append, bar, List.append_assoc, List.singleton_append,
        List.splitOn_append_cons_self]

namespace Slot.BarsOnlyIn

variable {isOpen : Slot → Bool} {slots : List Slot} {values others : List String}

theorem flatMap_barred (bars : BarsOnlyIn isOpen slots values) (closed : slots.countP isOpen = 0) :
    values.flatMap barred = values.map String.toList := by
  induction bars with
  | nil => rfl
  | @cons slot value slots values plain _ inductionHypothesis =>
    rw [List.countP_eq_zero, List.forall_mem_cons, ← List.countP_eq_zero] at closed
    rw [List.flatMap_cons, List.map_cons, inductionHypothesis closed.2,
      barred_of_not_mem (plain (by simpa using closed.1)), List.singleton_append]

/-- With at most one open slot the parts are told apart: those before the open slot from the front,
those behind it from the back, and what is left belongs to it. -/
theorem eq_of_flatMap_barred_eq (bars : BarsOnlyIn isOpen slots values)
    (otherBars : BarsOnlyIn isOpen slots others) (single : slots.countP isOpen ≤ 1)
    (equal : values.flatMap barred = others.flatMap barred) : values = others := by
  induction slots generalizing values others with
  | nil =>
    cases bars
    cases otherBars
    rfl
  | cons slot rest inductionHypothesis =>
    rcases bars with _ | ⟨plain, restBars⟩
    rcases otherBars with _ | ⟨otherPlain, otherRestBars⟩
    rw [List.flatMap_cons, List.flatMap_cons] at equal
    cases opened : isOpen slot with
    | false =>
      rw [List.countP_cons_of_neg (by simp [opened])] at single
      rw [barred_of_not_mem (plain opened), barred_of_not_mem (otherPlain opened)] at equal
      rcases List.cons.inj equal with ⟨first, later⟩
      rw [String.toList_inj.mp first, inductionHypothesis restBars otherRestBars single later]
    | true =>
      rw [List.countP_cons_of_pos opened] at single
      -- What is behind the open slot has one part for each value and is cut off from the back.
      have closed : rest.countP isOpen = 0 := by omega
      rw [flatMap_barred restBars closed, flatMap_barred otherRestBars closed] at equal
      have sameLength := restBars.length_eq.symm.trans otherRestBars.length_eq
      rcases List.append_inj' equal (by simpa using sameLength) with ⟨first, later⟩
      have toListInjective : Function.Injective String.toList := fun _ _ => String.toList_inj.mp
      rw [barred_inj.mp first, List.map_injective_iff.mpr toListInjective later]

theorem eq_of_intercalate_eq (bars : BarsOnlyIn isOpen slots values)
    (otherBars : BarsOnlyIn isOpen slots others) (single : slots.countP isOpen ≤ 1)
    (equal : "|".intercalate values = "|".intercalate others) : values = others := by
  cases slots with
  | nil =>
    cases bars
    cases otherBars
    rfl
  | cons slot rest =>
    have nonempty : values ≠ [] ∧ others ≠ [] := by
      cases bars
      cases otherBars
      exact ⟨List.cons_ne_nil _ _, List.cons_ne_nil _ _⟩
    apply eq_of_flatMap_barred_eq bars otherBars single
    rw [← barred_intercalate nonempty.1, ← barred_intercalate nonempty.2, equal]

/-- Values without bars leave no slot open. -/
theorem of_plain (bars : BarsOnlyIn isOpen slots values)
    (plain : ∀ value ∈ values, '|' ∉ value.toList) :
    BarsOnlyIn (fun _ => false) slots values := by
  induction bars with
  | nil => exact .nil
  | cons _ _ inductionHypothesis =>
    rw [List.forall_mem_cons] at plain
    exact .cons (fun _ => plain.1) (inductionHypothesis plain.2)

end Slot.BarsOnlyIn

/-! ## Keys -/

namespace Feature

theorem key_toList (feature : Feature) :
    feature.key.toList = feature.name.toList ++ '=' :: ("|".intercalate feature.values).toList := by
  have sign : "=".toList = ['='] := rfl
  rw [key, String.toList_append, String.toList_append, sign, List.append_assoc,
    List.singleton_append]

theorem key_eq_iff {first second : Feature} (firstName : '=' ∉ first.name.toList)
    (secondName : '=' ∉ second.name.toList) :
    first.key = second.key ↔ first.name = second.name ∧
      "|".intercalate first.values = "|".intercalate second.values := by
  constructor
  · intro equal
    have split := congrArg (fun text => text.toList.splitOn '=') equal
    simp only [key_toList, List.splitOn_append_cons_self_of_not_mem firstName,
      List.splitOn_append_cons_self_of_not_mem secondName, List.cons.injEq] at split
    have sameName := String.toList_inj.mp split.1
    have joined := congrArg String.toList equal
    rw [key_toList, key_toList, sameName, List.append_cancel_left_eq, List.cons.injEq] at joined
    exact ⟨sameName, String.toList_inj.mp joined.2⟩
  · rintro ⟨sameName, sameValues⟩
    rw [key, key, sameName, sameValues]

theorem Extracted.sign_not_mem_name {feature : Feature} (extracted : feature.Extracted) :
    '=' ∉ feature.name.toList := by
  intro member
  rcases extracted.exists_template with ⟨template, read, _⟩
  rw [Template.parse?_eq_none_of_mem member (by decide) (by decide)] at read
  cases read

/-- The keys of two features that extractors give differ if the names do.  The name tells the
template, and if its values have no bars in them or it reads at most one free text, features of
that name with the same key have the same values. -/
theorem keys_do_not_collide {first second : Feature} (firstExtracted : first.Extracted)
    (secondExtracted : second.Extracted) :
    (first.name ≠ second.name → first.key ≠ second.key) ∧
      ∃ template, Template.parse? first.name = some template ∧
        (first.name = second.name →
          (∀ value ∈ first.values ++ second.values, '|' ∉ value.toList) ∨
              template.freeTexts ≤ 1 →
            first.key = second.key → first.values = second.values) := by
  have keyIff := key_eq_iff firstExtracted.sign_not_mem_name secondExtracted.sign_not_mem_name
  refine ⟨fun names keys => names (keyIff.mp keys).1, ?_⟩
  rcases firstExtracted.exists_template with ⟨template, read, firstBars⟩
  refine ⟨template, read, fun sameName condition keys => ?_⟩
  rcases secondExtracted.exists_template with ⟨other, otherRead, secondBars⟩
  rw [← sameName, read] at otherRead
  cases otherRead
  have joined := (keyIff.mp keys).2
  rcases condition with plain | single
  · rw [List.forall_mem_append] at plain
    have noneOpen : template.slots.countP (fun _ => false) ≤ 1 := by simp
    exact (firstBars.of_plain plain.1).eq_of_intercalate_eq (secondBars.of_plain plain.2) noneOpen
      joined
  · rw [← template.countP_isFreeText_slots] at single
    exact firstBars.eq_of_intercalate_eq secondBars single joined

/-- Two free texts with bars in them can be taken for two others. -/
example : key { name := "s0wt", values := ["a|b", "c"] } =
    key { name := "s0wt", values := ["a", "b|c"] } := by
  decide

end Feature

/-- A single word, on the stack. -/
def loneWord (text : String) : State where
  graph :=
    { nodes := #[{ content := .token ⟨text, "SYM", false, 0⟩, outgoing := [], incoming := [] }]
      edges := #[]
      terminals := #[0] }
  stack := [0]
  buffer := []
  actions := []

/-- A word that looks like two values does not pass for them. -/
theorem Feature.keys_do_not_collide_loneWord :
    let first : Feature := { name := "s0wC", values := ["a|0", "0"] }
    let second : Feature := { name := "s0wC", values := ["a", "0"] }
    let third : Feature := { name := "s0Cw", values := ["0", "a|0"] }
    first.Extracted ∧ second.Extracted ∧ third.Extracted ∧
      first.key ≠ second.key ∧ first.key ≠ third.key := by
  intro first second third
  let extractor : Extractor :=
    { set := .ofTemplates (["s0wC", "s0Cw"].filterMap Template.parse?), memoize := false }
  have made : (Extractor.ofOptions { descriptors := ["s0wC", "s0Cw"], memoize := false }).result =
      .ok extractor :=
    Extractor.result_ofOptions (by decide +kernel)
  have run : ∀ text ∈ ["a|0", "a"], (extractor.extract (loneWord text)).result =
      .ok [⟨"s0wC", [text, "0"]⟩, ⟨"s0Cw", ["0", text]⟩] := by
    decide +kernel
  have firstExtracted : first.Extracted :=
    ⟨_, extractor, loneWord "a|0", made, Or.inl ⟨_, run "a|0" (by decide), by decide⟩⟩
  have secondExtracted : second.Extracted :=
    ⟨_, extractor, loneWord "a", made, Or.inl ⟨_, run "a" (by decide), by decide⟩⟩
  have thirdExtracted : third.Extracted :=
    ⟨_, extractor, loneWord "a|0", made, Or.inl ⟨_, run "a|0" (by decide), by decide⟩⟩
  refine ⟨firstExtracted, secondExtracted, thirdExtracted, ?_,
    (keys_do_not_collide firstExtracted thirdExtracted).1 (by decide)⟩
  intro keys
  have described : Template.parse? first.name =
      some { name := "s0wC", elements := [⟨.stack, 0, [], [.text, .childCount]⟩] } := by
    decide +kernel
  obtain ⟨template, read, determined⟩ := (keys_do_not_collide firstExtracted secondExtracted).2
  cases described.symm.trans read
  have values := determined rfl (Or.inr (by decide)) keys
  exact absurd values (by decide)

end TransitionFeatures
