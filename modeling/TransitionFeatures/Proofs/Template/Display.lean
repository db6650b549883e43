import TransitionFeatures.Proofs.Template.Grammar

/-!
# Descriptors and what is displayed

A template is displayed with every index in the fewest digits and is otherwise displayed as
it was written.  The letter that the separator shares with a navigation step looks the same
in both places, so only lists in which no property run begins with it can be displayed and
read again.  These are the lists that are ever read: `Template.display_inverts_parse?`.
-/

namespace TransitionFeatures

/-! ## Decimal digits -/

/-- Digits without the zeros in front of them; of a row of zeros the last one stays. -/
def dropLeadingZeros : List Char → List Char
  | '0' :: next :: rest => dropLeadingZeros (next :: rest)
  | digits => digits

theorem dropLeadingZeros_zero_cons (next : Char) (rest : List Char) :
    dropLeadingZeros ('0' :: next :: rest) = dropLeadingZeros (next :: rest) := by
  rw [dropLeadingZeros]

theorem dropLeadingZeros_of_not_padded {digits : List Char}
    (bare : ∀ next rest, digits ≠ '0' :: next :: rest) : dropLeadingZeros digits = digits := by
  unfold dropLeadingZeros
  split
  · exact absurd rfl (bare _ _)
  · rfl

theorem length_dropLeadingZeros_le (digits : List Char) :
    (dropLeadingZeros digits).length ≤ digits.length := by
  fun_induction dropLeadingZeros digits with
  | case1 next rest inductionHypothesis => exact inductionHypothesis.trans (Nat.le_succ _)
  | case2 digits _ => exact Nat.le_refl _

/-- Nothing is dropped if and only if no zero stands in front of another digit. -/
theorem dropLeadingZeros_eq_self_iff {digits : List Char} :
    dropLeadingZeros digits = digits ↔ ∀ next rest, digits ≠ '0' :: next :: rest := by
  constructor
  · rintro kept next rest rfl
    have shorter := length_dropLeadingZeros_le (next :: rest)
    rw [← dropLeadingZeros_zero_cons, kept] at shorter
    exact Nat.not_succ_le_self _ shorter
  · exact dropLeadingZeros_of_not_padded

theorem exists_digitChar_of_isDigit {letter : Char} (digit : letter.isDigit = true) :
    ∃ value, value < 10 ∧ Nat.digitChar value = letter := by
  have inRange : 48 ≤ letter.val.toNat ∧ letter.val.toNat ≤ 57 := by
    simpa [Char.isDigit, UInt32.le_iff_toNat_le] using digit
  have listed : ∀ value < 10, (Nat.digitChar value).val.toNat = 48 + value := by decide
  have small : letter.val.toNat - 48 < 10 := by omega
  have value := listed _ small
  exact ⟨_, small, Char.ext (UInt32.toNat_inj.mp (by omega))⟩

/-- Digits behind a number that is not zero are displayed as they were written. -/
theorem toDigits_ofDigitChars_of_pos {digits : List Char} {value : Nat}
    (decimals : ∀ letter ∈ digits, letter.isDigit = true) (positive : 0 < value) :
    Nat.toDigits 10 (Nat.ofDigitChars 10 digits value) = Nat.toDigits 10 value ++ digits := by
  induction digits generalizing value with
  | nil => rw [Nat.ofDigitChars_nil, List.append_nil]
  | cons letter rest inductionHypothesis =>
    rw [List.forall_mem_cons] at decimals
    rcases exists_digitChar_of_isDigit decimals.1 with ⟨last, small, rfl⟩
    rw [Nat.ofDigitChars_cons_digitChar_of_lt_ten small,
      inductionHypothesis decimals.2 (by omega),
      ← Nat.toDigits_append_toDigits (by decide) positive small,
      Nat.toDigits_of_lt_base small, List.append_assoc, List.singleton_append]

/-- The number that digits stand for is displayed without the zeros in front. -/
theorem toDigits_ofDigitChars {digits : List Char} (nonempty : digits ≠ [])
    (decimals : ∀ letter ∈ digits, letter.isDigit = true) :
    Nat.toDigits 10 (Nat.ofDigitChars 10 digits 0) = dropLeadingZeros digits := by
  induction digits with
  | nil => exact absurd rfl nonempty
  | cons letter rest inductionHypothesis =>
    rw [List.forall_mem_cons] at decimals
    rcases exists_digitChar_of_isDigit decimals.1 with ⟨value, small, rfl⟩
    rw [Nat.ofDigitChars_cons_digitChar_of_lt_ten small, Nat.mul_zero, Nat.zero_add]
    -- A zero in front adds nothing; behind any other digit nothing is dropped.
    by_cases zero : value = 0
    · subst zero
      cases rest with
      | nil => rfl
      | cons next later =>
        rw [inductionHypothesis nofun decimals.2]
        exact (dropLeadingZeros_zero_cons next later).symm
    · rw [toDigits_ofDigitChars_of_pos decimals.2 (Nat.pos_of_ne_zero zero),
        Nat.toDigits_of_lt_base small, List.singleton_append, dropLeadingZeros_of_not_padded]
      intro next later padded
      have onlyZero : ∀ value < 10, Nat.digitChar value = '0' → value = 0 := by decide
      exact zero (onlyZero value small (List.cons.inj padded).1)

/-! ## Padded indices -/

namespace Parts

/-- The index is written with a zero in front of another digit. -/
def Padded (parts : Parts) : Prop :=
  ∃ next rest, parts.digits = '0' :: next :: rest

/-- The parts without the zeros in front of the index. -/
def trim (parts : Parts) : Parts :=
  { parts with digits := dropLeadingZeros parts.digits }

theorem trim_eq_self_iff {parts : Parts} : parts.trim = parts ↔ ¬ parts.Padded := by
  have digitsOnly : parts.trim = parts ↔ dropLeadingZeros parts.digits = parts.digits :=
    ⟨congrArg Parts.digits, fun kept => by rw [trim, kept]⟩
  rw [digitsOnly, dropLeadingZeros_eq_self_iff]
  simp only [Padded, not_exists, ne_eq]

theorem length_letters_trim_le (parts : Parts) :
    parts.trim.letters.length ≤ parts.letters.length := by
  simpa [letters, trim] using length_dropLeadingZeros_le parts.digits

theorem letters_trim_eq_iff {parts : Parts} :
    parts.trim.letters = parts.letters ↔ ¬ parts.Padded := by
  rw [← trim_eq_self_iff]
  constructor
  · intro same
    have digits : dropLeadingZeros parts.digits = parts.digits := by
      simpa [letters, trim] using same
    rw [trim, digits]
  · exact congrArg Parts.letters

@[simp]
theorem letters_trim_regroup (parts : Parts) :
    parts.regroup.trim.letters = parts.trim.letters :=
  parts.trim.letters_regroup

end Parts

theorem length_flatMap_trim_le (row : List Parts) :
    ((row.map Parts.trim).flatMap Parts.letters).length ≤
      (row.flatMap Parts.letters).length := by
  induction row with
  | nil => exact Nat.le_refl _
  | cons parts rest inductionHypothesis =>
    rw [List.map_cons, List.flatMap_cons, List.flatMap_cons, List.length_append,
      List.length_append]
    exact Nat.add_le_add parts.length_letters_trim_le inductionHypothesis

/-- Trimming every index changes a text if and only if some index is padded. -/
theorem flatMap_trim_eq_iff {row : List Parts} :
    (row.map Parts.trim).flatMap Parts.letters = row.flatMap Parts.letters ↔
      ∀ parts ∈ row, ¬ parts.Padded := by
  induction row with
  | nil => simp
  | cons parts rest inductionHypothesis =>
    rw [List.forall_mem_cons, ← inductionHypothesis, ← Parts.letters_trim_eq_iff,
      List.map_cons, List.flatMap_cons, List.flatMap_cons]
    constructor
    · -- Neither half can grow, so the halves have the same lengths.
      intro same
      have lengths := congrArg List.length same
      rw [List.length_append, List.length_append] at lengths
      have firstShorter := parts.length_letters_trim_le
      have restShorter := length_flatMap_trim_le rest
      exact List.append_inj same (by omega)
    · rintro ⟨first, later⟩
      rw [first, later]

/-! ## Elements -/

/-- A row of letters is read if and only if it is the writing of what is read. -/
theorem mapM_eq_some_iff_map {α β : Type} {read : α → Option β} {write : β → α}
    (readIff : ∀ {item result}, read item = some result ↔ item = write result)
    {items : List α} {results : List β} :
    items.mapM read = some results ↔ items = results.map write := by
  induction items generalizing results with
  | nil => cases results <;> simp
  | cons first rest inductionHypothesis =>
    rw [mapM_cons_eq_some_iff]
    constructor
    · rintro ⟨result, later, firstRead, restRead, rfl⟩
      rw [List.map_cons, ← readIff.mp firstRead, ← inductionHypothesis.mp restRead]
    · intro written
      cases results with
      | nil => cases written
      | cons result later =>
        rw [List.map_cons, List.cons.injEq] at written
        exact ⟨result, later, readIff.mpr written.1, inductionHypothesis.mpr written.2, rfl⟩

namespace Element

/-- The parts in which an element is displayed. -/
def parts (element : Element) : Parts where
  source := element.source.code
  digits := Nat.toDigits 10 element.index
  navigation := element.navigation.map Navigation.code
  properties := element.properties.map Property.code

@[simp]
theorem letters_parts (element : Element) : element.parts.letters = element.letters :=
  rfl

/-- An element that is read as itself once it is displayed: its index is a word and its
properties do not begin with the letter that would be taken for a step. -/
structure Legible (element : Element) : Prop where
  small : element.index < indexLimit
  not_shared : element.properties.head? ≠ some .separator

theorem fits_parts (element : Element) : element.parts.Fits Char.isDigit where
  source_mem := mem_sourceLetters_iff.mpr (by simp [parts])
  digits_ne_nil := Nat.toDigits_ne_nil
  digits_decimal := fun _ member =>
    Nat.isDigit_of_mem_toDigits (by decide) (by decide) member
  navigation_mem := by
    intro letter member
    rcases List.mem_map.mp member with ⟨step, _, rfl⟩
    exact mem_navigationLetters_iff.mpr (by simp)
  properties_mem := by
    intro letter member
    rcases List.mem_map.mp member with ⟨property, _, rfl⟩
    exact mem_propertyLetters_iff.mpr (by simp)

theorem settled_parts_iff {element : Element} :
    element.parts.Settled ↔ element.properties.head? ≠ some .separator := by
  have shared : ∀ property : Property,
      property.code ∈ navigationLetters ↔ property = .separator := by
    intro property
    cases property <;> decide
  cases properties : element.properties with
  | nil => simp [Parts.Settled, parts, properties]
  | cons first rest => simp [Parts.Settled, parts, properties, shared]

theorem element?_parts_eq_some_iff {element : Element} :
    element.parts.element? = some element ↔ element.index < indexLimit := by
  rw [Parts.element?_eq_some_iff, index?_eq_some_iff]
  constructor
  · rintro ⟨_, _, ⟨_, _, small⟩, _⟩
    exact small
  · intro small
    have value : Nat.ofDigitChars 10 element.parts.digits 0 = element.index :=
      Nat.ofDigitChars_ten_toDigits
    exact ⟨element.source.ofCode?_code, element.fits_parts.digits_decimal,
      ⟨Nat.toDigits_ne_nil, value, small⟩,
      (mapM_eq_some_iff_map Navigation.ofCode?_eq_some_iff).mpr rfl,
      (mapM_eq_some_iff_map Property.ofCode?_eq_some_iff).mpr rfl⟩

end Element

/-- What is read from parts is displayed as those parts without the zeros in front. -/
theorem Parts.trim_eq_parts {parts : Parts} {element : Element}
    (read : parts.element? = some element) : parts.trim = element.parts := by
  rcases Parts.element?_eq_some_iff.mp read with ⟨source, digits, indexRead, steps, names⟩
  rcases index?_eq_some_iff.mp indexRead with ⟨nonempty, value, _⟩
  rw [Element.parts, ← value, toDigits_ofDigitChars nonempty digits,
    ← Source.ofCode?_eq_some_iff.mp source,
    ← (mapM_eq_some_iff_map Navigation.ofCode?_eq_some_iff).mp steps,
    ← (mapM_eq_some_iff_map Property.ofCode?_eq_some_iff).mp names]
  rfl

theorem map_trim_eq_map_parts {row : List Parts} {elements : List Element}
    (read : row.mapM Parts.element? = some elements) :
    row.map Parts.trim = elements.map Element.parts := by
  induction row generalizing elements with
  | nil =>
    have elementsEq : elements = [] := by simpa using read.symm
    rw [elementsEq]
    rfl
  | cons parts rest inductionHypothesis =>
    rcases mapM_cons_eq_some_iff.mp read with ⟨element, later, firstRead, restRead, rfl⟩
    rw [List.map_cons, List.map_cons, Parts.trim_eq_parts firstRead,
      inductionHypothesis restRead]

theorem mapM_element?_map_parts {elements : List Element}
    (small : ∀ element ∈ elements, element.index < indexLimit) :
    (elements.map Element.parts).mapM Parts.element? = some elements := by
  induction elements with
  | nil => rfl
  | cons element rest inductionHypothesis =>
    rw [List.forall_mem_cons] at small
    rw [List.map_cons, mapM_cons_eq_some_iff]
    exact ⟨element, rest, Element.element?_parts_eq_some_iff.mpr small.1,
      inductionHypothesis small.2, rfl⟩

theorem spells_map_parts {elements : List Element} (nonempty : elements ≠ []) :
    Spells Char.isDigit (elements.map Element.parts) (elements.flatMap Element.letters) where
  ne_nil := by simpa using nonempty
  fits := by
    intro parts member
    rcases List.mem_map.mp member with ⟨element, _, rfl⟩
    exact element.fits_parts
  letters_eq := by simp only [List.flatMap_map, Element.letters_parts]

/-- Legible elements are read from what they are displayed as. -/
theorem elements?_flatMap_letters {elements : List Element} (nonempty : elements ≠ [])
    (legible : ∀ element ∈ elements, element.Legible) :
    elements? (elements.flatMap Element.letters) = some elements := by
  have settled : ∀ parts ∈ elements.map Element.parts, parts.Settled := by
    intro parts member
    rcases List.mem_map.mp member with ⟨element, elementMember, rfl⟩
    exact Element.settled_parts_iff.mpr (legible element elementMember).not_shared
  have rowRead := mapM_element?_map_parts fun element member => (legible element member).small
  exact elements?_eq_some_iff.mpr ⟨_, spells_map_parts nonempty, settled, rowRead⟩

theorem exists_mem_of_mapM_eq_some {α β : Type} {read : α → Option β} {items : List α}
    {results : List β} (allRead : items.mapM read = some results) {result : β}
    (member : result ∈ results) : ∃ item ∈ items, read item = some result := by
  induction items generalizing results with
  | nil =>
    have resultsEq : results = [] := by simpa using allRead.symm
    simp [resultsEq] at member
  | cons first rest inductionHypothesis =>
    rcases mapM_cons_eq_some_iff.mp allRead with ⟨_, later, firstRead, restRead, rfl⟩
    rcases List.mem_cons.mp member with rfl | laterMember
    · exact ⟨first, List.mem_cons_self, firstRead⟩
    · rcases inductionHypothesis restRead laterMember with ⟨item, itemMember, itemRead⟩
      exact ⟨item, List.mem_cons_of_mem _ itemMember, itemRead⟩

/-- Whatever is read consists of legible elements. -/
theorem legible_of_elements?_eq_some {text : List Char} {elements : List Element}
    (read : elements? text = some elements) : ∀ element ∈ elements, element.Legible := by
  rcases elements?_eq_some_iff.mp read with ⟨row, spells, settled, rowRead⟩
  intro element member
  rcases exists_mem_of_mapM_eq_some rowRead member with ⟨parts, partsMember, partsRead⟩
  rcases Parts.element?_eq_some_iff.mp partsRead with ⟨_, _, indexRead, _, _⟩
  have elementSettled : element.parts.Settled := by
    rw [← Parts.trim_eq_parts partsRead]
    exact settled parts partsMember
  exact ⟨(index?_eq_some_iff.mp indexRead).2.2, Element.settled_parts_iff.mp elementSettled⟩

/-- A described text is displayed as itself without the zeros in front of its indices. -/
theorem Describes.flatMap_letters_eq {row : List Parts} {text : List Char}
    (describes : Describes row text) {elements : List Element}
    (read : elements? text = some elements) :
    elements.flatMap Element.letters = (row.map Parts.trim).flatMap Parts.letters := by
  have regrouped := describes.regroup
  rcases Option.isSome_iff_exists.mp
    (regrouped.toSpells.isSome_mapM_element?_iff.mpr regrouped) with ⟨found, rowRead⟩
  have foundRead := elements?_eq_some_iff.mpr
    ⟨_, regrouped.toSpells, forall_settled_map_regroup row, rowRead⟩
  have sameElements : elements = found := Option.some.inj (read.symm.trans foundRead)
  have trimmed := map_trim_eq_map_parts rowRead
  calc
    elements.flatMap Element.letters = (found.map Element.parts).flatMap Parts.letters := by
      simp only [sameElements, List.flatMap_map, Element.letters_parts]
    _ = (row.map Parts.trim).flatMap Parts.letters := by
      simp only [← trimmed, List.flatMap_map, Parts.letters_trim_regroup]

namespace Template

variable {descriptor : String} {template : Template}

theorem display_of_describes (read : parse? descriptor = some template) {row : List Parts}
    (describes : Describes row descriptor.toList) :
    template.display.toList = (row.map Parts.trim).flatMap Parts.letters ∧
      (template.display = descriptor ↔ ∀ parts ∈ row, ¬ parts.Padded) := by
  have shown : template.display.toList = (row.map Parts.trim).flatMap Parts.letters := by
    rw [display, String.toList_ofList]
    exact describes.flatMap_letters_eq (parse?_eq_some_iff.mp read).2
  constructor
  · exact shown
  · rw [← flatMap_trim_eq_iff, ← shown, describes.letters_eq, String.toList_inj]

theorem toList_join_display (elements : List Element) :
    (String.join (elements.map Element.display)).toList = elements.flatMap Element.letters := by
  simp only [String.toList_join, List.flatMap_map, Element.display, String.toList_ofList]

theorem display_eq_join (template : Template) :
    template.display = String.join (template.elements.map Element.display) := by
  rw [← String.toList_inj, toList_join_display, display, String.toList_ofList]

/-- Legible elements that are displayed one after the other are read again. -/
theorem parse?_join_display {elements : List Element} (nonempty : elements ≠ [])
    (legible : ∀ element ∈ elements, element.Legible) :
    parse? (String.join (elements.map Element.display)) =
      some { name := String.join (elements.map Element.display), elements } := by
  apply parse?_eq_some_iff.mpr
  rw [toList_join_display]
  exact ⟨rfl, elements?_flatMap_letters nonempty legible⟩

theorem legible_of_parse? (read : parse? descriptor = some template) :
    template.elements ≠ [] ∧ ∀ element ∈ template.elements, element.Legible := by
  have elementsRead := (parse?_eq_some_iff.mp read).2
  exact ⟨ne_nil_of_elements?_eq_some elementsRead, legible_of_elements?_eq_some elementsRead⟩

/-- What a template displays is read as a template with the same elements. -/
theorem parse?_display (read : parse? descriptor = some template) :
    parse? template.display =
      some { name := template.display, elements := template.elements } := by
  have elements := legible_of_parse? read
  rw [display_eq_join]
  exact parse?_join_display elements.1 elements.2

/-- The lists that are read are the nonempty lists of legible elements. -/
theorem exists_parse?_iff {elements : List Element} :
    (∃ descriptor template, parse? descriptor = some template ∧
        template.elements = elements) ↔
      elements ≠ [] ∧ ∀ element ∈ elements, element.Legible := by
  constructor
  · rintro ⟨descriptor, template, read, rfl⟩
    exact legible_of_parse? read
  · rintro ⟨nonempty, legible⟩
    exact ⟨_, _, parse?_join_display nonempty legible, rfl⟩

theorem elements_eq_iff_display_eq {first second : String} {before after : Template}
    (firstRead : parse? first = some before) (secondRead : parse? second = some after) :
    before.elements = after.elements ↔ before.display = after.display := by
  constructor
  · intro same
    rw [display, display, same]
  · intro same
    have firstAgain := parse?_display firstRead
    rw [same, parse?_display secondRead, Option.some.injEq, mk.injEq] at firstAgain
    exact firstAgain.2.symm

/-- Displaying undoes reading up to zeros in front of the indices, and reading undoes
displaying on the nonempty lists of legible elements, which are the lists that are read. -/
theorem display_inverts_parse? :
    (∀ descriptor template, parse? descriptor = some template →
      (∃ row, Describes row descriptor.toList) ∧
        (∀ row, Describes row descriptor.toList →
          template.display.toList = (row.map Parts.trim).flatMap Parts.letters ∧
            (template.display = descriptor ↔ ∀ parts ∈ row, ¬ parts.Padded)) ∧
        ∃ again, parse? template.display = some again ∧
          again.elements = template.elements ∧ again.display = template.display) ∧
      (∀ elements,
        (∃ descriptor template, parse? descriptor = some template ∧
            template.elements = elements) ↔
          elements ≠ [] ∧ ∀ element ∈ elements, element.Legible) ∧
      (∀ elements, elements ≠ [] → (∀ element ∈ elements, element.Legible) →
        ∃ template, parse? (String.join (elements.map Element.display)) = some template ∧
          template.elements = elements) ∧
      ∀ first second before after, parse? first = some before → parse? second = some after →
        (before.elements = after.elements ↔ before.display = after.display) := by
  constructor
  · intro descriptor template read
    have described := isSome_parse?_iff.mp (Option.isSome_iff_exists.mpr ⟨template, read⟩)
    exact ⟨described, fun row describes => display_of_describes read describes, _,
      parse?_display read, rfl, rfl⟩
  · exact ⟨fun elements => exists_parse?_iff,
      fun elements nonempty legible => ⟨_, parse?_join_display nonempty legible, rfl⟩,
      fun first second before after => elements_eq_iff_display_eq⟩

/-- The zeros in front of the seven go, the zero that stands alone stays, and what is left is
read as the same elements. -/
theorem display_inverts_parse?_padded :
    let elements : List Element :=
      [⟨.stack, 7, [], [.text, .separator]⟩, ⟨.buffer, 0, [.parent], []⟩]
    parse? "s007wpb0p" = some { name := "s007wpb0p", elements } ∧
      ({ name := "s007wpb0p", elements } : Template).display = "s7wpb0p" ∧
      ({ name := "s007wpb0p", elements } : Template).display ≠ "s007wpb0p" ∧
      (∃ template, parse? (String.join (elements.map Element.display)) = some template ∧
        template.elements = elements) ∧
      ∃ again, parse? "s7wpb0p" = some again ∧ again.elements = elements := by
  intro elements
  let row : List Parts := [⟨'s', ['0', '0', '7'], [], ['w', 'p']⟩, ⟨'b', ['0'], ['p'], []⟩]
  have fits : ∀ parts ∈ row, parts.Fits Char.isDigit := by
    rw [List.forall_mem_cons, List.forall_mem_singleton]
    constructor
    · constructor <;> simp [sourceLetters, propertyLetters]
    · constructor <;> simp [sourceLetters, navigationLetters]
  have describes : Describes row "s007wpb0p".toList :=
    { ne_nil := by decide, fits := fits, letters_eq := by decide, small := by decide }
  have read : parse? "s007wpb0p" = some { name := "s007wpb0p", elements } := by
    decide +kernel
  have legible : ∀ element ∈ elements, element.Legible := by
    rw [List.forall_mem_cons, List.forall_mem_singleton]
    exact ⟨⟨by decide, by decide⟩, by decide, by decide⟩
  rcases display_inverts_parse? with ⟨ofDescriptor, _, ofElements, _⟩
  rcases ofDescriptor "s007wpb0p" _ read with ⟨_, displayed, again, againRead, sameElements, _⟩
  rcases displayed row describes with ⟨shown, unchanged⟩
  have shownEq : ({ name := "s007wpb0p", elements } : Template).display = "s7wpb0p" := by
    rw [← String.toList_inj, shown]
    decide
  rw [shownEq] at againRead
  refine ⟨read, shownEq, ?_, ofElements elements (by decide) legible, again, againRead,
    sameElements⟩
  intro same
  exact unchanged.mp same _ List.mem_cons_self ⟨'0', ['7'], rfl⟩

end Template

end TransitionFeatures
