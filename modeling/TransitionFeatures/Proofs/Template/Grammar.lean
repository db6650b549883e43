import Mathlib.Data.Nat.Digits.Defs
import TransitionFeatures.Proofs.Template.Pattern

/-!
# Descriptors and the element pattern

A descriptor is read if and only if it is made of one element or more whose indices are
ASCII digits and 64-bit words; what is read is the one division of it in which every
navigation run is as long as it can be, each index the decimal value of its digits.  The
same comes out if the text is first checked
and then scanned with the element pattern, whatever the pattern takes for a digit outside
of ASCII: `Template.parse?_follows_grammar`.
-/

namespace TransitionFeatures

/-! ## Reading parts -/

theorem mapM_cons_eq_some_iff {α β : Type} {read : α → Option β} {first : α} {rest : List α}
    {results : List β} :
    (first :: rest).mapM read = some results ↔
      ∃ result later, read first = some result ∧ rest.mapM read = some later ∧
        results = result :: later := by
  simp only [List.mapM_cons, Option.bind_eq_bind, Option.bind_eq_some_iff, Option.pure_def,
    Option.some.injEq]
  constructor
  · rintro ⟨result, readFirst, later, readRest, rfl⟩
    exact ⟨result, later, readFirst, readRest, rfl⟩
  · rintro ⟨result, later, readFirst, readRest, rfl⟩
    exact ⟨result, readFirst, later, readRest, rfl⟩

/-- A row is read if and only if every item of it is. -/
theorem isSome_mapM_iff {α β : Type} {read : α → Option β} {items : List α} :
    (items.mapM read).isSome = true ↔ ∀ item ∈ items, (read item).isSome = true := by
  induction items with
  | nil => simp
  | cons first rest inductionHypothesis =>
    rw [List.forall_mem_cons, ← inductionHypothesis]
    simp only [Option.isSome_iff_exists, mapM_cons_eq_some_iff]
    constructor
    · rintro ⟨_, result, later, readFirst, readRest, _⟩
      exact ⟨⟨result, readFirst⟩, ⟨later, readRest⟩⟩
    · rintro ⟨⟨result, readFirst⟩, ⟨later, readRest⟩⟩
      exact ⟨_, result, later, readFirst, readRest, rfl⟩

theorem mem_sourceLetters_iff {letter : Char} :
    letter ∈ sourceLetters ↔ (Source.ofCode? letter).isSome = true := by
  constructor
  · have listed : sourceLetters.all (fun letter => (Source.ofCode? letter).isSome) = true := by
      decide
    exact List.all_eq_true.mp listed letter
  · intro known
    rcases Option.isSome_iff_exists.mp known with ⟨source, read⟩
    rw [Source.ofCode?_eq_some_iff.mp read]
    cases source <;> decide

theorem mem_navigationLetters_iff {letter : Char} :
    letter ∈ navigationLetters ↔ (Navigation.ofCode? letter).isSome = true := by
  constructor
  · have listed :
        navigationLetters.all (fun letter => (Navigation.ofCode? letter).isSome) = true := by
      decide
    exact List.all_eq_true.mp listed letter
  · intro known
    rcases Option.isSome_iff_exists.mp known with ⟨step, read⟩
    rw [Navigation.ofCode?_eq_some_iff.mp read]
    cases step <;> decide

theorem mem_propertyLetters_iff {letter : Char} :
    letter ∈ propertyLetters ↔ (Property.ofCode? letter).isSome = true := by
  constructor
  · have listed :
        propertyLetters.all (fun letter => (Property.ofCode? letter).isSome) = true := by
      decide
    exact List.all_eq_true.mp listed letter
  · intro known
    rcases Option.isSome_iff_exists.mp known with ⟨property, read⟩
    rw [Property.ofCode?_eq_some_iff.mp read]
    cases property <;> decide

namespace Parts

/-- The number that the digits stand for: the last one counts units, the one before it tens and
so on. -/
def value (parts : Parts) : Nat :=
  Nat.ofDigits 10 (parts.digits.reverse.map fun letter => letter.toNat - '0'.toNat)

theorem ofDigitChars_digits (parts : Parts) :
    Nat.ofDigitChars 10 parts.digits 0 = parts.value := by
  rw [value, Nat.ofDigits_eq_foldr, List.foldr_map, List.foldr_reverse, Nat.ofDigitChars]
  congr 1
  funext value letter
  exact Nat.add_comm _ _

/-- Read the digits of an element as a word; only ASCII digits can be. -/
def word? (parts : Parts) : Option Nat :=
  if parts.digits.all Char.isDigit then index? parts.digits else none

/-- Read the parts of an element. -/
def element? (parts : Parts) : Option Element := do
  let source ← Source.ofCode? parts.source
  let index ← parts.word?
  let navigation ← parts.navigation.mapM Navigation.ofCode?
  let properties ← parts.properties.mapM Property.ofCode?
  return { source, index, navigation, properties }

theorem element?_eq_some_iff {parts : Parts} {element : Element} :
    parts.element? = some element ↔
      Source.ofCode? parts.source = some element.source ∧
        (∀ letter ∈ parts.digits, letter.isDigit = true) ∧
        index? parts.digits = some element.index ∧
        parts.navigation.mapM Navigation.ofCode? = some element.navigation ∧
        parts.properties.mapM Property.ofCode? = some element.properties := by
  cases element with
  | mk source index navigation properties =>
    simp only [element?, word?, Option.bind_eq_bind, Option.bind_eq_some_iff,
      Option.ite_none_right_eq_some, List.all_eq_true, Option.pure_def, Option.some.injEq,
      Element.mk.injEq]
    constructor
    · rintro ⟨_, sourceRead, _, ⟨digits, indexRead⟩, _, steps, _, names, rfl, rfl, rfl, rfl⟩
      exact ⟨sourceRead, digits, indexRead, steps, names⟩
    · rintro ⟨sourceRead, digits, indexRead, steps, names⟩
      exact ⟨_, sourceRead, _, ⟨digits, indexRead⟩, _, steps, _, names, rfl, rfl, rfl, rfl⟩

theorem index_of_element? {parts : Parts} {element : Element}
    (read : parts.element? = some element) : element.index = parts.value := by
  rw [← parts.ofDigitChars_digits]
  exact (index?_eq_some_iff.mp (element?_eq_some_iff.mp read).2.2.1).2.1.symm

/-- The indices of a row are the values of its digits. -/
theorem map_index_of_mapM_element? {row : List Parts} {elements : List Element}
    (read : row.mapM element? = some elements) :
    elements.map Element.index = row.map value := by
  induction row generalizing elements with
  | nil =>
    cases read
    rfl
  | cons parts rest inductionHypothesis =>
    rcases mapM_cons_eq_some_iff.mp read with ⟨element, later, first, restRead, rfl⟩
    rw [List.map_cons, List.map_cons, index_of_element? first, inductionHypothesis restRead]

section Fits

variable {decimal : Char → Bool} {parts : Parts} (fits : parts.Fits decimal)

include fits

theorem Fits.exists_navigation :
    ∃ navigation, parts.navigation.mapM Navigation.ofCode? = some navigation := by
  apply Option.isSome_iff_exists.mp
  rw [isSome_mapM_iff]
  exact fun letter member => mem_navigationLetters_iff.mp (fits.navigation_mem letter member)

theorem Fits.exists_properties :
    ∃ properties, parts.properties.mapM Property.ofCode? = some properties := by
  apply Option.isSome_iff_exists.mp
  rw [isSome_mapM_iff]
  exact fun letter member => mem_propertyLetters_iff.mp (fits.properties_mem letter member)

/-- Parts that fit are read if and only if the index is a word in ASCII digits. -/
theorem Fits.isSome_element?_iff :
    parts.element?.isSome = true ↔
      (∀ letter ∈ parts.digits, letter.isDigit = true) ∧
        Nat.ofDigitChars 10 parts.digits 0 < indexLimit := by
  constructor
  · intro known
    rcases Option.isSome_iff_exists.mp known with ⟨element, read⟩
    rcases element?_eq_some_iff.mp read with ⟨_, digits, indexRead, _, _⟩
    rcases index?_eq_some_iff.mp indexRead with ⟨_, value, small⟩
    exact ⟨digits, value ▸ small⟩
  · rintro ⟨digits, small⟩
    have sourceKnown := mem_sourceLetters_iff.mp fits.source_mem
    rcases Option.isSome_iff_exists.mp sourceKnown with ⟨source, sourceRead⟩
    rcases fits.exists_navigation with ⟨navigation, steps⟩
    rcases fits.exists_properties with ⟨properties, names⟩
    have indexRead := index?_eq_some_iff.mpr ⟨fits.digits_ne_nil, rfl, small⟩
    exact Option.isSome_iff_exists.mpr ⟨{ source, index := _, navigation, properties },
      element?_eq_some_iff.mpr ⟨sourceRead, digits, indexRead, steps, names⟩⟩

end Fits

end Parts

/-! ## Reading one piece -/

/-- The longest run ends where the first letter is refused. -/
theorem longestRun_append {α : Type} {read : Char → Option α} {run rest : List Char}
    {items : List α} (accepted : run.mapM read = some items)
    (stop : ∀ letter ∈ rest.head?, read letter = none) :
    longestRun read (run ++ rest) = (items, rest) := by
  induction run generalizing items with
  | nil =>
    have itemsEq : items = [] := by simpa using accepted.symm
    subst itemsEq
    cases rest with
    | nil => rfl
    | cons letter later => exact longestRun_cons_none (stop letter rfl) later
  | cons letter later inductionHypothesis =>
    rcases mapM_cons_eq_some_iff.mp accepted with ⟨item, laterItems, first, laterRead, rfl⟩
    rw [List.cons_append, longestRun_cons_some first, inductionHypothesis laterRead]

theorem exists_longestRun {α : Type} (read : Char → Option α) (text : List Char) :
    ∃ run, run ++ (longestRun read text).2 = text ∧
      run.mapM read = some (longestRun read text).1 ∧
        ∀ letter ∈ (longestRun read text).2.head?, read letter = none := by
  induction text with
  | nil => exact ⟨[], rfl, rfl, nofun⟩
  | cons letter rest inductionHypothesis =>
    cases accepted : read letter with
    | none =>
      rw [longestRun_cons_none accepted]
      refine ⟨[], rfl, rfl, ?_⟩
      rintro first ⟨⟩
      exact accepted
    | some item =>
      rw [longestRun_cons_some accepted]
      rcases inductionHypothesis with ⟨run, parted, runRead, stop⟩
      refine ⟨letter :: run, congrArg _ parted, ?_, stop⟩
      exact mapM_cons_eq_some_iff.mpr ⟨item, _, accepted, runRead, rfl⟩

theorem Element.ofLetters?_eq_element? {source : Source} {parts : Parts}
    (fits : parts.Fits Char.isDigit) (settled : parts.Settled)
    (sourceRead : Source.ofCode? parts.source = some source) :
    Element.ofLetters? source (parts.digits ++ (parts.navigation ++ parts.properties)) =
      parts.element? := by
  have stop := fits.head?_not_decimal digitClass_isDigit
  rcases fits.exists_navigation with ⟨navigation, steps⟩
  rcases fits.exists_properties with ⟨properties, names⟩
  have stepsEnd : ∀ letter ∈ parts.properties.head?, Navigation.ofCode? letter = none := by
    intro letter first
    simpa [mem_navigationLetters_iff] using settled letter first
  have navigationRun := longestRun_append steps stepsEnd
  have propertyRun : longestRun Property.ofCode? parts.properties = (properties, []) := by
    have run := longestRun_append names (fun letter first => absurd first (by simp) :
      ∀ letter ∈ ([] : List Char).head?, Property.ofCode? letter = none)
    rwa [List.append_nil] at run
  have digits : parts.digits.all Char.isDigit = true := by
    simpa using fits.digits_decimal
  unfold Element.ofLetters? Parts.element? Parts.word?
  rw [takeWhile_append_of_stop fits.digits_decimal stop,
    dropWhile_append_of_stop fits.digits_decimal stop]
  simp [navigationRun, propertyRun, digits, sourceRead, steps, names]

/-- A piece is read if and only if it has parts that can be read. -/
theorem Element.ofLetters?_eq_some_iff {source : Source} {letters : List Char}
    {element : Element} :
    Element.ofLetters? source letters = some element ↔
      ∃ parts : Parts, parts.Fits Char.isDigit ∧ parts.Settled ∧
        parts.letters = source.code :: letters ∧ parts.element? = some element := by
  constructor
  · intro read
    simp only [Element.ofLetters?, Option.bind_eq_bind, Option.bind_eq_some_iff,
      Option.ite_none_right_eq_some, Option.some.injEq, List.isEmpty_iff] at read
    rcases read with ⟨index, indexRead, unread, rfl⟩
    rcases exists_longestRun Navigation.ofCode? (letters.dropWhile Char.isDigit) with
      ⟨navigation, navigationParted, steps, stepsEnd⟩
    rcases exists_longestRun Property.ofCode?
      (longestRun Navigation.ofCode? (letters.dropWhile Char.isDigit)).2 with
      ⟨properties, propertiesParted, names, _⟩
    rw [unread, List.append_nil] at propertiesParted
    let parts : Parts :=
      { source := source.code, digits := letters.takeWhile Char.isDigit, navigation, properties }
    have digits : ∀ letter ∈ parts.digits, letter.isDigit = true := fun _ member =>
      List.mem_takeWhile_imp member
    refine ⟨parts, ⟨?_, (index?_eq_some_iff.mp indexRead).1, digits, ?_, ?_⟩, ?_, ?_, ?_⟩
    · exact mem_sourceLetters_iff.mpr (by simp [parts])
    · intro letter member
      exact mem_navigationLetters_iff.mpr (isSome_mapM_iff.mp (by rw [steps]; rfl) letter member)
    · intro letter member
      exact mem_propertyLetters_iff.mpr (isSome_mapM_iff.mp (by rw [names]; rfl) letter member)
    · intro letter first
      rw [← propertiesParted] at stepsEnd
      simpa [mem_navigationLetters_iff] using stepsEnd letter first
    · simp [parts, Parts.letters, propertiesParted, navigationParted]
    · exact Parts.element?_eq_some_iff.mpr
        ⟨Source.ofCode?_code source, digits, indexRead, steps, names⟩
  · rintro ⟨parts, fits, settled, lettersEq, read⟩
    simp only [Parts.letters, List.cons.injEq] at lettersEq
    rw [← lettersEq.2, ← read]
    apply Element.ofLetters?_eq_element? fits settled
    rw [lettersEq.1, Source.ofCode?_code]

/-! ## Reading rows -/

/-- Letters that are no source stay in front of the first piece. -/
theorem pieces_append {run : List Char} (plain : ∀ letter ∈ run, letter ∉ sourceLetters)
    (rest : List Char) :
    pieces (run ++ rest) = (run ++ (pieces rest).1, (pieces rest).2) := by
  induction run with
  | nil => rfl
  | cons letter later inductionHypothesis =>
    rw [List.forall_mem_cons] at plain
    have refused : Source.ofCode? letter = none := by
      simpa [mem_sourceLetters_iff] using plain.1
    rw [List.cons_append, pieces_cons_none refused, inductionHypothesis plain.2]
    rfl

/-- Put together again, the pieces of a text make the text. -/
theorem flatMap_pieces (text : List Char) :
    (pieces text).1 ++ (pieces text).2.flatMap (fun piece => piece.1.code :: piece.2) = text := by
  induction text with
  | nil => rfl
  | cons letter rest inductionHypothesis =>
    cases read : Source.ofCode? letter with
    | none =>
      rw [pieces_cons_none read]
      exact congrArg (letter :: ·) inductionHypothesis
    | some source =>
      rw [Source.ofCode?_eq_some_iff.mp read, pieces_cons_code]
      exact congrArg (source.code :: ·) inductionHypothesis

theorem Parts.Fits.not_mem_sourceLetters {parts : Parts} (fits : parts.Fits Char.isDigit) :
    ∀ letter ∈ parts.digits ++ (parts.navigation ++ parts.properties),
      letter ∉ sourceLetters := by
  intro letter member source
  rcases List.mem_append.mp member with digit | later
  · have plain : letter.isDigit = false :=
      digitClass_isDigit.eq_false_of_mem (by simp [source])
    rw [fits.digits_decimal letter digit] at plain
    cases plain
  · rcases List.mem_append.mp later with navigation | property
    · exact source_not_mem_navigationLetters source (fits.navigation_mem letter navigation)
    · exact source_not_mem_propertyLetters source (fits.properties_mem letter property)

/-- The pieces of a row of settled elements are the elements. -/
theorem mapM_pieces_flatMap_letters {row : List Parts}
    (fits : ∀ parts ∈ row, parts.Fits Char.isDigit) (settled : ∀ parts ∈ row, parts.Settled) :
    (pieces (row.flatMap Parts.letters)).1 = [] ∧
      (pieces (row.flatMap Parts.letters)).2.mapM
          (fun piece => Element.ofLetters? piece.1 piece.2) =
        row.mapM Parts.element? := by
  induction row with
  | nil => exact ⟨rfl, rfl⟩
  | cons parts rest inductionHypothesis =>
    rw [List.forall_mem_cons] at fits settled
    rcases inductionHypothesis fits.2 settled.2 with ⟨noLead, laterRead⟩
    rcases Option.isSome_iff_exists.mp (mem_sourceLetters_iff.mp fits.1.source_mem) with
      ⟨source, sourceRead⟩
    rw [List.flatMap_cons, Parts.letters, List.cons_append,
      Source.ofCode?_eq_some_iff.mp sourceRead, pieces_cons_code,
      pieces_append fits.1.not_mem_sourceLetters, noLead, List.append_nil]
    constructor
    · rfl
    · rw [List.mapM_cons, List.mapM_cons, laterRead,
        Element.ofLetters?_eq_element? fits.1 settled.1 sourceRead]

theorem exists_row_of_mapM_ofLetters? {found : List (Source × List Char)}
    {elements : List Element}
    (read : found.mapM (fun piece => Element.ofLetters? piece.1 piece.2) = some elements) :
    ∃ row : List Parts, (∀ parts ∈ row, parts.Fits Char.isDigit) ∧
      (∀ parts ∈ row, parts.Settled) ∧
        row.flatMap Parts.letters = found.flatMap (fun piece => piece.1.code :: piece.2) ∧
          row.mapM Parts.element? = some elements := by
  induction found generalizing elements with
  | nil => exact ⟨[], nofun, nofun, rfl, by simpa using read⟩
  | cons piece rest inductionHypothesis =>
    rcases mapM_cons_eq_some_iff.mp read with ⟨element, later, first, restRead, rfl⟩
    rcases Element.ofLetters?_eq_some_iff.mp first with ⟨parts, fits, settled, letters, partsRead⟩
    rcases inductionHypothesis restRead with ⟨row, allFit, allSettled, rowLetters, rowRead⟩
    refine ⟨parts :: row, List.forall_mem_cons.mpr ⟨fits, allFit⟩,
      List.forall_mem_cons.mpr ⟨settled, allSettled⟩, ?_, ?_⟩
    · rw [List.flatMap_cons, List.flatMap_cons, letters, rowLetters]
    · exact mapM_cons_eq_some_iff.mpr ⟨element, later, partsRead, rowRead, rfl⟩

/-- A text is read if and only if it is made of settled elements that can be read. -/
theorem elements?_eq_some_iff {text : List Char} {elements : List Element} :
    elements? text = some elements ↔
      ∃ row, Spells Char.isDigit row text ∧ (∀ parts ∈ row, parts.Settled) ∧
        row.mapM Parts.element? = some elements := by
  constructor
  · intro read
    unfold elements? at read
    split at read
    · rename_i first later cut
      rcases exists_row_of_mapM_ofLetters? read with ⟨row, fits, settled, letters, rowRead⟩
      have whole := flatMap_pieces text
      rw [cut, List.nil_append, ← letters] at whole
      refine ⟨row, ⟨?_, fits, whole⟩, settled, rowRead⟩
      rintro rfl
      simp at letters
    · cases read
  · rintro ⟨row, spells, settled, rowRead⟩
    rcases mapM_pieces_flatMap_letters spells.fits settled with ⟨noLead, read⟩
    rw [spells.letters_eq] at noLead read
    unfold elements?
    split
    · rename_i first later cut
      rw [← rowRead, ← read, cut]
    · rename_i others
      cases cut : pieces text with
      | mk lead found =>
        rw [cut] at noLead read
        cases found with
        | nil =>
          cases row with
          | nil => exact absurd rfl spells.ne_nil
          | cons parts rest =>
            rcases mapM_cons_eq_some_iff.mp rowRead with ⟨_, _, _, _, rfl⟩
            rw [rowRead] at read
            simp at read
        | cons first later =>
          dsimp only at noLead
          subst noLead
          exact absurd cut (others first later)

theorem ne_nil_of_elements?_eq_some {text : List Char} {elements : List Element}
    (read : elements? text = some elements) : elements ≠ [] := by
  rcases elements?_eq_some_iff.mp read with ⟨row, spells, _, rowRead⟩
  cases row with
  | nil => exact absurd rfl spells.ne_nil
  | cons parts rest =>
    rcases mapM_cons_eq_some_iff.mp rowRead with ⟨_, _, _, _, rfl⟩
    exact List.cons_ne_nil _ _

/-- Reading a text is checking and scanning it with the pattern and reading what is
found. -/
theorem elements?_eq_some_iff_scan {decimal : Char → Bool} (digitClass : DigitClass decimal)
    {text : List Char} {elements : List Element} :
    elements? text = some elements ↔
      covers decimal text = true ∧
        (scan decimal text).mapM Parts.element? = some elements := by
  rw [elements?_eq_some_iff]
  constructor
  · rintro ⟨row, spells, settled, rowRead⟩
    have fits : ∀ parts ∈ row, parts.Fits decimal := fun parts member =>
      (spells.fits parts member).mono digitClass
    constructor
    · exact covers_iff_exists_spells.mpr ⟨row, spells.ne_nil, fits, spells.letters_eq⟩
    · rw [← spells.letters_eq, scan_flatMap_letters digitClass fits settled]
      exact rowRead
  · rintro ⟨covered, scanRead⟩
    rcases covers_iff_exists_spells.mp covered with ⟨original, originalSpells⟩
    have spells := originalSpells.regroup
    have settled := forall_settled_map_regroup original
    rw [← spells.letters_eq, scan_flatMap_letters digitClass spells.fits settled] at scanRead
    have known := isSome_mapM_iff.mp (Option.isSome_iff_exists.mpr ⟨elements, scanRead⟩)
    refine ⟨original.map Parts.regroup, ⟨spells.ne_nil, ?_, spells.letters_eq⟩, settled,
      scanRead⟩
    intro parts member
    have fits := spells.fits parts member
    exact { fits with digits_decimal := (fits.isSome_element?_iff.mp (known parts member)).1 }

/-! ## Descriptors -/

/-- A text is made of one element or more, the index of each a 64-bit word in ASCII
digits. -/
structure Describes (row : List Parts) (text : List Char) : Prop
    extends Spells Char.isDigit row text where
  small : ∀ parts ∈ row, Nat.ofDigitChars 10 parts.digits 0 < indexLimit

/-- A row of elements can be read if and only if all indices are small enough. -/
theorem Spells.isSome_mapM_element?_iff {row : List Parts} {text : List Char}
    (spells : Spells Char.isDigit row text) :
    (row.mapM Parts.element?).isSome = true ↔ Describes row text := by
  rw [isSome_mapM_iff]
  constructor
  · intro known
    refine { spells with small := fun parts member => ?_ }
    exact ((spells.fits parts member).isSome_element?_iff.mp (known parts member)).2
  · intro describes parts member
    have fits := spells.fits parts member
    exact fits.isSome_element?_iff.mpr ⟨fits.digits_decimal, describes.small parts member⟩

/-- Regrouping keeps the indices. -/
theorem Describes.regroup {row : List Parts} {text : List Char}
    (describes : Describes row text) : Describes (row.map Parts.regroup) text :=
  { describes.toSpells.regroup with
    small := by
      intro parts member
      rcases List.mem_map.mp member with ⟨original, originalMember, rfl⟩
      exact describes.small original originalMember }

/-- A described text has digits and the letters of the grammar only. -/
theorem Describes.isDigit_or_mem {row : List Parts} {text : List Char}
    (describes : Describes row text) {letter : Char} (member : letter ∈ text) :
    letter.isDigit = true ∨
      letter ∈ sourceLetters ++ navigationLetters ++ propertyLetters := by
  rw [← describes.letters_eq] at member
  rcases List.mem_flatMap.mp member with ⟨parts, partsMember, place⟩
  have fits := describes.fits parts partsMember
  simp only [Parts.letters, List.mem_cons, List.mem_append] at place
  rcases place with rfl | digit | navigation | property
  · exact Or.inr (by simp [fits.source_mem])
  · exact Or.inl (fits.digits_decimal letter digit)
  · exact Or.inr (by simp [fits.navigation_mem letter navigation])
  · exact Or.inr (by simp [fits.properties_mem letter property])

namespace Template

theorem isSome_parse?_iff {descriptor : String} :
    (parse? descriptor).isSome = true ↔ ∃ row, Describes row descriptor.toList := by
  constructor
  · intro known
    rcases Option.isSome_iff_exists.mp known with ⟨template, read⟩
    rcases elements?_eq_some_iff.mp (parse?_eq_some_iff.mp read).2 with
      ⟨row, spells, _, rowRead⟩
    exact ⟨row, spells.isSome_mapM_element?_iff.mp (Option.isSome_iff_exists.mpr ⟨_, rowRead⟩)⟩
  · rintro ⟨original, originalDescribes⟩
    have describes := originalDescribes.regroup
    rcases Option.isSome_iff_exists.mp
      (describes.toSpells.isSome_mapM_element?_iff.mpr describes) with ⟨elements, rowRead⟩
    have read := elements?_eq_some_iff.mpr
      ⟨_, describes.toSpells, forall_settled_map_regroup original, rowRead⟩
    exact Option.isSome_iff_exists.mpr
      ⟨{ name := descriptor, elements }, parse?_eq_some_iff.mpr ⟨rfl, read⟩⟩

/-- What is read is the only greedy division, and a scan finds it. -/
theorem exists_greedy_of_parse? {decimal : Char → Bool} (digitClass : DigitClass decimal)
    {descriptor : String} {template : Template} (read : parse? descriptor = some template) :
    ∃ row, (∀ other, (Describes other descriptor.toList ∧ ∀ parts ∈ other, parts.Greedy) ↔
        other = row) ∧
      row.mapM Parts.element? = some template.elements ∧
      template.elements.map Element.index = row.map Parts.value ∧
      (∀ parts ∈ row, parts.value < indexLimit) ∧
      scan decimal descriptor.toList = row := by
  rcases elements?_eq_some_iff.mp (parse?_eq_some_iff.mp read).2 with
    ⟨row, spells, settled, rowRead⟩
  have scanned : ∀ {other : List Parts}, Spells Char.isDigit other descriptor.toList →
      (∀ parts ∈ other, parts.Settled) → scan decimal descriptor.toList = other := by
    intro other otherSpells otherSettled
    rw [← otherSpells.letters_eq]
    apply scan_flatMap_letters digitClass _ otherSettled
    exact fun parts member => (otherSpells.fits parts member).mono digitClass
  have describes : Describes row descriptor.toList :=
    spells.isSome_mapM_element?_iff.mp (Option.isSome_iff_exists.mpr ⟨_, rowRead⟩)
  have small : ∀ parts ∈ row, parts.value < indexLimit := fun parts member =>
    parts.ofDigitChars_digits ▸ describes.small parts member
  refine ⟨row, ?_, rowRead, Parts.map_index_of_mapM_element? rowRead, small,
    scanned spells settled⟩
  intro other
  constructor
  · rintro ⟨otherDescribes, greedy⟩
    rw [← scanned spells settled, scanned otherDescribes.toSpells]
    exact fun parts member => (otherDescribes.fits parts member).greedy_iff_settled.mp
      (greedy parts member)
  · rintro rfl
    constructor
    · exact describes
    · exact fun parts member => (spells.fits parts member).greedy_iff_settled.mpr
        (settled parts member)

/-- Read a descriptor by means of the pattern: check the whole text, scan it and read the
parts that are found. -/
def scan? (decimal : Char → Bool) (descriptor : String) : Option Template :=
  if covers decimal descriptor.toList then
    ((scan decimal descriptor.toList).mapM Parts.element?).map fun elements =>
      { name := descriptor, elements }
  else none

theorem parse?_eq_scan? {decimal : Char → Bool} (digitClass : DigitClass decimal)
    (descriptor : String) : parse? descriptor = scan? decimal descriptor := by
  apply Option.ext
  intro template
  rw [parse?_eq_some_iff, elements?_eq_some_iff_scan digitClass]
  cases template with
  | mk name elements =>
    simp only [scan?, Option.ite_none_right_eq_some, Option.map_eq_some_iff, Template.mk.injEq]
    constructor
    · rintro ⟨rfl, covered, scanRead⟩
      exact ⟨covered, elements, scanRead, rfl, rfl⟩
    · rintro ⟨covered, _, scanRead, rfl, rfl⟩
      exact ⟨rfl, covered, scanRead⟩

theorem parse?_eq_none_of_mem {descriptor : String} {letter : Char}
    (member : letter ∈ descriptor.toList) (notDigit : letter.isDigit = false)
    (unlisted : letter ∉ sourceLetters ++ navigationLetters ++ propertyLetters) :
    parse? descriptor = none := by
  by_contra some
  rcases isSome_parse?_iff.mp (Option.isSome_iff_ne_none.mpr some) with ⟨row, describes⟩
  rcases describes.isDigit_or_mem member with digit | listed
  · rw [notDigit] at digit
    cases digit
  · exact unlisted listed

/-- A descriptor is read if and only if the grammar describes it; what is read is the one
division with navigation runs as long as possible, which is also what the element pattern
finds, whatever it takes for digits outside of ASCII.  The index of each element is the decimal
value of its digits and a 64-bit word. -/
theorem parse?_follows_grammar (decimal : Char → Bool) (digitClass : DigitClass decimal)
    (descriptor : String) :
    ((parse? descriptor).isSome = true ↔ ∃ row, Describes row descriptor.toList) ∧
      (∀ template, parse? descriptor = some template →
        template.name = descriptor ∧
          ∃ row, (∀ other,
              (Describes other descriptor.toList ∧ ∀ parts ∈ other, parts.Greedy) ↔
                other = row) ∧
            row.mapM Parts.element? = some template.elements ∧
            template.elements.map Element.index = row.map Parts.value ∧
            (∀ parts ∈ row, parts.value < 18446744073709551616) ∧
            scan decimal descriptor.toList = row) ∧
      parse? descriptor = scan? decimal descriptor ∧
      (∀ letter ∈ descriptor.toList, decimal letter = true → letter.isDigit = false →
        parse? descriptor = none) ∧
      (∀ text, descriptor = text ++ "\n" → parse? descriptor = none) ∧
      (descriptor = "" → parse? descriptor = none) := by
  refine ⟨isSome_parse?_iff, ?_, parse?_eq_scan? digitClass descriptor, ?_, ?_, ?_⟩
  · intro template read
    exact ⟨(parse?_eq_some_iff.mp read).1, exists_greedy_of_parse? digitClass read⟩
  · intro letter member digit notDigit
    apply parse?_eq_none_of_mem member notDigit
    intro listed
    rw [digitClass.eq_false_of_mem listed] at digit
    cases digit
  · rintro text rfl
    have member : '\n' ∈ (text ++ "\n").toList := by simp
    exact parse?_eq_none_of_mem member (by decide) (by decide)
  · rintro rfl
    rfl

/-- The ASCII digits and those of the Arabic script. -/
def arabicOrAscii (letter : Char) : Bool :=
  letter.isDigit || (decide ('\u0660' ≤ letter) && decide (letter ≤ '\u0669'))

theorem digitClass_arabicOrAscii : DigitClass arabicOrAscii := by
  intro letter small
  have below : ¬ '\u0660' ≤ letter := fun reached =>
    absurd (UInt32.lt_of_le_of_lt (Char.le_def.mp reached) small) (by decide)
  simp [arabicOrAscii, below]

/-- The shared letter is navigation at first and a property behind one, and a zero in front does
not change an index; an Arabic digit is covered by the pattern but not read. -/
theorem parse?_follows_grammar_arabicOrAscii :
    DigitClass arabicOrAscii ∧
      scan arabicOrAscii "s0pwpb012".toList =
        [⟨'s', ['0'], ['p'], ['w', 'p']⟩, ⟨'b', ['0', '1', '2'], [], []⟩] ∧
      (∃ template, parse? "s0pwpb012" = some template ∧
        template.elements =
          [⟨.stack, 0, [.parent], [.text, .separator]⟩, ⟨.buffer, 12, [], []⟩] ∧
        template.elements.map Element.index =
          (scan arabicOrAscii "s0pwpb012".toList).map Parts.value ∧
        (⟨'b', ['0', '1', '2'], [], []⟩ : Parts).value = 12) ∧
      covers arabicOrAscii "s\u0663w".toList = true ∧
      parse? "s\u0663w" = none := by
  let row : List Parts := [⟨'s', ['0'], ['p'], ['w', 'p']⟩, ⟨'b', ['0', '1', '2'], [], []⟩]
  have fits : ∀ parts ∈ row, parts.Fits Char.isDigit := by
    rw [List.forall_mem_cons, List.forall_mem_singleton]
    constructor
    · constructor <;> simp [sourceLetters, navigationLetters, propertyLetters]
    · constructor <;> simp [sourceLetters]
  have greedy : ∀ parts ∈ row, parts.Greedy := by
    intro parts member
    rw [(fits parts member).greedy_iff_settled]
    revert parts
    simp [row, Parts.Settled, navigationLetters]
  have describes : Describes row "s0pwpb012".toList :=
    { ne_nil := by decide, fits := fits, letters_eq := by decide, small := by decide }
  have read : parse? "s0pwpb012" = some
      { name := "s0pwpb012"
        elements := [⟨.stack, 0, [.parent], [.text, .separator]⟩, ⟨.buffer, 12, [], []⟩] } := by
    decide +kernel
  have ascii := parse?_follows_grammar arabicOrAscii digitClass_arabicOrAscii "s0pwpb012"
  have arabic := parse?_follows_grammar arabicOrAscii digitClass_arabicOrAscii "s\u0663w"
  rcases (ascii.2.1 _ read).2 with ⟨found, only, _, indices, _, scanned⟩
  refine ⟨digitClass_arabicOrAscii, ?_, ⟨_, read, rfl, ?_, by decide⟩, ?_, ?_⟩
  · rw [scanned]
    exact ((only row).mp ⟨describes, greedy⟩).symm
  · rw [scanned]
    exact indices
  · apply covers_iff_exists_spells.mpr
    refine ⟨[⟨'s', ['\u0663'], [], ['w']⟩], by decide, ?_, by decide⟩
    rw [List.forall_mem_singleton]
    constructor <;> simp [sourceLetters, propertyLetters, arabicOrAscii]
  · exact arabic.2.2.2.1 '\u0663' (by decide) (by decide) (by decide)

end Template

end TransitionFeatures
