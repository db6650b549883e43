import Mathlib.Data.List.TakeWhile
import TransitionFeatures.Template.Descriptor

/-!
# The element pattern

As a pattern, an element is a source letter and three runs: digits, navigation letters
and property letters.  A matcher takes each run as long as possible at first and tries
shorter ones if what follows does not match.  The pattern is used in two ways: `covers`
asks whether a text is one match after another, and `scan` goes through a text and
collects the first match wherever there is one.

What counts as a digit is left open.  `scan_flatMap_letters` states that a scan finds
exactly the parts of which a text was made if every navigation run is as long as it
can be.
-/

namespace TransitionFeatures

/-! ## Letters and parts -/

/-- The letters of the sources. -/
def sourceLetters : List Char := ['s', 'b', 'a']

/-- The letters of the navigation steps. -/
def navigationLetters : List Char := ['l', 'r', 'u', 'p']

/-- The letters of the properties. -/
def propertyLetters : List Char := ['w', 't', 'e', 'p', 'q', 'x', 'y', 'P', 'C', 'I', 'R']

theorem source_not_mem_navigationLetters {letter : Char} (source : letter ∈ sourceLetters) :
    letter ∉ navigationLetters := by
  have apart : sourceLetters.all (!navigationLetters.contains ·) = true := by decide
  simpa using List.all_eq_true.mp apart letter source

theorem source_not_mem_propertyLetters {letter : Char} (source : letter ∈ sourceLetters) :
    letter ∉ propertyLetters := by
  have apart : sourceLetters.all (!propertyLetters.contains ·) = true := by decide
  simpa using List.all_eq_true.mp apart letter source

/-- A class of digits: among the ASCII characters it has the ten digits alone. -/
def DigitClass (decimal : Char → Bool) : Prop :=
  ∀ letter : Char, letter.val < 128 → decimal letter = letter.isDigit

theorem digitClass_isDigit : DigitClass Char.isDigit :=
  fun _ _ => rfl

namespace DigitClass

variable {decimal : Char → Bool} {letter : Char}

theorem of_isDigit (digitClass : DigitClass decimal) (digit : letter.isDigit = true) :
    decimal letter = true := by
  have small : letter.val < 128 := by
    simp only [Char.isDigit, ge_iff_le, Bool.and_eq_true, decide_eq_true_eq] at digit
    exact UInt32.lt_of_le_of_lt digit.2 (by decide)
  rw [digitClass letter small]
  exact digit

theorem eq_false_of_mem (digitClass : DigitClass decimal)
    (member : letter ∈ sourceLetters ++ navigationLetters ++ propertyLetters) :
    decimal letter = false := by
  have small : (sourceLetters ++ navigationLetters ++ propertyLetters).all
      (decide <| ·.val < 128) = true := by decide
  have plain : (sourceLetters ++ navigationLetters ++ propertyLetters).all
      (!·.isDigit) = true := by decide
  rw [digitClass letter (of_decide_eq_true (List.all_eq_true.mp small letter member))]
  simpa using List.all_eq_true.mp plain letter member

end DigitClass

/-- The four groups of the pattern. -/
structure Parts where
  source : Char
  digits : List Char
  navigation : List Char
  properties : List Char
  deriving DecidableEq

namespace Parts

/-- The letters of an element that is made of some parts. -/
def letters (parts : Parts) : List Char :=
  parts.source :: (parts.digits ++ (parts.navigation ++ parts.properties))

/-- Parts that match the pattern. -/
structure Fits (decimal : Char → Bool) (parts : Parts) : Prop where
  source_mem : parts.source ∈ sourceLetters
  digits_ne_nil : parts.digits ≠ []
  digits_decimal : ∀ letter ∈ parts.digits, decimal letter = true
  navigation_mem : ∀ letter ∈ parts.navigation, letter ∈ navigationLetters
  properties_mem : ∀ letter ∈ parts.properties, letter ∈ propertyLetters

/-- No other division of the same letters has a longer navigation run. -/
def Greedy (parts : Parts) : Prop :=
  ∀ other : Parts, other.Fits Char.isDigit → other.letters = parts.letters →
    other.navigation.length ≤ parts.navigation.length

theorem Fits.mono {decimal : Char → Bool} {parts : Parts} (digitClass : DigitClass decimal)
    (fits : parts.Fits Char.isDigit) : parts.Fits decimal :=
  { fits with
    digits_decimal := fun letter member =>
      digitClass.of_isDigit (fits.digits_decimal letter member) }

end Parts

/-- A text is made of one element or more with the given parts. -/
structure Spells (decimal : Char → Bool) (row : List Parts) (text : List Char) : Prop where
  ne_nil : row ≠ []
  fits : ∀ parts ∈ row, parts.Fits decimal
  letters_eq : row.flatMap Parts.letters = text

/-! ## Matching -/

/-- The runs of accepted letters that begin a text, each with what is left, the longest
first. -/
def runs (accepts : Char → Bool) : List Char → List (List Char × List Char)
  | [] => [([], [])]
  | letter :: rest =>
    if accepts letter then
      (runs accepts rest).map (fun (run, left) => (letter :: run, left)) ++
        [([], letter :: rest)]
    else [([], letter :: rest)]

theorem mem_runs {accepts : Char → Bool} {text run left : List Char} :
    (run, left) ∈ runs accepts text ↔
      run ++ left = text ∧ ∀ letter ∈ run, accepts letter = true := by
  induction text generalizing run with
  | nil =>
    simp only [runs, List.mem_singleton, Prod.mk.injEq, List.append_eq_nil_iff]
    constructor
    · rintro ⟨rfl, rfl⟩
      exact ⟨⟨rfl, rfl⟩, nofun⟩
    · exact And.left
  | cons letter rest inductionHypothesis =>
    cases run with
    | nil =>
      by_cases accepted : accepts letter = true <;> simp [runs, accepted]
    | cons first later =>
      by_cases accepted : accepts letter = true
      · simp only [runs, accepted, if_true, List.mem_append, List.mem_map, Prod.mk.injEq,
          Prod.exists, List.cons.injEq, List.mem_singleton, reduceCtorEq, false_and, or_false,
          List.cons_append, List.forall_mem_cons]
        constructor
        · rintro ⟨run, left, member, ⟨rfl, rfl⟩, rfl⟩
          have parted := inductionHypothesis.mp member
          exact ⟨⟨rfl, parted.1⟩, accepted, parted.2⟩
        · rintro ⟨⟨rfl, parted⟩, _, allAccepted⟩
          exact ⟨later, left, inductionHypothesis.mpr ⟨parted, allAccepted⟩, ⟨rfl, rfl⟩, rfl⟩
      · simp only [runs, accepted, if_false, List.mem_singleton, Prod.mk.injEq, reduceCtorEq,
          false_and, List.cons_append, List.cons.injEq, List.forall_mem_cons, false_iff]
        rintro ⟨⟨rfl, _⟩, refused, _⟩
        exact accepted refused

theorem exists_runs_eq (accepts : Char → Bool) (text : List Char) :
    ∃ shorter, runs accepts text =
      (text.takeWhile accepts, text.dropWhile accepts) :: shorter := by
  induction text with
  | nil => exact ⟨[], rfl⟩
  | cons letter rest inductionHypothesis =>
    rcases inductionHypothesis with ⟨shorter, runsEq⟩
    by_cases accepted : accepts letter = true
    · simp [runs, accepted, runsEq]
    · simp [runs, accepted]

/-- The matches of the pattern at the start of a text, each with what is left, in the
order in which they are tried. -/
def matchesAt (decimal : Char → Bool) : List Char → List (Parts × List Char)
  | [] => []
  | source :: text =>
    if source ∈ sourceLetters then
      ((runs decimal text).filter fun (digits, _) => !digits.isEmpty).flatMap
        fun (digits, afterDigits) =>
          (runs navigationLetters.contains afterDigits).flatMap
            fun (navigation, afterNavigation) =>
              (runs propertyLetters.contains afterNavigation).map
                fun (properties, left) => ({ source, digits, navigation, properties }, left)
    else []

/-- A match divides what it covers into parts that fit. -/
theorem mem_matchesAt {decimal : Char → Bool} {text left : List Char} {parts : Parts} :
    (parts, left) ∈ matchesAt decimal text ↔
      parts.Fits decimal ∧ parts.letters ++ left = text := by
  cases text with
  | nil => simp [matchesAt, Parts.letters]
  | cons source text =>
    by_cases known : source ∈ sourceLetters
    · simp only [matchesAt, known, if_true, List.mem_flatMap, List.mem_filter, List.mem_map,
        Prod.exists, mem_runs, List.contains_iff_mem, Prod.mk.injEq, Bool.not_eq_true',
        List.isEmpty_eq_false_iff]
      constructor
      · rintro ⟨digits, _, ⟨⟨rfl, decimals⟩, nonempty⟩, navigation, _, ⟨rfl, steps⟩,
          properties, _, ⟨rfl, names⟩, rfl, rfl⟩
        exact ⟨⟨known, nonempty, decimals, steps, names⟩, by simp [Parts.letters]⟩
      · rintro ⟨fits, lettersEq⟩
        cases parts with
        | mk first digits navigation properties =>
          simp only [Parts.letters, List.cons_append, List.cons.injEq, List.append_assoc]
            at lettersEq
          rcases lettersEq with ⟨rfl, rfl⟩
          exact ⟨digits, _, ⟨⟨rfl, fits.digits_decimal⟩, fits.digits_ne_nil⟩, navigation, _,
            ⟨rfl, fits.navigation_mem⟩, properties, _, ⟨rfl, fits.properties_mem⟩, rfl, rfl⟩
    · simp only [matchesAt, known, if_false, List.not_mem_nil, false_iff]
      rintro ⟨fits, lettersEq⟩
      simp only [Parts.letters, List.cons_append, List.cons.injEq] at lettersEq
      exact known (lettersEq.1 ▸ fits.source_mem)

/-- What is left after a match is shorter. -/
theorem length_lt_of_mem_matchesAt {decimal : Char → Bool} {text left : List Char}
    {parts : Parts} (found : (parts, left) ∈ matchesAt decimal text) :
    left.length < text.length := by
  rw [← (mem_matchesAt.mp found).2, List.length_append, Parts.letters, List.length_cons]
  omega

/-- The match that is tried first takes every run as long as possible. -/
theorem head?_matchesAt {decimal : Char → Bool} {source : Char} {text : List Char}
    (known : source ∈ sourceLetters) (nonempty : text.takeWhile decimal ≠ []) :
    (matchesAt decimal (source :: text)).head? =
      let afterDigits := text.dropWhile decimal
      let afterNavigation := afterDigits.dropWhile navigationLetters.contains
      some ({ source, digits := text.takeWhile decimal
              navigation := afterDigits.takeWhile navigationLetters.contains
              properties := afterNavigation.takeWhile propertyLetters.contains },
            afterNavigation.dropWhile propertyLetters.contains) := by
  rcases exists_runs_eq decimal text with ⟨_, digitRuns⟩
  rcases exists_runs_eq navigationLetters.contains (text.dropWhile decimal) with
    ⟨_, navigationRuns⟩
  rcases exists_runs_eq propertyLetters.contains
    ((text.dropWhile decimal).dropWhile navigationLetters.contains) with ⟨_, propertyRuns⟩
  simp [matchesAt, known, digitRuns, navigationRuns, propertyRuns, nonempty]

/-- Whether a text is one match of the pattern or several, one after the other. -/
def covers (decimal : Char → Bool) (text : List Char) : Bool :=
  (matchesAt decimal text).attach.any fun ⟨(_, left), _⟩ => left.isEmpty || covers decimal left
termination_by text.length
decreasing_by exact length_lt_of_mem_matchesAt ‹_›

theorem covers_eq_true_iff {decimal : Char → Bool} {text : List Char} :
    covers decimal text = true ↔
      ∃ parts left, (parts, left) ∈ matchesAt decimal text ∧
        (left = [] ∨ covers decimal left = true) := by
  rw [covers]
  simp

/-- A text is covered if and only if it is made of parts that fit. -/
theorem covers_iff_exists_spells {decimal : Char → Bool} {text : List Char} :
    covers decimal text = true ↔ ∃ row, Spells decimal row text := by
  constructor
  · intro covered
    induction size : text.length using Nat.strongRecOn generalizing text with
    | ind size inductionHypothesis =>
      subst size
      rcases covers_eq_true_iff.mp covered with ⟨parts, left, found, finished | coveredLeft⟩
      · rcases mem_matchesAt.mp found with ⟨fits, lettersEq⟩
        subst finished
        exact ⟨[parts], by simp, by simpa using fits, by simpa using lettersEq⟩
      · rcases mem_matchesAt.mp found with ⟨fits, lettersEq⟩
        have shorter := length_lt_of_mem_matchesAt found
        rcases inductionHypothesis left.length shorter coveredLeft rfl with ⟨row, spells⟩
        refine ⟨parts :: row, by simp, ?_, ?_⟩
        · exact List.forall_mem_cons.mpr ⟨fits, spells.fits⟩
        · rw [List.flatMap_cons, spells.letters_eq, lettersEq]
  · rintro ⟨row, spells⟩
    induction row generalizing text with
    | nil => exact absurd rfl spells.ne_nil
    | cons parts rest inductionHypothesis =>
      rw [covers_eq_true_iff]
      have fits := List.forall_mem_cons.mp spells.fits
      have lettersEq := spells.letters_eq
      rw [List.flatMap_cons] at lettersEq
      refine ⟨parts, rest.flatMap Parts.letters, mem_matchesAt.mpr ⟨fits.1, lettersEq⟩, ?_⟩
      by_cases last : rest = []
      · subst last
        exact Or.inl rfl
      · exact Or.inr (inductionHypothesis ⟨last, fits.2, rfl⟩)

/-- The first match of the pattern at every place of a text where there is one, going on
behind each match. -/
def scan (decimal : Char → Bool) : List Char → List Parts
  | [] => []
  | letter :: rest =>
    match _first : (matchesAt decimal (letter :: rest)).head? with
    | none => scan decimal rest
    | some (parts, left) => parts :: scan decimal left
termination_by text => text.length
decreasing_by
  · exact Nat.lt_succ_self _
  · exact length_lt_of_mem_matchesAt (List.mem_of_head? ‹_›)

theorem scan_of_head? {decimal : Char → Bool} {text left : List Char} {parts : Parts}
    (first : (matchesAt decimal text).head? = some (parts, left)) :
    scan decimal text = parts :: scan decimal left := by
  cases text with
  | nil => cases first
  | cons letter rest =>
    rw [scan]
    split
    · rename_i none
      rw [none] at first
      cases first
    · rename_i found
      rw [found] at first
      cases first
      rfl

/-! ## Greedy division -/

section Run

variable {accepts : Char → Bool} {run rest : List Char}

theorem takeWhile_append_of_stop (accepted : ∀ letter ∈ run, accepts letter = true)
    (stop : ∀ letter ∈ rest.head?, accepts letter = false) :
    (run ++ rest).takeWhile accepts = run := by
  rw [List.takeWhile_append_of_pos accepted]
  cases rest with
  | nil => simp
  | cons letter later => simp [stop letter rfl]

theorem dropWhile_append_of_stop (accepted : ∀ letter ∈ run, accepts letter = true)
    (stop : ∀ letter ∈ rest.head?, accepts letter = false) :
    (run ++ rest).dropWhile accepts = rest := by
  rw [List.dropWhile_append_of_pos accepted]
  cases rest with
  | nil => simp
  | cons letter later => simp [stop letter rfl]

theorem forall_head?_append {holds : Char → Prop} (first : ∀ letter ∈ run.head?, holds letter)
    (second : ∀ letter ∈ rest.head?, holds letter) :
    ∀ letter ∈ (run ++ rest).head?, holds letter := by
  cases run with
  | nil => exact second
  | cons letter later => exact first

end Run

namespace Parts

/-- The property run does not begin with a letter that could still be navigation. -/
def Settled (parts : Parts) : Prop :=
  ∀ letter ∈ parts.properties.head?, letter ∉ navigationLetters

/-- The letters after the digits are not digits. -/
theorem Fits.head?_not_decimal {decimal : Char → Bool} {parts : Parts}
    (digitClass : DigitClass decimal) (fits : parts.Fits decimal) :
    ∀ letter ∈ (parts.navigation ++ parts.properties).head?, decimal letter = false := by
  apply forall_head?_append
  · intro letter first
    have navigation := fits.navigation_mem letter (List.mem_of_head? first)
    exact digitClass.eq_false_of_mem (by simp [navigation])
  · intro letter first
    have property := fits.properties_mem letter (List.mem_of_head? first)
    exact digitClass.eq_false_of_mem (by simp [property])

theorem Settled.contains_eq_false {parts : Parts} (settled : parts.Settled) :
    ∀ letter ∈ parts.properties.head?, navigationLetters.contains letter = false := by
  intro letter first
  simpa using settled letter first

/-- A division is greedy if and only if the shared letter begins no property run: it is
a property only after a letter that is one and no navigation. -/
theorem Fits.greedy_iff_settled {parts : Parts} (fits : parts.Fits Char.isDigit) :
    parts.Greedy ↔ parts.Settled := by
  constructor
  · intro greedy letter first navigation
    cases properties : parts.properties with
    | nil => simp [properties] at first
    | cons shared later =>
      have sharedEq : shared = letter := by simpa [properties] using first
      subst sharedEq
      have names := fits.properties_mem
      rw [properties, List.forall_mem_cons] at names
      let other : Parts :=
        { parts with navigation := parts.navigation ++ [shared], properties := later }
      have otherFits : other.Fits Char.isDigit :=
        { fits with
          navigation_mem := List.forall_mem_append.mpr
            ⟨fits.navigation_mem, List.forall_mem_singleton.mpr navigation⟩
          properties_mem := names.2 }
      have sameLetters : other.letters = parts.letters := by
        simp [other, letters, properties]
      have longer : parts.navigation.length + 1 ≤ parts.navigation.length := by
        simpa [other] using greedy other otherFits sameLetters
      exact Nat.not_succ_le_self _ longer
  · intro settled other otherFits sameLetters
    simp only [letters, List.cons.injEq] at sameLetters
    have afterDigits := congrArg (List.dropWhile Char.isDigit) sameLetters.2
    rw [dropWhile_append_of_stop otherFits.digits_decimal
        (otherFits.head?_not_decimal digitClass_isDigit),
      dropWhile_append_of_stop fits.digits_decimal
        (fits.head?_not_decimal digitClass_isDigit)] at afterDigits
    have steps := congrArg (List.takeWhile navigationLetters.contains) afterDigits
    rw [List.takeWhile_append_of_pos (by simpa using otherFits.navigation_mem),
      takeWhile_append_of_stop (by simpa using fits.navigation_mem)
        settled.contains_eq_false] at steps
    rw [← steps, List.length_append]
    exact Nat.le_add_right _ _

/-- The division that gives to navigation whatever it can have. -/
def regroup (parts : Parts) : Parts :=
  { parts with
    navigation := parts.navigation ++ parts.properties.takeWhile navigationLetters.contains
    properties := parts.properties.dropWhile navigationLetters.contains }

@[simp]
theorem letters_regroup (parts : Parts) : parts.regroup.letters = parts.letters := by
  simp [regroup, letters]

theorem Fits.regroup {decimal : Char → Bool} {parts : Parts} (fits : parts.Fits decimal) :
    parts.regroup.Fits decimal :=
  { fits with
    navigation_mem := by
      intro letter member
      rcases List.mem_append.mp member with navigation | shared
      · exact fits.navigation_mem letter navigation
      · simpa using List.mem_takeWhile_imp shared
    properties_mem := by
      intro letter member
      exact fits.properties_mem letter ((List.dropWhile_sublist _).mem member) }

theorem settled_regroup (parts : Parts) : parts.regroup.Settled := by
  intro letter first
  have stop := List.head?_dropWhile_not navigationLetters.contains parts.properties
  change letter ∈ (parts.properties.dropWhile navigationLetters.contains).head? at first
  rw [Option.mem_def.mp first] at stop
  simpa using stop

end Parts

/-- A text that is made of elements is made of settled ones. -/
theorem Spells.regroup {decimal : Char → Bool} {row : List Parts} {text : List Char}
    (spells : Spells decimal row text) : Spells decimal (row.map Parts.regroup) text where
  ne_nil := by simpa using spells.ne_nil
  fits := by
    intro parts member
    rcases List.mem_map.mp member with ⟨original, originalMember, rfl⟩
    exact (spells.fits original originalMember).regroup
  letters_eq := by
    rw [List.flatMap_map]
    simpa only [Parts.letters_regroup] using spells.letters_eq

theorem forall_settled_map_regroup (row : List Parts) :
    ∀ parts ∈ row.map Parts.regroup, parts.Settled := by
  intro parts member
  rcases List.mem_map.mp member with ⟨original, _, rfl⟩
  exact original.settled_regroup

/-- What follows an element, if anything, is a source letter. -/
theorem head?_flatMap_letters {decimal : Char → Bool} {row : List Parts}
    (fits : ∀ parts ∈ row, parts.Fits decimal) :
    ∀ letter ∈ (row.flatMap Parts.letters).head?, letter ∈ sourceLetters := by
  cases row with
  | nil => simp
  | cons parts rest =>
    intro letter first
    have letterEq : parts.source = letter := by simpa [Parts.letters] using first
    rw [← letterEq]
    exact (fits parts List.mem_cons_self).source_mem

/-- The match that is tried first at a settled element is that element. -/
theorem head?_matchesAt_letters {decimal : Char → Bool} (digitClass : DigitClass decimal)
    {parts : Parts} (fits : parts.Fits decimal) (settled : parts.Settled) {rest : List Char}
    (source : ∀ letter ∈ rest.head?, letter ∈ sourceLetters) :
    (matchesAt decimal (parts.letters ++ rest)).head? = some (parts, rest) := by
  have digitStop : ∀ letter ∈ (parts.navigation ++ (parts.properties ++ rest)).head?,
      decimal letter = false := by
    rw [← List.append_assoc]
    apply forall_head?_append (fits.head?_not_decimal digitClass)
    intro letter first
    exact digitClass.eq_false_of_mem (by simp [source letter first])
  have navigationStop : ∀ letter ∈ (parts.properties ++ rest).head?,
      navigationLetters.contains letter = false := by
    apply forall_head?_append settled.contains_eq_false
    intro letter first
    simpa using source_not_mem_navigationLetters (source letter first)
  have propertyStop : ∀ letter ∈ rest.head?, propertyLetters.contains letter = false := by
    intro letter first
    simpa using source_not_mem_propertyLetters (source letter first)
  have steps : ∀ letter ∈ parts.navigation, navigationLetters.contains letter = true := by
    simpa using fits.navigation_mem
  have names : ∀ letter ∈ parts.properties, propertyLetters.contains letter = true := by
    simpa using fits.properties_mem
  have digitRun := takeWhile_append_of_stop fits.digits_decimal digitStop
  simp only [Parts.letters, List.cons_append, List.append_assoc]
  rw [head?_matchesAt fits.source_mem (by rw [digitRun]; exact fits.digits_ne_nil)]
  simp only [digitRun, dropWhile_append_of_stop fits.digits_decimal digitStop,
    takeWhile_append_of_stop steps navigationStop, dropWhile_append_of_stop steps navigationStop,
    takeWhile_append_of_stop names propertyStop, dropWhile_append_of_stop names propertyStop]

/-- A scan finds the settled elements that a text is made of. -/
theorem scan_flatMap_letters {decimal : Char → Bool} (digitClass : DigitClass decimal)
    {row : List Parts} (fits : ∀ parts ∈ row, parts.Fits decimal)
    (settled : ∀ parts ∈ row, parts.Settled) :
    scan decimal (row.flatMap Parts.letters) = row := by
  induction row with
  | nil => rw [List.flatMap_nil, scan]
  | cons parts rest inductionHypothesis =>
    rw [List.forall_mem_cons] at fits settled
    rw [List.flatMap_cons, scan_of_head? (head?_matchesAt_letters digitClass fits.1 settled.1
      (head?_flatMap_letters fits.2)), inductionHypothesis fits.2 settled.2]

end TransitionFeatures
