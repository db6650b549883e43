import TransitionFeatures.Template.Core

/-!
# Reading descriptors

A descriptor is one element after the other.  Source letters occur in no other
place of an element, so they alone show where each element begins: `pieces`
cuts the text before every source letter and `Element.ofLetters?` reads the rest
of one piece.  An element is its index in decimal digits, the longest run of
navigation letters and then property letters up to the end of the piece; the
letter shared by both alphabets is therefore navigation unless a property letter
comes before it.
-/

namespace TransitionFeatures

/-- Element indices are 64-bit words: this is the sixty-fourth power of two. -/
def indexLimit : Nat := 18446744073709551616

/-- The value of a nonempty run of decimal digits below `indexLimit`. -/
def index? (digits : List Char) : Option Nat :=
  if digits.isEmpty then none
  else
    let value := Nat.ofDigitChars 10 digits 0
    if value < indexLimit then some value else none

theorem index?_eq_some_iff {digits : List Char} {index : Nat} :
    index? digits = some index ↔
      digits ≠ [] ∧ Nat.ofDigitChars 10 digits 0 = index ∧ index < indexLimit := by
  unfold index?
  by_cases empty : digits = []
  · simp [empty]
  · by_cases small : Nat.ofDigitChars 10 digits 0 < indexLimit
    · simp only [List.isEmpty_iff, empty, if_false, small, if_true,
        Option.some.injEq, ne_eq, not_false_eq_true, true_and]
      exact ⟨fun equal => ⟨equal, equal ▸ small⟩, And.left⟩
    · simp only [List.isEmpty_iff, empty, if_false, small, ne_eq,
        not_false_eq_true, true_and]
      exact ⟨nofun, fun ⟨equal, bound⟩ => absurd (equal ▸ bound) small⟩

/-- The longest run at the start of a text that `read` accepts letter by letter,
and the text after it. -/
def longestRun {α : Type} (read : Char → Option α) : List Char → List α × List Char
  | [] => ([], [])
  | letter :: rest =>
    match read letter with
    | none => ([], letter :: rest)
    | some item =>
      let (items, remaining) := longestRun read rest
      (item :: items, remaining)

@[simp]
theorem longestRun_nil {α : Type} (read : Char → Option α) :
    longestRun read [] = ([], []) :=
  rfl

theorem longestRun_cons_some {α : Type} {read : Char → Option α} {letter : Char}
    {item : α} (accepted : read letter = some item) (rest : List Char) :
    longestRun read (letter :: rest) =
      (item :: (longestRun read rest).1, (longestRun read rest).2) := by
  simp [longestRun, accepted]

theorem longestRun_cons_none {α : Type} {read : Char → Option α} {letter : Char}
    (refused : read letter = none) (rest : List Char) :
    longestRun read (letter :: rest) = ([], letter :: rest) := by
  simp [longestRun, refused]

/-- Read what follows the source letter of an element, up to the end. -/
def Element.ofLetters? (source : Source) (letters : List Char) : Option Element := do
  let index ← index? (letters.takeWhile Char.isDigit)
  let (navigation, later) :=
    longestRun Navigation.ofCode? (letters.dropWhile Char.isDigit)
  let (properties, unread) := longestRun Property.ofCode? later
  if unread.isEmpty then some { source, index, navigation, properties } else none

/-- Cut a text before every source letter: the letters before the first one, and
for each of them the source with the letters up to the next. -/
def pieces : List Char → List Char × List (Source × List Char)
  | [] => ([], [])
  | letter :: rest =>
    let (lead, later) := pieces rest
    match Source.ofCode? letter with
    | some source => ([], (source, lead) :: later)
    | none => (letter :: lead, later)

@[simp]
theorem pieces_nil : pieces [] = ([], []) :=
  rfl

@[simp]
theorem pieces_cons_code (source : Source) (rest : List Char) :
    pieces (source.code :: rest) =
      ([], (source, (pieces rest).1) :: (pieces rest).2) := by
  simp [pieces]

theorem pieces_cons_none {letter : Char} (refused : Source.ofCode? letter = none)
    (rest : List Char) :
    pieces (letter :: rest) = (letter :: (pieces rest).1, (pieces rest).2) := by
  simp [pieces, refused]

/-- Read the elements of a descriptor; at least one is required. -/
def elements? (letters : List Char) : Option (List Element) :=
  match pieces letters with
  | ([], first :: later) =>
    (first :: later).mapM fun (source, rest) => Element.ofLetters? source rest
  | _ => none

/-- Read a descriptor. -/
def Template.parse? (descriptor : String) : Option Template :=
  (elements? descriptor.toList).map fun elements => { name := descriptor, elements }

theorem Template.parse?_eq_some_iff {descriptor : String} {template : Template} :
    parse? descriptor = some template ↔
      template.name = descriptor ∧
        elements? descriptor.toList = some template.elements := by
  cases template with
  | mk name elements =>
    simp only [parse?, Option.map_eq_some_iff, Template.mk.injEq]
    constructor
    · rintro ⟨_, read, rfl, rfl⟩
      exact ⟨rfl, read⟩
    · rintro ⟨rfl, read⟩
      exact ⟨elements, read, rfl, rfl⟩

end TransitionFeatures
