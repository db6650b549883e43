/-!
# Feature templates

A feature template is a nonempty list of elements.  An element picks a focus
from one sequence of the parser state, walks from it through the annotation
graph and names the properties to read there.  Every source, navigation step
and property has a one-letter code; the letters of a template are its elements
written one after the other with decimal indices.

The code tables are injective, which `ofCode?_eq_some_iff` states for each of
the three alphabets.
-/

namespace TransitionFeatures

/-- The sequence of a parser state from which an element takes its focus. -/
inductive Source
  | stack
  | buffer
  | actions
  deriving DecidableEq

namespace Source

/-- The letter of a source. -/
def code : Source → Char
  | stack => 's'
  | buffer => 'b'
  | actions => 'a'

/-- The source with a given letter. -/
def ofCode? : Char → Option Source
  | 's' => some stack
  | 'b' => some buffer
  | 'a' => some actions
  | _ => none

@[simp]
theorem ofCode?_code (source : Source) : ofCode? source.code = some source := by
  cases source <;> rfl

theorem ofCode?_eq_some_iff {letter : Char} {source : Source} :
    ofCode? letter = some source ↔ letter = source.code := by
  constructor
  · intro read
    unfold ofCode? at read
    split at read <;> cases read <;> rfl
  · rintro rfl
    exact ofCode?_code source

/-- The name of a source in reports. -/
def name : Source → String
  | stack => "Stack"
  | buffer => "Buffer"
  | actions => "Actions"

end Source

/-- One step from a node to a relative. -/
inductive Navigation
  | leftmostChild
  | rightmostChild
  | onlyChild
  | parent
  deriving DecidableEq

namespace Navigation

/-- The letter of a navigation step. -/
def code : Navigation → Char
  | leftmostChild => 'l'
  | rightmostChild => 'r'
  | onlyChild => 'u'
  | parent => 'p'

/-- The navigation step with a given letter. -/
def ofCode? : Char → Option Navigation
  | 'l' => some leftmostChild
  | 'r' => some rightmostChild
  | 'u' => some onlyChild
  | 'p' => some parent
  | _ => none

@[simp]
theorem ofCode?_code (step : Navigation) : ofCode? step.code = some step := by
  cases step <;> rfl

theorem ofCode?_eq_some_iff {letter : Char} {step : Navigation} :
    ofCode? letter = some step ↔ letter = step.code := by
  constructor
  · intro read
    unfold ofCode? at read
    split at read <;> cases read <;> rfl
  · rintro rfl
    exact ofCode?_code step

end Navigation

/-- A value that can be read at a focus. -/
inductive Property
  /-- Text of the head terminal, or the kind of an action. -/
  | text
  /-- Part of speech of the head terminal. -/
  | partOfSpeech
  /-- Tag of the first incoming edge, or the tag of an action. -/
  | edgeTag
  /-- The one punctuation terminal between the two stack tops. -/
  | separator
  /-- Number of punctuation terminals between the two stack tops. -/
  | separatorCount
  /-- Gap type of the node. -/
  | gapType
  /-- Sum of the gap lengths of the node. -/
  | gapLengthSum
  /-- Number of incoming edges. -/
  | parentCount
  /-- Number of outgoing edges. -/
  | childCount
  /-- Number of outgoing edges to implicit units. -/
  | implicitCount
  /-- Number of remote outgoing edges. -/
  | remoteCount
  deriving DecidableEq

namespace Property

/-- The letter of a property. -/
def code : Property → Char
  | text => 'w'
  | partOfSpeech => 't'
  | edgeTag => 'e'
  | separator => 'p'
  | separatorCount => 'q'
  | gapType => 'x'
  | gapLengthSum => 'y'
  | parentCount => 'P'
  | childCount => 'C'
  | implicitCount => 'I'
  | remoteCount => 'R'

/-- The property with a given letter. -/
def ofCode? : Char → Option Property
  | 'w' => some text
  | 't' => some partOfSpeech
  | 'e' => some edgeTag
  | 'p' => some separator
  | 'q' => some separatorCount
  | 'x' => some gapType
  | 'y' => some gapLengthSum
  | 'P' => some parentCount
  | 'C' => some childCount
  | 'I' => some implicitCount
  | 'R' => some remoteCount
  | _ => none

@[simp]
theorem ofCode?_code (property : Property) :
    ofCode? property.code = some property := by
  cases property <;> rfl

theorem ofCode?_eq_some_iff {letter : Char} {property : Property} :
    ofCode? letter = some property ↔ letter = property.code := by
  constructor
  · intro read
    unfold ofCode? at read
    split at read <;> cases read <;> rfl
  · rintro rfl
    exact ofCode?_code property

/-- The name of a property in reports. -/
def name : Property → String
  | text => "Text"
  | partOfSpeech => "PosTag"
  | edgeTag => "EdgeTag"
  | separator => "Separator"
  | separatorCount => "SeparatorCount"
  | gapType => "GapType"
  | gapLengthSum => "GapLengthSum"
  | parentCount => "ParentCount"
  | childCount => "ChildCount"
  | implicitCount => "ImplicitCount"
  | remoteCount => "RemoteCount"

/-- The two properties that look at the punctuation between the stack tops. -/
def isSeparator : Property → Bool
  | separator | separatorCount => true
  | _ => false

end Property

/-- A focus and what to read from it.  Without properties an element stands
for its focus alone and is compared with the focus of its predecessor. -/
structure Element where
  source : Source
  /-- Distance from the near end of the source: the stack top, the next buffer
  item, the latest action. -/
  index : Nat
  navigation : List Navigation
  properties : List Property
  deriving DecidableEq

namespace Element

/-- An element without properties. -/
def isBare (element : Element) : Bool :=
  element.properties.isEmpty

/-- The letters of an element, its index in the fewest decimal digits. -/
def letters (element : Element) : List Char :=
  element.source.code :: (Nat.toDigits 10 element.index ++
    (element.navigation.map Navigation.code ++
      element.properties.map Property.code))

/-- The text of an element. -/
def display (element : Element) : String :=
  String.ofList element.letters

end Element

/-- The elements of a template and the descriptor that names it. -/
structure Template where
  name : String
  elements : List Element
  deriving DecidableEq

/-- The text of a template: its elements one after the other. -/
def Template.display (template : Template) : String :=
  String.ofList (template.elements.flatMap Element.letters)

end TransitionFeatures
