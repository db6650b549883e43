/-!
# Edge tags

The labels of the foundational annotation layer and the order in which they
compete for the head of a unit.  Edges may carry any other text as their tag;
such tags rank with the first one.
-/

namespace TransitionFeatures.EdgeTag

/-- The centre of a unit. -/
def center : String := "C"

/-- A word that joins centres. -/
def connector : String := "N"

/-- One of several scenes side by side. -/
def parallelScene : String := "H"

/-- The main relation of a scene in motion. -/
def process : String := "P"

/-- The main relation of a scene at rest. -/
def state : String := "S"

/-- What takes part in a scene. -/
def participant : String := "A"

/-- What modifies a scene. -/
def adverbial : String := "D"

/-- When a scene takes place. -/
def time : String := "T"

/-- What modifies a centre. -/
def elaborator : String := "E"

/-- A word that relates a unit to another. -/
def relator : String := "R"

/-- A word without a relation of its own. -/
def function : String := "F"

/-- A word that joins scenes. -/
def linker : String := "L"

/-- The relation between joined scenes. -/
def linkRelation : String := "LR"

/-- One of the joined scenes. -/
def linkArgument : String := "LA"

/-- What relates a scene to its utterance. -/
def ground : String := "G"

/-- From a unit to its token. -/
def terminal : String := "Terminal"

/-- From a unit to a punctuation mark. -/
def punctuation : String := "U"

/-- The listed tags, the strongest claim to the head first. -/
def headOrder : List String :=
  [center, connector, parallelScene, process, state, participant, adverbial, time,
    elaborator, relator, function, linker, linkRelation, linkArgument, ground,
    terminal, punctuation]

/-- The place of a tag in `headOrder`; an unlisted tag ranks with the first. -/
def headRank (tag : String) : Nat :=
  (headOrder.idxOf? tag).getD 0

/-- A listed tag ranks by its place. -/
theorem headRank_of_getElem? {place : Nat} {tag : String}
    (listed : headOrder[place]? = some tag) : headRank tag = place := by
  have distinct : headOrder.Nodup := by decide
  obtain ⟨bound, rfl⟩ := List.getElem?_eq_some_iff.mp listed
  have first : headOrder.idxOf? headOrder[place] = some place :=
    List.idxOf?_eq_some_iff.mpr ⟨bound, rfl, fun other earlier =>
      List.pairwise_iff_getElem.mp distinct other place _ bound earlier⟩
  rw [headRank, first, Option.getD_some]

theorem headRank_of_not_mem {tag : String} (unlisted : tag ∉ headOrder) :
    headRank tag = 0 := by
  simp [headRank, List.idxOf?_eq_none_iff.mpr unlisted]

end TransitionFeatures.EdgeTag
