import Mathlib.Data.List.Forall2

/-!
# Results

A computation that can fail gives a result: a value or an error.  This module says how
results in sequence and results of a row of items come about, and how a property of all
values and errors passes through both: `Ends`.
-/

namespace TransitionFeatures

variable {ε α β : Type}

/-! ## One result after another -/

theorem bind_eq_ok_iff {result : Except ε α} {later : α → Except ε β} {value : β} :
    result.bind later = .ok value ↔
      ∃ first, result = .ok first ∧ later first = .ok value := by
  cases result <;> simp [Except.bind]

theorem map_eq_ok_iff {result : Except ε α} {change : α → β} {value : β} :
    result.map change = .ok value ↔ ∃ first, result = .ok first ∧ change first = value := by
  cases result <;> simp [Except.map]

/-- In every context, what comes after a value goes on with it. -/
theorem liftM_ok_bind {m : Type → Type} [Monad m] [LawfulMonad m] {ε α β : Type} (value : α)
    (later : α → ExceptT ε m β) :
    liftM (Except.ok value : Except ε α) >>= later = later value :=
  pure_bind value later

/-- Nothing comes after an error. -/
theorem liftM_error_bind {m : Type → Type} [Monad m] [LawfulMonad m] {ε α β : Type} (error : ε)
    (later : α → ExceptT ε m β) :
    liftM (Except.error error : Except ε α) >>= later = throw error :=
  ExceptT.ext (pure_bind (Except.error error) _)

/-! ## Results in a row -/

theorem mapM_cons_eq_ok_iff {find : α → Except ε β} {first : α} {rest : List α}
    {values : List β} :
    (first :: rest).mapM find = .ok values ↔
      ∃ value others, find first = .ok value ∧ rest.mapM find = .ok others ∧
        values = value :: others := by
  rw [List.mapM_cons]
  cases find first with
  | error error => simp [bind, Except.bind]
  | ok value =>
    cases rest.mapM find with
    | error error => simp [bind, Except.bind]
    | ok others => simp [bind, Except.bind, pure, Except.pure, eq_comm]

/-- A row of look-ups succeeds if and only if the single ones do. -/
theorem exists_mapM_eq_ok_iff {find : α → Except ε β} {items : List α} :
    (∃ values, items.mapM find = .ok values) ↔
      ∀ item ∈ items, ∃ value, find item = .ok value := by
  induction items with
  | nil => exact ⟨nofun, fun _ => ⟨[], rfl⟩⟩
  | cons first rest inductionHypothesis =>
    rw [List.forall_mem_cons, ← inductionHypothesis]
    constructor
    · rintro ⟨values, found⟩
      rcases mapM_cons_eq_ok_iff.mp found with ⟨value, others, firstFound, restFound, _⟩
      exact ⟨⟨value, firstFound⟩, ⟨others, restFound⟩⟩
    · rintro ⟨⟨value, firstFound⟩, ⟨others, restFound⟩⟩
      exact ⟨_, mapM_cons_eq_ok_iff.mpr ⟨value, others, firstFound, restFound, rfl⟩⟩

/-- The values of a row are those of its items. -/
theorem mem_iff_of_mapM_eq_ok {find : α → Except ε β} {items : List α} {values : List β}
    (found : items.mapM find = .ok values) {value : β} :
    value ∈ values ↔ ∃ item ∈ items, find item = .ok value := by
  induction items generalizing values with
  | nil =>
    cases found
    simp
  | cons first rest inductionHypothesis =>
    rcases mapM_cons_eq_ok_iff.mp found with ⟨firstValue, others, firstFound, restFound, rfl⟩
    rw [List.mem_cons, inductionHypothesis restFound]
    simp [firstFound, eq_comm]

/-- A row of look-ups sifted afterwards is as long as the row sifted beforehand. -/
theorem length_filter_of_mapM_eq_ok {find : α → Except ε β} {test : β → Bool}
    {itemTest : α → Bool} {items : List α} {values : List β}
    (found : items.mapM find = .ok values)
    (same : ∀ item value, find item = .ok value → itemTest item = test value) :
    (values.filter test).length = (items.filter itemTest).length := by
  induction items generalizing values with
  | nil =>
    cases found
    rfl
  | cons first rest inductionHypothesis =>
    obtain ⟨value, others, firstFound, restFound, rfl⟩ := mapM_cons_eq_ok_iff.mp found
    rw [List.filter_cons, List.filter_cons, same first value firstFound]
    have restSame := inductionHypothesis restFound
    split
    · rw [List.length_cons, List.length_cons, restSame]
    · exact restSame

/-- A row has the values that its items have one by one. -/
theorem mapM_eq_ok_iff_forall₂ {find : α → Except ε β} {items : List α} {values : List β} :
    items.mapM find = .ok values ↔
      List.Forall₂ (fun item value => find item = .ok value) items values := by
  induction items generalizing values with
  | nil => simp [pure, Except.pure, eq_comm]
  | cons first rest inductionHypothesis =>
    rw [mapM_cons_eq_ok_iff, List.forall₂_cons_left_iff]
    simp only [inductionHypothesis]

theorem length_eq_of_mapM_eq_ok {find : α → Except ε β} {items : List α} {values : List β}
    (found : items.mapM find = .ok values) : values.length = items.length :=
  (mapM_eq_ok_iff_forall₂.mp found).length_eq.symm

/-- A row of look-ups keeps its values if the single ones do. -/
theorem mapM_eq_ok_of_imp {find otherFind : α → Except ε β} {items : List α}
    {values : List β}
    (keeps : ∀ item ∈ items, ∀ value, find item = .ok value → otherFind item = .ok value)
    (found : items.mapM find = .ok values) : items.mapM otherFind = .ok values := by
  induction items generalizing values with
  | nil => exact found
  | cons first rest inductionHypothesis =>
    rw [List.forall_mem_cons] at keeps
    rcases mapM_cons_eq_ok_iff.mp found with ⟨value, others, firstFound, restFound, rfl⟩
    exact mapM_cons_eq_ok_iff.mpr
      ⟨value, others, keeps.1 value firstFound, inductionHypothesis keeps.2 restFound, rfl⟩

/-- Rows of look-ups whose values look alike one by one look alike. -/
theorem exists_mapM_eq_ok_of_alike {γ : Type} {find otherFind : α → Except ε β} {view : β → γ}
    {items : List α} {values : List β}
    (alike : ∀ item value, find item = .ok value →
      ∃ other, otherFind item = .ok other ∧ view other = view value)
    (found : items.mapM find = .ok values) :
    ∃ others, items.mapM otherFind = .ok others ∧ others.map view = values.map view := by
  induction items generalizing values with
  | nil =>
    cases found
    exact ⟨[], rfl, rfl⟩
  | cons first rest inductionHypothesis =>
    obtain ⟨value, later, firstFound, restFound, rfl⟩ := mapM_cons_eq_ok_iff.mp found
    obtain ⟨other, otherFound, same⟩ := alike first value firstFound
    obtain ⟨others, othersFound, sameLater⟩ := inductionHypothesis restFound
    refine ⟨other :: others,
      mapM_cons_eq_ok_iff.mpr ⟨other, others, otherFound, othersFound, rfl⟩, ?_⟩
    rw [List.map_cons, List.map_cons, same, sameLater]

theorem mapM_congr {find otherFind : α → Except ε β} {items : List α}
    (alike : ∀ item ∈ items, find item = otherFind item) :
    items.mapM find = items.mapM otherFind := by
  induction items with
  | nil => rfl
  | cons first rest inductionHypothesis =>
    rw [List.forall_mem_cons] at alike
    rw [List.mapM_cons, List.mapM_cons, alike.1, inductionHypothesis alike.2]

/-! ## Properties of results -/

/-- A computation gives a value with a property or an error with another one. -/
def Ends (property : α → Prop) (failure : ε → Prop) : Except ε α → Prop
  | .ok value => property value
  | .error error => failure error

namespace Ends

variable {property : α → Prop} {otherProperty : β → Prop} {failure : ε → Prop}

theorem of_eq_ok {result : Except ε α} {value : α} (equal : result = .ok value)
    (holds : property value) : Ends property failure result := by
  rw [equal]
  exact holds

theorem mono {otherFailure : ε → Prop} {result : Except ε α}
    (ends : Ends property failure result) (implies : ∀ error, failure error → otherFailure error) :
    Ends property otherFailure result := by
  cases result with
  | ok value => exact ends
  | error error => exact implies error ends

/-- One computation after another. -/
theorem bind {result : Except ε α} {later : α → Except ε β} (ends : Ends property failure result)
    (laterEnds : ∀ value, property value → Ends otherProperty failure (later value)) :
    Ends otherProperty failure (result.bind later) := by
  cases result with
  | ok value => exact laterEnds value ends
  | error error => exact ends

theorem map {change : α → β} {result : Except ε α} (ends : Ends property failure result)
    (holds : ∀ value, property value → otherProperty (change value)) :
    Ends otherProperty failure (result.map change) := by
  cases result with
  | ok value => exact holds value ends
  | error error => exact ends

/-- One computation for every item of a list. -/
theorem mapM {find : α → Except ε β} {items : List α}
    (ends : ∀ item ∈ items, Ends otherProperty failure (find item)) :
    Ends (fun values => ∀ value ∈ values, otherProperty value) failure (items.mapM find) := by
  induction items with
  | nil => exact fun value member => absurd member List.not_mem_nil
  | cons first rest inductionHypothesis =>
    rw [List.forall_mem_cons] at ends
    rw [List.mapM_cons]
    apply ends.1.bind
    intro value holds
    apply (inductionHypothesis ends.2).bind
    intro values allHold
    exact List.forall_mem_cons.mpr ⟨holds, allHold⟩

end Ends

end TransitionFeatures
