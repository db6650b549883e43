import TransitionFeatures.Extraction.Core

/-!
# Extractor options

The configuration of an extractor: its descriptors and whether it may keep derived
data, which it may unless told otherwise.  Options are read from a setting, the
value under which a configuration holds them.  A table must have the descriptors
and may have the flag; other entries do not matter.  A list has the two in order,
the flag at its end being optional.
-/

namespace TransitionFeatures

/-- A value of a configuration; `other` stands for numbers and the empty value. -/
inductive Setting
  | flag (value : Bool)
  | text (value : String)
  | list (items : List Setting)
  | table (entries : List (String × Setting))
  | other
  deriving Inhabited

namespace Setting

/-- The truth value of a setting. -/
def flag? : Setting → Option Bool
  | flag value => some value
  | _ => none

/-- The text of a setting. -/
def text? : Setting → Option String
  | text value => some value
  | _ => none

/-- The texts of a setting that is a list of them. -/
def texts? : Setting → Option (List String)
  | list items => items.mapM text?
  | _ => none

end Setting

/-- The configuration of an extractor. -/
structure Options where
  descriptors : List String
  memoize : Bool
  deriving DecidableEq

namespace Options

/-- Derived data may be kept unless an option forbids it. -/
def memoizeByDefault : Bool := true

/-- The options without descriptors. -/
def default : Options :=
  { descriptors := [], memoize := memoizeByDefault }

/-- Read the flag, which may be missing but not of another kind. -/
def readFlag? : Option Setting → Option Bool
  | none => some memoizeByDefault
  | some setting => setting.flag?

/-- Read options. -/
def ofSetting? : Setting → Option Options
  | .table entries => do
    let descriptors ← (← entries.lookup "templates").texts?
    let memoize ← readFlag? (entries.lookup "memoize")
    return { descriptors, memoize }
  | .list [templates] => do
    let descriptors ← templates.texts?
    return { descriptors, memoize := memoizeByDefault }
  | .list [templates, flag] => do
    let descriptors ← templates.texts?
    let memoize ← flag.flag?
    return { descriptors, memoize }
  | _ => none

end Options

namespace Extractor

/-- Compile the descriptors of some options. -/
def ofOptions (options : Options) : Logged (Except CompileError Extractor) :=
  let compiled := TemplateSet.compile options.descriptors
  { result := compiled.result.map fun set => { set, memoize := options.memoize }
    events := compiled.events }

/-- Compile descriptors with the default for everything else. -/
def compile (descriptors : List String) : Logged (Except CompileError Extractor) :=
  ofOptions { Options.default with descriptors }

end Extractor

end TransitionFeatures
