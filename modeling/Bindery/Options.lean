import Bindery.Json.Parser
import Bindery.Json.Printer
import Bindery.Text.Letter

/-!
# Options

Options shape one compilation. They are read from a JSON object with five fields, all of which may
be missing or `null`; other fields are refused. An array lists all five in order.
-/

namespace Bindery

structure Options where
  isScript : Option Bool := none
  ignoreAccessibility : Option Bool := none
  allowLowLevel : Option Bool := none
  entryPointName : Option String := none
  libraryTypes : Option (List String) := none
deriving DecidableEq, Repr

/-- What is wrong with options. -/
inductive OptionsError where
  | notOptions
  | invalidEntryPoint (name : String)
  | duplicateLibraryType (name : String)
deriving DecidableEq, Repr

def OptionsError.message : OptionsError → String
  | notOptions => "invalid options document"
  | invalidEntryPoint name => "'" ++ name ++ "' is not a valid entry point name"
  | duplicateLibraryType name => "library type '" ++ name ++ "' is listed more than once"

namespace Options

/-! ### Values with their defaults -/

/-- A script keeps its global statements and may continue an earlier one. -/
def script (o : Options) : Bool := o.isScript.getD false

def ignoresAccess (o : Options) : Bool := o.ignoreAccessibility.getD false

/-- Bind everything as low-level code. -/
def lowLevel (o : Options) : Bool := o.allowLowLevel.getD false

def entryPoint (o : Options) : String := o.entryPointName.getD "Main"

/-- Names of the types that referenced libraries supply. -/
def libraries (o : Options) : List String := o.libraryTypes.getD []

/-! ### Validation -/

/-- The first name that repeats an earlier one. -/
def firstRepeated : List String → List String → Option String
  | _, [] => none
  | seen, name :: rest => if name ∈ seen then some name else firstRepeated (name :: seen) rest

def validate (o : Options) : Except OptionsError Options :=
  match o.entryPointName.filter fun name => !Text.isIdentifier name with
  | some name => .error (.invalidEntryPoint name)
  | none =>
    match firstRepeated [] o.libraries with
    | some name => .error (.duplicateLibraryType name)
    | none => .ok o

/-! ### Documents -/

def fieldNames : List String :=
  ["isScript", "ignoreAccessibility", "allowLowLevel", "entryPointName", "libraryTypes"]

/-- The value of a field that stands at most once. -/
def field? {α : Type} (read : Json → Option α) (members : List (Json.Text × Json))
    (name : String) : Option (Option α) :=
  match Json.valuesOf members name with
  | [] => some none
  | [value] => Json.orNull? read value
  | _ => none

def names? (value : Json) : Option (List String) := do
  let items ← value.array?
  items.mapM Json.string?

def ofMembers? (members : List (Json.Text × Json)) : Option Options := do
  if members.all fun member => member.1.any (· ∈ fieldNames) then
    return {
      isScript := ← field? Json.bool? members "isScript"
      ignoreAccessibility := ← field? Json.bool? members "ignoreAccessibility"
      allowLowLevel := ← field? Json.bool? members "allowLowLevel"
      entryPointName := ← field? Json.string? members "entryPointName"
      libraryTypes := ← field? names? members "libraryTypes" }
  else none

def ofJson? : Json → Option Options
  | .object members => ofMembers? members
  | .array values =>
    if values.length = fieldNames.length then ofMembers? ((fieldNames.map some).zip values) else none
  | _ => none

def ofJson (value : Json) : Except OptionsError Options :=
  match ofJson? value with
  | none => .error .notOptions
  | some options => options.validate

def read (text : String) : Except OptionsError Options :=
  match Json.parse? text with
  | none => .error .notOptions
  | some value => ofJson value

def toJson (o : Options) : Json :=
  .obj [
    ("isScript", .option .bool o.isScript),
    ("ignoreAccessibility", .option .bool o.ignoreAccessibility),
    ("allowLowLevel", .option .bool o.allowLowLevel),
    ("entryPointName", .option .str o.entryPointName),
    ("libraryTypes", .option .strs o.libraryTypes)]

end Options
end Bindery
