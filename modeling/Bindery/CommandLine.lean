import Bindery.Compilation

/-!
# The command line

* `bind TREE [--options FILE] [--script] [--ignore-accessibility]` binds a tree, writes what was
  found and what is wrong with it.
* `dump-flags` lists the flags, value kinds and usages with their bits.

The exit code is 0, or 1 if the tree has errors or a file cannot be loaded, or 2 if the command is
not understood.
-/

namespace Bindery

structure BindCommand where
  tree : String
  options : Option String := none
  script : Bool := false
  ignoreAccessibility : Bool := false
deriving DecidableEq, Repr

inductive Command where
  | bind (command : BindCommand)
  | dumpFlags
  | help
deriving DecidableEq, Repr

/-- What a command leaves behind. -/
structure Outcome where
  exit : Nat
  out : List String := []
  err : List String := []
  /-- How many errors and warnings there are, if there are errors; the time is written after it. -/
  verdict : Option String := none
deriving DecidableEq, Repr

namespace Command

/-! ### Reading the arguments -/

/-- The arguments of `bind` read so far. -/
structure BindArguments where
  tree : Option String := none
  options : Option String := none
  script : Bool := false
  ignoreAccessibility : Bool := false

/-- A file name that is not empty. -/
def path? (text : String) : Option String := if text.isEmpty then none else some text

/-- A value that follows an option and does not look like an option itself. -/
def separateValue? (text : String) : Option String :=
  if text.startsWith "-" && text ≠ "-" then none else path? text

def BindArguments.setTree? (c : BindArguments) (text : String) : Option BindArguments :=
  if c.tree.isSome then none else (path? text).map fun tree => { c with tree := some tree }

def BindArguments.setOptions? (c : BindArguments) (text : Option String) : Option BindArguments :=
  if c.options.isSome then none else text.map fun options => { c with options := some options }

def BindArguments.finish? (c : BindArguments) : Option Command :=
  c.tree.map fun tree => .bind
    { tree, options := c.options, script := c.script, ignoreAccessibility := c.ignoreAccessibility }

/-- Read the arguments of `bind`. After `--` there are only file names. -/
def readBind? : List String → BindArguments → Option Command
  | [], c => c.finish?
  | "--" :: rest, c => do (← rest.foldlM BindArguments.setTree? c).finish?
  | "--help" :: _, _ | "-h" :: _, _ => some .help
  | "--script" :: rest, c => if c.script then none else readBind? rest { c with script := true }
  | "--ignore-accessibility" :: rest, c =>
    if c.ignoreAccessibility then none else readBind? rest { c with ignoreAccessibility := true }
  | "--options" :: [], _ => none
  | "--options" :: value :: rest, c => do readBind? rest (← c.setOptions? (separateValue? value))
  | argument :: rest, c => do
    if argument.startsWith "--options=" then
      readBind? rest (← c.setOptions? (path? (argument.drop "--options=".length).toString))
    else if argument.startsWith "-" && argument ≠ "-" then none
    else readBind? rest (← c.setTree? argument)

def read? : List String → Option Command
  | "bind" :: rest => readBind? rest {}
  | ["dump-flags"] => some .dumpFlags
  | ["dump-flags", "--"] => some .dumpFlags
  | "dump-flags" :: "--help" :: _ | "dump-flags" :: "-h" :: _ => some .help
  | "--help" :: _ | "-h" :: _ | ["help"] | ["help", "bind"] | ["help", "dump-flags"]
  | ["help", "help"] => some .help
  | _ => none

/-! ### Listing flags -/

/-- Hexadecimal digits after `0x`, at least `width` of them. -/
def hex (width bits : Nat) : String :=
  let digits := Nat.toDigits 16 bits
  "0x" ++ String.ofList (List.replicate (width - digits.length) '0' ++ digits)

/-- A name in a column, followed by bits. -/
def entryLine (indent column width : Nat) (name : String) (bits : Nat) : String :=
  String.ofList (List.replicate indent ' ') ++ name ++
    String.ofList (List.replicate (column - name.length) ' ') ++ " " ++ hex width bits

def flagLines : List String :=
  ["BinderFlags:"] ++
  (Flags.all.names.zipIdx.map fun (name, index) => entryLine 2 32 8 name (1 <<< index)) ++
  ["BindValueKind:"] ++
  (ValueKind.basis.map fun (name, kind) => entryLine 2 32 8 name kind.bits) ++
  ["NodeUsage:"] ++
  UsageCategory.all.flatMap fun category =>
    ("  " ++ category.name) ::
      (Usage.namedIn category).map fun (name, usage) => entryLine 4 38 2 name usage.bits

def helpLines : List String := [
  "Usage: bindery <COMMAND>",
  "",
  "Commands:",
  "  bind <TREE> [--options <OPTIONS>] [--script] [--ignore-accessibility]",
  "  dump-flags"]

/-! ### Binding -/

def counted (count : Nat) (noun : String) : String :=
  toString count ++ " " ++ noun ++ if count = 1 then "" else "s"

/-- What was found, in a few lines. -/
def summary (scope : GlobalScope) : Except Fault (List String) := do
  let entry ← scope.entryPoint.mapM scope.program.symbols.qualifiedName
  return [
    "entry point: " ++ entry.getD "(none)",
    s!"types: {scope.types.length}, methods: {scope.methods.length}, " ++
      s!"variables: {scope.fields.length}",
    s!"bound bodies: {scope.bodies.length}, " ++
      s!"field initializers: {scope.initializers.length}, " ++
      s!"global statements: {scope.statements.length}"] ++
  if scope.libraryTypes.isEmpty then []
  else ["library types: " ++ String.intercalate ", " (scope.libraryTypes.map (·.1))]

/-- The outcome of binding, with its diagnostics. -/
def report (scope : GlobalScope) : Except Fault Outcome := do
  let errors := scope.diagnostics.errorCount
  let warnings := scope.diagnostics.size - errors
  let lines := scope.diagnostics.items.map (·.line)
  let out ← summary scope
  if errors = 0 then return { exit := 0, out, err := lines }
  else return {
    exit := 1
    out
    err := lines ++ [""]
    verdict := some ("Found " ++ counted errors "error" ++ " and " ++ counted warnings "warning") }

/-- Read what the file at a path holds, unless there is none. -/
def load {ε α : Type} (file : String → Option String) (path : String) (read : String → Except ε α)
    (message : ε → String) : Except String α :=
  match file path with
  | none => .error ("cannot read '" ++ path ++ "'")
  | some text => (read text).mapError message

/-- The options of a command: those of its file, with the switches on top. -/
def loadOptions (command : BindCommand) (file : String → Option String) : Except String Options := do
  let options ←
    match command.options with
    | none => .ok {}
    | some path => load file path Options.read OptionsError.message
  return { options with
    isScript := if command.script then some true else options.isScript
    ignoreAccessibility :=
      if command.ignoreAccessibility then some true else options.ignoreAccessibility }

/-- Bind a tree. The options are loaded first. -/
def runBind (command : BindCommand) (file : String → Option String) : Outcome :=
  let loaded : Except String (Options × Tree) := do
    let options ← loadOptions command file
    return (options, ← load file command.tree Tree.read TreeError.message)
  match loaded with
  | .error message => { exit := 1, err := [message] }
  | .ok (options, tree) =>
    let bound : Except Fault Outcome := do
      let (scope, _) ← (← Compilation.declare tree options).run
      report scope
    match bound with
    | .ok outcome => outcome
    | .error fault => { exit := 101, err := [fault.message] }

end Command

/-- Run a command on files given by their texts. -/
def runCommand (args : List String) (file : String → Option String) : Outcome :=
  match Command.read? args with
  | none => { exit := 2, err := Command.helpLines }
  | some .help => { exit := 0, out := Command.helpLines }
  | some .dumpFlags => { exit := 0, out := Command.flagLines }
  | some (.bind command) => Command.runBind command file

end Bindery
