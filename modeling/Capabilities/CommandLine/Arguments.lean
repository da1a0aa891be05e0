/-!
# Reading the command line

The program has one command, `check`, which takes a directory and options:

* `--table FILE`, `--config FILE` and `--max-passes N` at most once, `--entry FILE` any number of
  times; the value may also follow an equals sign;
* `--json`, at most once;
* `--` before a directory whose name begins with a dash.

An option is *settled* when the next argument that is not its value has been recognised, or at the
end. Only then is it looked at, so what is wrong with it comes after what is wrong with the form
of the argument behind it.
-/

namespace Capabilities.CommandLine

/-- Why arguments do not make a command, or what was asked for instead of one. -/
inductive UsageError where
  /-- The help text was asked for. -/
  | help
  /-- No command is given. -/
  | noCommand
  /-- The version was asked for. -/
  | version
  /-- There is no such command. -/
  | unknownCommand
  /-- There is no such option, or an operand too many. -/
  | unknownArgument
  /-- An option has no value, or a path is empty. -/
  | badValue
  /-- A flag has a value. -/
  | needlessValue
  /-- An option is given twice. -/
  | repeated
  /-- A number is no number. -/
  | notANumber
  /-- The directory is missing. -/
  | missingDirectory
deriving DecidableEq, Repr

structure CheckArguments where
  directory : String
  table : Option String
  config : Option String
  entryFiles : List String
  maxPasses : Nat
  json : Bool
deriving DecidableEq, Repr

/-! ### Words -/

inductive Word where
  | separator
  | long (name : String) (value : Option String)
  | short (letters : List Char)
  | operand
deriving DecidableEq, Repr

/-- A name with a value behind the first equals sign, if there is one. -/
def splitValue (text : List Char) : String × Option String :=
  match text.span (· != '=') with
  | (name, _ :: value) => (String.ofList name, some (String.ofList value))
  | (name, []) => (String.ofList name, none)

/-- The form of an argument. A single dash is an operand. -/
def Word.ofText (text : String) : Word :=
  match text.toList with
  | ['-', '-'] => .separator
  | '-' :: '-' :: rest => let (name, value) := splitValue rest; .long name value
  | '-' :: letter :: letters => .short (letter :: letters)
  | _ => .operand

/-! ### The arguments of a check -/

inductive Slot where
  | directory | table | config | entryFile | maxPasses
deriving DecidableEq, Repr

def Slot.ofName? : String → Option Slot
  | "table" => some .table
  | "config" => some .config
  | "entry" => some .entryFile
  | "max-passes" => some .maxPasses
  | _ => none

structure Draft where
  directory : Option String
  table : Option String
  config : Option String
  entryFiles : List String
  maxPasses : Option Nat
  json : Bool
deriving DecidableEq, Repr

def Draft.empty : Draft := ⟨none, none, none, [], none, false⟩

def maxPassesLimit : Nat := UInt64.size - 1

/-- How many passes are made at most if nothing is said about it. -/
def defaultMaxPasses : Nat := 16

/-- A number of passes: digits, perhaps behind a plus sign. -/
def readNumber? (text : String) : Option Nat :=
  let digits := match text.toList with
    | '+' :: rest => rest
    | rest => rest
  if digits.isEmpty || !digits.all Char.isDigit then none
  else
    let n := digits.foldl (fun n digit => n * 10 + (digit.toNat - '0'.toNat)) 0
    if n ≤ maxPassesLimit then some n else none

def readPath (text : String) : Except UsageError String :=
  if text.isEmpty then .error .badValue else .ok text

def once {α : Type} (old : Option α) (value : Except UsageError α) :
    Except UsageError (Option α) :=
  if old.isSome then .error .repeated else value.map some

def Draft.take (draft : Draft) (slot : Slot) (value : String) : Except UsageError Draft := do
  match slot with
  | .directory => return { draft with directory := ← once draft.directory (readPath value) }
  | .table => return { draft with table := ← once draft.table (readPath value) }
  | .config => return { draft with config := ← once draft.config (readPath value) }
  | .entryFile => return { draft with entryFiles := draft.entryFiles ++ [← readPath value] }
  | .maxPasses =>
    let number := match readNumber? value with
      | some n => .ok n
      | none => .error .notANumber
    return { draft with maxPasses := ← once draft.maxPasses number }

/-- What is settled, and what waits for a value or to be settled. -/
structure Reading where
  draft : Draft
  pending : Option (Slot × Option String)
deriving DecidableEq, Repr

namespace Reading

def settle (reading : Reading) : Except UsageError Draft :=
  match reading.pending with
  | none => .ok reading.draft
  | some (_, none) => .error .badValue
  | some (slot, some value) => reading.draft.take slot value

def hasDirectory (reading : Reading) : Bool :=
  reading.draft.directory.isSome || (reading.pending.map Prod.fst) == some Slot.directory

def operand (reading : Reading) (value : String) : Except UsageError Reading := do
  if reading.hasDirectory then throw .unknownArgument
  return ⟨← reading.settle, some (.directory, some value)⟩

def flag (reading : Reading) (name : String) : Except UsageError Reading := do
  let draft ← reading.settle
  if name == "help" then throw .help
  if draft.json then throw .repeated
  return ⟨{ draft with json := true }, none⟩

def long (reading : Reading) (name : String) (value : Option String) :
    Except UsageError Reading := do
  if name == "help" || name == "json" then
    if value.isSome then throw .needlessValue
    reading.flag name
  else
    match Slot.ofName? name with
    | none => throw .unknownArgument
    | some slot =>
      let draft ← reading.settle
      match value with
      | some value => return ⟨← draft.take slot value, none⟩
      | none => return ⟨draft, some (slot, none)⟩

def short (reading : Reading) (letters : List Char) : Except UsageError Reading :=
  if letters.head? == some 'h' then reading.flag "help" else throw .unknownArgument

/-- Take an argument that is neither option nor flag: the value that is waited for, or an
    operand. -/
def plain (reading : Reading) (value : String) : Except UsageError Reading :=
  match reading.pending with
  | some (slot, none) => .ok { reading with pending := some (slot, some value) }
  | _ => reading.operand value

def finish (reading : Reading) : Except UsageError CheckArguments := do
  let draft ← reading.settle
  match draft.directory with
  | none => throw .missingDirectory
  | some directory =>
    return {
      directory
      table := draft.table
      config := draft.config
      entryFiles := draft.entryFiles
      maxPasses := draft.maxPasses.getD defaultMaxPasses
      json := draft.json }

end Reading

def readCheck (reading : Reading) : List String → Except UsageError CheckArguments
  | [] => reading.finish
  | text :: rest =>
    match Word.ofText text with
    | .separator => do (← rest.foldlM Reading.operand reading).finish
    | .long name value => do readCheck (← reading.long name value) rest
    | .short letters => do readCheck (← reading.short letters) rest
    | .operand => do readCheck (← reading.plain text) rest

/-! ### The command -/

def commands : List String := ["check", "help"]

/-- What help is asked for: the program's own or that of one command. -/
def readHelp : List String → UsageError
  | [] => .help
  | [command] => if commands.contains command then .help else .unknownCommand
  | _ => .unknownCommand

def parse : List String → Except UsageError CheckArguments
  | [] => throw .noCommand
  | text :: rest =>
    match Word.ofText text with
    | .separator =>
      match rest with
      | [] => throw .noCommand
      | text :: _ => throw (if commands.contains text then .unknownArgument else .unknownCommand)
    | .long name value =>
      if name == "help" || name == "version" then
        throw (if value.isSome then .needlessValue else if name == "help" then .help else .version)
      else throw .unknownArgument
    | .short letters =>
      match letters.head? with
      | some 'h' => throw .help
      | some 'V' => throw .version
      | _ => throw .unknownArgument
    | .operand =>
      if text == "check" then readCheck ⟨.empty, none⟩ rest
      else if text == "help" then throw (readHelp rest)
      else throw .unknownCommand

end Capabilities.CommandLine
