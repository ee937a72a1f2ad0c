import Decaf.Text.Similar

/-!
# The arguments of the command

Arguments are read from left to right. A word that begins with two dashes is a
long option, one that begins with a single dash is a row of short ones, and any
other is the file to check; after a lone `--` every word is a file.

An option that takes a value, and the file, are settled only when the next known
argument or the end comes (`Draft.settle`). Therefore an unknown argument is
complained about before a bad value in front of it.
-/

namespace Decaf.CommandLine

/-- When diagnostics are coloured. -/
inductive ColorChoice where
  | auto | always | never
deriving DecidableEq

namespace ColorChoice

/-- How a choice is written. -/
def text : ColorChoice → String
  | auto => "auto"
  | always => "always"
  | never => "never"

/-- Every choice. -/
def all : List ColorChoice :=
  [auto, always, never]

/-- The choice that a word stands for. -/
def ofText? (text : String) : Option ColorChoice :=
  all.find? (·.text == text)

end ColorChoice

/-- The options of the command. -/
inductive Flag where
  | plain | color | verbose | dumpTokens | dumpTree | dumpSymbols | help | version
deriving DecidableEq

namespace Flag

/-- Every option, in the order of the help text. -/
def all : List Flag :=
  [plain, color, verbose, dumpTokens, dumpTree, dumpSymbols, help, version]

/-- The long name of an option. -/
def long : Flag → String
  | plain => "plain"
  | color => "color"
  | verbose => "verbose"
  | dumpTokens => "dump-tokens"
  | dumpTree => "dump-ast"
  | dumpSymbols => "dump-symbols"
  | help => "help"
  | version => "version"

/-- How messages speak of an option: its long name, and the value it takes. -/
def text (flag : Flag) : String :=
  "--" ++ flag.long ++ if flag = color then " <COLOR>" else ""

/-- The option with a long name. -/
def ofLong? (name : String) : Option Flag :=
  all.find? (·.long == name)

/-- The option with a short name. -/
def ofShort? : Char → Option Flag
  | 'v' => some verbose
  | 'h' => some help
  | 'V' => some version
  | _ => none

end Flag

/-- How the usage line of a complaint lists the arguments: in general, as the options
that matter to the complaint, or as a choice among all of them, apart from some that
come first. -/
inductive Usage where
  | general
  | only (flags : List Flag)
  | choice (first : List Flag)
deriving DecidableEq

/-- What is wrong with the arguments. -/
inductive UsageError where
  | missingInput (given : List Flag)
  | unknownLong (name : String) (similar : Option Flag) (usage : Usage)
  | unknownShort (name : Char)
  | extraInput (word : String)
  | badColor (value : String)
  | missingColor
  | emptyInput
  | unexpectedValue (flag : Flag) (value : String) (usage : Usage)
  | repeated (flag : Flag)
deriving DecidableEq

/-- What to check, and how. -/
structure Options where
  input : String
  plain : Bool
  color : ColorChoice
  verbose : Bool
  dumpTokens : Bool
  dumpTree : Bool
  dumpSymbols : Bool
deriving DecidableEq

/-- What the arguments ask for. -/
inductive Request where
  | help (long : Bool)
  | version
  | check (options : Options)
deriving DecidableEq

/-- An argument that is not settled yet: the value of the colour option, once it
has one, or the file. -/
inductive Pending where
  | color (value : Option String)
  | input (word : String)
deriving DecidableEq

/-- What was read so far. -/
structure Draft where
  /-- The options that were settled, first given first. -/
  given : List Flag
  color : ColorChoice
  input : Option String
  /-- Whether a word was taken for the file, settled or not. -/
  hasInput : Bool
  pending : Option Pending
deriving DecidableEq

namespace Draft

/-- Nothing was read yet. -/
def empty : Draft :=
  ⟨[], .auto, none, false, none⟩

/-- Notes an option, which must not be given twice. -/
def give (d : Draft) (flag : Flag) : Except UsageError Draft :=
  if d.given.contains flag then .error (.repeated flag)
  else .ok { d with given := d.given ++ [flag] }

/-- Settles a value of the colour option. -/
def setColor (d : Draft) (value : String) : Except UsageError Draft := do
  let d ← d.give .color
  match ColorChoice.ofText? value with
  | some choice => return { d with color := choice }
  | none => throw (if value.isEmpty then .missingColor else .badColor value)

/-- Settles what is pending. -/
def settle (d : Draft) : Except UsageError Draft :=
  let rest := { d with pending := none }
  match d.pending with
  | none => .ok rest
  | some (.color none) => .error .missingColor
  | some (.color (some value)) => rest.setColor value
  | some (.input word) =>
    if word.isEmpty then .error .emptyInput else .ok { rest with input := some word }

/-- The options that an unknown argument comes after. A colour option that has a
value counts, whatever the value; a second one takes back the first. -/
def givenBefore (d : Draft) : List Flag :=
  match d.pending with
  | some (.color (some _)) =>
    if d.given.contains .color then d.given.filter (· != .color) else d.given ++ [.color]
  | _ => d.given

/-- The complaint about a long option that is not known. The option it is most like,
if there is one, was probably meant, and counts as given too. -/
def unknownLong (d : Draft) (name : String) : UsageError :=
  let similar := (Text.mostSimilar? name (Flag.all.map Flag.long)).bind Flag.ofLong?
  let before := d.givenBefore
  let given := match similar with
    | some flag => if before.contains flag then before else before ++ [flag]
    | none => before
  .unknownLong name similar (if given.isEmpty && !d.hasInput then .general else .only given)

/-- The complaint about a value for an option that takes none. Once an argument is
settled, the usage offers the choice among all; help and version are never part of
that choice. -/
def unexpectedValue (d : Draft) (flag : Flag) (value : String) : UsageError :=
  let usage :=
    if d.given.isEmpty && d.input.isNone then Usage.only [flag]
    else .choice (if flag = .help ∨ flag = .version then [flag] else [])
  .unexpectedValue flag value usage

end Draft

/-- What reading a word leads to: more reading, or an answer at once. -/
inductive Progress where
  | more (draft : Draft)
  | stop (request : Request)

/-- Takes an option that has no value. -/
def takeFlag (d : Draft) (flag : Flag) (long : Bool) : Except UsageError Progress := do
  let d ← d.settle
  match flag with
  | .help => return .stop (.help long)
  | .version => return .stop .version
  | flag => return .more (← d.give flag)

/-- Divides a long option at the first equals sign. -/
def splitValue : List Char → List Char × Option (List Char)
  | [] => ([], none)
  | '=' :: value => ([], some value)
  | c :: cs =>
    let rest := splitValue cs
    (c :: rest.1, rest.2)

/-- Takes a long option, given what follows its two dashes. -/
def takeLong (d : Draft) (word : List Char) : Except UsageError Progress := do
  let parts := splitValue word
  let name := String.ofList parts.1
  match Flag.ofLong? name, parts.2 with
  | none, _ => throw (d.unknownLong name)
  | some .color, none =>
    let d ← d.settle
    return .more { d with pending := some (.color none) }
  | some .color, some value =>
    let d ← d.settle
    return .more (← d.setColor (String.ofList value))
  | some flag, none => takeFlag d flag true
  | some flag, some value => throw (d.unexpectedValue flag (String.ofList value))

/-- Takes a row of short options. -/
def takeShorts (d : Draft) : List Char → Except UsageError Progress
  | [] => .ok (.more d)
  | c :: cs => do
    match Flag.ofShort? c with
    | none => throw (.unknownShort c)
    | some flag =>
      match ← takeFlag d flag false with
      | .more d => takeShorts d cs
      | .stop request => return .stop request

/-- Takes a word that is no option: the value of the colour option if that waits
for one, else the file to check. -/
def takeWord (d : Draft) (word : String) : Except UsageError Draft :=
  match d.pending with
  | some (.color none) => .ok { d with pending := some (.color (some word)) }
  | _ =>
    if d.hasInput then .error (.extraInput word)
    else do
      let d ← d.settle
      return { d with hasInput := true, pending := some (.input word) }

/-- Takes a word after a lone `--`, which can only be the file. -/
def takeInput (d : Draft) (word : String) : Except UsageError Draft :=
  if d.hasInput then .error (.extraInput word)
  else do
    let d ← d.settle
    return { d with hasInput := true, pending := some (.input word) }

/-- What the arguments ask for, once all are read. -/
def finish (d : Draft) : Except UsageError Request := do
  let d ← d.settle
  match d.input with
  | none => throw (.missingInput d.given)
  | some input =>
    let has (flag : Flag) : Bool := d.given.contains flag
    return .check ⟨input, has .plain, d.color, has .verbose, has .dumpTokens, has .dumpTree,
      has .dumpSymbols⟩

/-- Reads arguments; the flag tells whether a lone `--` came before. -/
def readArguments : Bool → Draft → List String → Except UsageError Request
  | _, d, [] => finish d
  | true, d, word :: rest => do
    readArguments true (← takeInput d word) rest
  | false, d, word :: rest => do
    match word.toList with
    | ['-', '-'] => readArguments true d rest
    | '-' :: '-' :: name =>
      match ← takeLong d name with
      | .more d => readArguments false d rest
      | .stop request => return request
    | '-' :: c :: cs =>
      match ← takeShorts d (c :: cs) with
      | .more d => readArguments false d rest
      | .stop request => return request
    | _ => readArguments false (← takeWord d word) rest

/-- What the arguments of the command ask for. -/
def request (args : List String) : Except UsageError Request :=
  readArguments false .empty args

end Decaf.CommandLine
