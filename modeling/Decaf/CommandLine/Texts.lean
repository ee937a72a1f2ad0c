import Decaf.Text.Stripped
import Decaf.CommandLine.Arguments

/-!
# Texts of the command

The usage line, the wording of complaints about the arguments, and the texts of
help and version. The words that a complaint takes from the arguments are written
without the control sequences in them.
-/

namespace Decaf.CommandLine

/-- The arguments that a check takes, as alternatives. -/
def alternatives : String :=
  let flags := Flag.all.filter fun flag => flag ≠ .help ∧ flag ≠ .version
  "<" ++ "|".intercalate ("INPUT" :: flags.map Flag.text) ++ ">"

/-- The usage line. -/
def Usage.text (usage : Usage) : String :=
  let arguments := match usage with
    | general => ["[OPTIONS]", "<INPUT>"]
    | only flags => flags.map Flag.text ++ ["<INPUT>"]
    | choice first => first.map Flag.text ++ [alternatives]
  "Usage: " ++ " ".intercalate ("decafc" :: arguments)

/-- A word of the arguments in quotes. -/
def cited (word : String) : String :=
  "'" ++ Text.stripped word ++ "'"

/-- A hint how to pass a word that looks like an option. -/
def passTip (word : String) : String :=
  "\n\n  tip: to pass " ++ cited word ++ " as a value, use " ++ cited ("-- " ++ word)

/-- A hint at something of the same kind with a similar name. -/
def similarTip (kind name : String) : String :=
  "\n\n  tip: a similar " ++ kind ++ " exists: '" ++ name ++ "'"

/-- The values that the colour option takes. -/
def colorValues : String :=
  "\n  [possible values: " ++ ", ".intercalate (ColorChoice.all.map ColorChoice.text) ++ "]"

namespace UsageError

/-- The wording of a complaint about the arguments. -/
def message : UsageError → String
  | missingInput given =>
    "the following required arguments were not provided:\n  <INPUT>\n\n" ++ (Usage.only given).text
  | unknownLong name none usage =>
    "unexpected argument " ++ cited ("--" ++ name) ++ " found" ++
      passTip ("--" ++ name) ++ "\n\n" ++ usage.text
  | unknownLong name (some flag) usage =>
    "unexpected argument " ++ cited ("--" ++ name) ++ " found" ++
      similarTip "argument" ("--" ++ flag.long) ++ "\n\n" ++ usage.text
  | unknownShort name =>
    let word := "-" ++ String.singleton name
    "unexpected argument " ++ cited word ++ " found" ++ passTip word ++ "\n\n" ++ Usage.general.text
  | extraInput word => "unexpected argument " ++ cited word ++ " found\n\n" ++ Usage.general.text
  | badColor value =>
    let tip := match Text.mostSimilar? value (ColorChoice.all.map ColorChoice.text) with
      | some choice => similarTip "value" choice
      | none => ""
    "invalid value " ++ cited value ++ " for '" ++ Flag.color.text ++ "'" ++ colorValues ++ tip
  | missingColor =>
    "a value is required for '" ++ Flag.color.text ++ "' but none was supplied" ++ colorValues
  | emptyInput => "a value is required for '<INPUT>' but none was supplied"
  | unexpectedValue flag value usage =>
    "unexpected value " ++ cited value ++ " for '" ++ flag.text ++
      "' found; no more were expected\n\n" ++ usage.text
  | repeated flag =>
    "the argument '" ++ flag.text ++ "' cannot be used multiple times\n\n" ++ Usage.general.text

/-- A complaint about the arguments as it is printed. -/
def text (e : UsageError) : String :=
  "error: " ++ e.message ++ "\n\nFor more information, try '--help'.\n"

end UsageError

/-- The version of the command. -/
def versionText : String :=
  "decafc 0.1.0\n"

/-- The help text, in full. -/
def longHelp : String :=
  "Static semantic analyzer for Decaf\n" ++
  "\n" ++
  "Usage: decafc [OPTIONS] <INPUT>\n" ++
  "\n" ++
  "Arguments:\n" ++
  "  <INPUT>\n" ++
  "          Input source file (.decaf)\n" ++
  "\n" ++
  "Options:\n" ++
  "      --plain\n" ++
  "          Print one error message per line instead of annotated snippets\n" ++
  "\n" ++
  "      --color <COLOR>\n" ++
  "          Diagnostic coloring\n" ++
  "\n" ++
  "          Possible values:\n" ++
  "          - auto:   Color when writing to a terminal\n" ++
  "          - always: Always color\n" ++
  "          - never:  Never color\n" ++
  "          \n" ++
  "          [default: auto]\n" ++
  "\n" ++
  "  -v, --verbose\n" ++
  "          Verbose output\n" ++
  "\n" ++
  "      --dump-tokens\n" ++
  "          Dump tokens (for debugging)\n" ++
  "\n" ++
  "      --dump-ast\n" ++
  "          Dump AST (for debugging)\n" ++
  "\n" ++
  "      --dump-symbols\n" ++
  "          Dump symbol tables (for debugging)\n" ++
  "\n" ++
  "  -h, --help\n" ++
  "          Print help (see a summary with '-h')\n" ++
  "\n" ++
  "  -V, --version\n" ++
  "          Print version\n"

/-- The help text, in short. -/
def shortHelp : String :=
  "Static semantic analyzer for Decaf\n" ++
  "\n" ++
  "Usage: decafc [OPTIONS] <INPUT>\n" ++
  "\n" ++
  "Arguments:\n" ++
  "  <INPUT>  Input source file (.decaf)\n" ++
  "\n" ++
  "Options:\n" ++
  "      --plain          Print one error message per line instead of annotated snippets\n" ++
  "      --color <COLOR>  Diagnostic coloring [default: auto] " ++
    "[possible values: auto, always, never]\n" ++
  "  -v, --verbose        Verbose output\n" ++
  "      --dump-tokens    Dump tokens (for debugging)\n" ++
  "      --dump-ast       Dump AST (for debugging)\n" ++
  "      --dump-symbols   Dump symbol tables (for debugging)\n" ++
  "  -h, --help           Print help (see more with '--help')\n" ++
  "  -V, --version        Print version\n"

end Decaf.CommandLine
