import Std.Time.DateTime
import Std.Time.Format
import Decaf.CommandLine.Run

/-!
# The command

Reads the file that the arguments name, and prints what the check of it says.
-/

namespace Decaf.CommandLine

/-- The reason why a file could not be read, with the number that the system has
for it. Some calls give the number negated, and the words in small letters. -/
def reasonText (code : UInt32) (details : String) : String :=
  let number := if code < 0x80000000 then code else 0 - code
  details.capitalize ++ " (os error " ++ toString number ++ ")"

/-- The reason why a file could not be read, in the words of the system. -/
def systemReason : IO.Error → String
  | .noFileOrDirectory _ code details => reasonText code details
  | .permissionDenied _ code details => reasonText code details
  | .inappropriateType _ code details => reasonText code details
  | .invalidArgument _ code details => reasonText code details
  | .otherError code details => reasonText code details
  | e => toString e

/-- What a file holds, or why it could not be read. -/
def contentsOf (file : String) : IO (Except String ByteArray) := do
  try
    return .ok (← IO.FS.readBinFile file)
  catch e => return .error (systemReason e)

/-- The time now, to the microsecond, as the log writes it. -/
def timeStamp : IO String := do
  let now ← Std.Time.Timestamp.now
  return (Std.Time.DateTime.ofTimestamp now .UTC).format "uuuu-MM-dd'T'HH:mm:ss.SSSSSS'Z'"

/-- Prints the output of the command, each piece to its stream. -/
def print (o : Outcome) : IO UInt32 := do
  for piece in o.output do
    match piece with
    | .out text => IO.print text
    | .err text => IO.eprint text
    | .event e => IO.eprint (logLine (← timeStamp) e)
  return o.code.toUInt32

/-- Whether the environment speaks of a terminal that shows colours, and does not
ask for none. -/
def showsColors : IO Bool := do
  let terminal ← IO.getEnv "TERM"
  let declined ← IO.getEnv "NO_COLOR"
  return terminal.any (· != "dumb") && declined.isNone

/-- Runs the command. -/
def command (args : List String) : IO UInt32 := do
  match plan args with
  | .done outcome => print outcome
  | .check options =>
    let contents ← contentsOf options.input
    print (check options (← showsColors) contents)

end Decaf.CommandLine

def main (args : List String) : IO UInt32 :=
  Decaf.CommandLine.command args
