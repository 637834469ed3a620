import LinkedMarkup.CommandLine.Run
import LinkedMarkup.CommandLine.Usage
/-! The command line program. It looks up the files that a command asks for, and runs the command
again until it asks for no further ones. It reaches no network. -/
namespace LinkedMarkup.CommandLine

/-- What stands under the name of a file on the disk. -/
def lookUpFile (name : String) : IO FileEntry := do
  if name.toList.contains '\x00' then return .refused
  try
    return .content (← IO.FS.readBinFile name)
  catch
    | .noFileOrDirectory .. => return .missing
    | _ => return .unreadable 0

/-- The environment variables that settings are read from. -/
def lookUpVariables : IO (Table String) :=
  Settings.variableNames.foldlM (fun table name => do
    match ← IO.getEnv name with
    | some value => return table.insert name value
    | none => return table) []

/-- Run a command with more and more files until all that it looks for are known. -/
partial def runWithFiles (bindings : Table String) (command : Command)
    (known : Table FileEntry) : IO Report := do
  let report := command.run {
    valueOf := bindings.find?
    files := fun name => (known.find? name).getD .missing
    network := Web.unreachable }
  match report.lookups.filter (!known.contains ·) with
  | [] => return report
  | unknown =>
    let known ←
      unknown.foldlM (fun table name => return table.insert name (← lookUpFile name)) known
    runWithFiles bindings command known

/-- Write the file of a report. -/
def save (report : Report) : IO Report := do
  match report.save with
  | none => return report
  | some (name, content) =>
    try
      IO.FS.writeFile name content
      return report.saved true
    catch _ => return report.saved false

end LinkedMarkup.CommandLine

open LinkedMarkup CommandLine in
def main (words : List String) : IO UInt32 := do
  match Command.parse words with
  | .error usage =>
    if usage.isAnswer then
      IO.println usage.text
      return 0
    else
      IO.eprintln usage.text
      return 2
  | .ok command =>
    let report ← save (← runWithFiles (← lookUpVariables) command [])
    IO.eprint report.messages
    IO.print report.output
    match report.failure with
    | none => return 0
    | some failure =>
      IO.eprintln ("Error: " ++ failure.message)
      return 1
