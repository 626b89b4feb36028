import CodeNav.Command

/-!
The command line program: it reads the files that a command asks for and prints what it answers. It
has no access to the web, so each address counts as unreachable.
-/

namespace CodeNav

def stateOnDisk (p : FilePath) : IO FileState := do
  try
    return .file (← IO.FS.readBinFile (String.ofList p.text)).toList
  catch e =>
    match e with
    | .inappropriateType _ code _ => return if code = 21 then .directory else .blocked
    | _ => return .missing

/-- What paths lead to on this system; all others count as missing. -/
def filesOnDisk (paths : List FilePath) : IO Files := do
  let states ← paths.mapM fun p => return (p, ← stateOnDisk p)
  return fun p => (states.lookup p).getD .missing

def homesOnDisk : IO (Text → Option Text) := do
  let home := (← IO.getEnv "HOME").map String.toList
  let users ← try IO.FS.lines "/etc/passwd" catch _ => pure #[]
  let homes := users.toList.filterMap fun line =>
    match Text.parts ':' line.toList with
    | [user, _, _, _, _, directory, _] => some (user, directory)
    | _ => none
  return fun user => if user.isEmpty then home else homes.lookup user

def usage : String :=
  "usage: sourcepilot [-v] resolve [-v] [--config CONFIG] --url URL --line LINE\n" ++
  "                   --column COLUMN [--no-validate] [--no-follow] path\n" ++
  "       sourcepilot [-v] serve [-v] [--config CONFIG] [--host HOST] [--port PORT]"

def resolveOnDisk (verbose : Bool) (config : Text) (o : ResolveOptions) : IO UInt32 := do
  let y : Platform := { yaml := Yaml.Value.ofText, home? := ← homesOnDisk }
  let x : Surroundings := {
    files := ← filesOnDisk (Command.paths y config o)
    timeout := (← IO.getEnv "SOURCEPILOT_REQUEST_TIMEOUT").map String.toList
    web := fun _ => .unreachable "no access to the web" }
  let run := Command.resolveOn y x config o
  IO.print (String.ofList (Command.output run))
  IO.eprint (String.ofList (Command.console verbose run))
  match Command.exitCode? run with
  | some code => return code.toUInt32
  | none =>
    IO.eprintln (String.ofList (Command.escaped run))
    return 1

end CodeNav

open CodeNav in
def main (args : List String) : IO UInt32 := do
  match CommandLine.read? false (args.map String.toList) with
  | some ⟨.resolve o, verbose, config⟩ => resolveOnDisk verbose config o
  | some ⟨.help, _, _⟩ =>
    IO.println usage
    return 0
  | some ⟨.serve .., _, _⟩ =>
    IO.eprintln "sourcepilot serve failed: this program takes no connections"
    return 1
  | none =>
    IO.eprintln usage
    return 2
