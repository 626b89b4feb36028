import CodeNav.Settings.Reading

/-!
The settings file: a path leads to it, or to the directory that holds it. Without a file the
standard settings hold.
-/

namespace CodeNav.Settings

def filePath (files : Files) (p : FilePath) : FilePath :=
  (if files.isDirectory p then p.child settingsFileName else p).resolve

def directory (files : Files) (p : FilePath) : FilePath := (filePath files p).parent

/-- The settings at a path, where the environment may name a time and `read` gives the value of a
document. -/
def loadWith (read : Text → Except Yaml.Fault Yaml.Value) (files : Files) (timeout : Option Text)
    (p : FilePath) : Except SettingsError Settings := do
  let file := filePath files p
  match files.read file with
  | .ok t => return (← ofTextWith read file.name t).withTimeout timeout
  | .error (.missing _) | .error (.blocked _) => return ({} : Settings).withTimeout timeout
  | .error e => throw (.unreadable e)

def load (files : Files) (timeout : Option Text) (p : FilePath) : Except SettingsError Settings :=
  loadWith Yaml.Value.ofText files timeout p

end CodeNav.Settings
