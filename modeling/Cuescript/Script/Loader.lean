import Cuescript.Script.Config
import Cuescript.Script.FileTree
import Cuescript.Text.Blank

/-!
Scripts loaded from files. A file holds one script or a list of them, or none if it is blank; a
directory is loaded file by file, in order of their names. No two scripts of one load may have the
same id. How a text that is not blank is read as scripts is a parameter of the loader.
-/
namespace Cuescript

namespace ScriptLoader

/-- How the text of a file is read as scripts. The path of the file comes first: ids that are made up
differ from file to file. -/
abbrev Decoding := String → String → Option (List ScriptConfig)

/-- A list of scripts, or else one script, each with an id made up for its number in the file. -/
def decode (made : String → Nat → String) : Decoding := fun path text => do
  let d ← (Yaml.parse? text).bind Yaml.Untyped.ofTree
  let many := (Document.items? d).bind fun ds =>
    ds.zipIdx.mapM fun (d, n) => ScriptConfig.read? (made path n) d
  many.or ((ScriptConfig.read? (made path 0) d).map fun c => [c])

def loadFile (decode : Decoding) (file : String × Option String) :
    Except ConfigError (List ScriptConfig) :=
  match file.2 with
  | none => .error (.unreadable (FileTree.shown file.1))
  | some text =>
    if (Text.trim text.toList).isEmpty then .ok []
    else
      match decode file.1 text with
      | some scripts => .ok scripts
      | none => .error (.malformed (FileTree.shown file.1))

def addScripts (path : String) (loaded : List ScriptConfig) :
    List ScriptConfig → Except ConfigError (List ScriptConfig)
  | [] => .ok loaded
  | c :: rest =>
    if loaded.any fun d => d.id = c.id then .error (.duplicateId c.id path)
    else addScripts path (loaded ++ [c]) rest

def loadFiles (decode : Decoding) (loaded : List ScriptConfig) :
    List (String × Option String) → Except ConfigError (List ScriptConfig)
  | [] => .ok loaded
  | file :: rest =>
    match loadFile decode file with
    | .error e => .error e
    | .ok scripts =>
      match addScripts file.1 loaded scripts with
      | .error e => .error e
      | .ok loaded => loadFiles decode loaded rest

def load (decode : Decoding) (t : FileTree) (path : String) :
    Except ConfigError (List ScriptConfig) :=
  match t.find? path with
  | none => .error (.notFound path)
  | some .outside => .ok []
  | some (.inside place) =>
    if t.isDirectory place then
      loadFiles decode [] ((t.scriptFiles place).map fun f => (FileTree.lead path ++ f.1, f.2))
    else
      match t.file? place with
      | some text => loadFiles decode [] [(path, text)]
      | none => .error (.notFound path)

def loadSettings (t : FileTree) (path : String) : Except ConfigError EngineSettings :=
  match t.find? path with
  | some (.inside place) =>
    match t.file? place with
    | some (some text) => EngineSettings.ofYaml text (FileTree.shown path)
    | _ => .error (.unreadable (FileTree.shown path))
  | _ => .error (.unreadable (FileTree.shown path))

end ScriptLoader

end Cuescript
