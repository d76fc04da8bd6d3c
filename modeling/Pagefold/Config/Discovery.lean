import Pagefold.Config.Check
import Pagefold.Config.Environment
import Pagefold.Json.Reread
import Pagefold.Toml.Document

/-! # Finding and layering configurations

A configuration is made of layers: the defaults, a file, and the environment, each laid over the one
before (`Config.ofLayers`).  The file of a directory is `inlay.toml`, or a package description with a
field for it (`Config.find?`). -/

namespace Pagefold

open Json

/-- What one source says. -/
structure Layer where
  source : Source
  reading : Environment.Reading

namespace Layer

def of (source : Source) (value : Json) : Layer := ⟨source, .plain value⟩

/-- The configuration that is there before anything is said. -/
def defaults : Layer := .of .defaults (({} : Config).toJson)

def ofVariables (env : List (String × String)) : Layer :=
  ⟨.environment, Environment.ofVariables env⟩

/-- What a layer says at a path. -/
def valueAt? (layer : Layer) (path : List String) : Option SourceValue :=
  (layer.reading.value.follow? path).map fun value =>
    ⟨layer.source, value, layer.reading.minusZeros.contains path⟩

end Layer

namespace Config

/-- All layers as one value; of two layers the later one prevails. -/
def layered (layers : List Layer) : Json :=
  layers.foldl (fun json layer => json.merge layer.reading.value) (object [])

/-- Says which layer is to blame for a value that does not fit: the last one that says anything
there. -/
def blame (layers : List Layer) (e : DecodeError) : ConfigError :=
  match layers.reverse.findSome? (·.valueAt? e.path) with
  | some value => .unfitIn value e
  | none => .unfit e

/-- The configuration of some layers. -/
def ofLayers (layers : List Layer) : Except ConfigError Config :=
  (decode false (layered layers)).mapError (blame layers)

/-! ### Files -/

def tomlName : String := "inlay.toml"

def packageName : String := "package.json"

/-- The field of a package description that holds a configuration. -/
def packageKey : String := "inlay"

/-- The path of a file as it is told: from the current directory, without detours that lead
nowhere. -/
def toldPath (path : String) : String :=
  String.ofList (['/'].intercalate (Path.steps path.toList))

def pathIn (root name : String) : String :=
  String.ofList (Path.join root.toList name.toList)

/-- The field of a package description, unless it is missing or null. -/
def packageField? (package : Json) : Option Json :=
  match package.field? packageKey with
  | some null => none
  | field? => field?

/-- The configuration file of a directory. -/
def find? (t : FileTree) (root : String) : Option String :=
  let toml := pathIn root tomlName
  let package := pathIn root packageName
  if t.isFile toml then some toml
  else
    match t.readText package with
    | .ok text => if ((Json.parse? text).bind packageField?).isSome then some package else none
    | .error _ => none

/-- The layer of a source with an object in it. -/
def objectLayer (source : Source) : Option Json → Except ConfigError Layer
  | some (object fields) => .ok (.of source (object fields))
  | _ => .error (.malformed source)

/-- The layer of a package description.  Its field is read as a text of its own, and so a second
time. -/
def packageLayer (t : FileTree) (path : String) : Except ConfigError Layer := do
  let text ← (t.readText path).mapError .unreadable
  match Json.parse? text with
  | none => .error .malformedPackage
  | some package =>
    match packageField? package with
    | none => .error .noPackageField
    | some field => objectLayer .packageField field.reread

/-- The layer of a file in a format.  A directory in its place says nothing. -/
def formatLayer (t : FileTree) (path : String) (source : Source) (parse? : String → Option Json) :
    Except ConfigError (List Layer) :=
  if !t.isFile path then .ok []
  else
    match t.readText path with
    | .ok text => (objectLayer source (parse? text)).map ([·])
    | .error _ => .error (.undecoded source)

/-- The layers of a file, by its name: a package description, JSON, or else TOML. -/
def fileLayers (t : FileTree) (path : String) : Except ConfigError (List Layer) := do
  let _ ← (t.find path).mapError .unreadable
  if Path.lastName? path.toList == some packageName.toList then
    return [← packageLayer t path]
  else if Path.extension? path.toList == some ['j', 's', 'o', 'n'] then
    formatLayer t path (.jsonFile (toldPath path)) Json.parse?
  else formatLayer t path (.tomlFile (toldPath path)) Toml.parse?

/-- The configuration of a file under the environment. -/
def loadFile (t : FileTree) (env : List (String × String)) (path : String) :
    Except ConfigError Config := do
  let layers ← fileLayers t path
  ofLayers (.defaults :: layers ++ [.ofVariables env])

/-- The configuration of a directory that has a file for it. -/
def load (t : FileTree) (env : List (String × String)) (root : String) :
    Except ConfigError Config :=
  match find? t root with
  | some path => loadFile t env path
  | none => .error .notFound

/-- The configuration of a directory, whether it has a file or not. -/
def loadOrDefault (t : FileTree) (env : List (String × String)) (root : String) :
    Except ConfigError Config :=
  match find? t root with
  | some path => loadFile t env path
  | none => ofLayers [.defaults, .ofVariables env]

end Config

end Pagefold
