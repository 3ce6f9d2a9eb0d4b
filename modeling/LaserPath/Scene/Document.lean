import LaserPath.Files.Basic
import LaserPath.Json.Reader
import LaserPath.Scene.Node

/-!
# Scene documents

A scene is an array of nodes, each selected on the page itself, or an object
with a selection of nodes and the containers above them.

## Main definitions

* `SceneError` — why a document is no scene.
* `selectionOfJson` — the selection of a value.
* `readScene` — the selection of a text.
-/

namespace LaserPath

/-- Why a document is no scene. -/
inductive SceneError where
  | notJson (error : Json.SyntaxError)
  /-- The document is JSON, but something in it has the wrong type or is missing. -/
  | wrongData
  | unexpectedLayout
  | unreadable (error : FileError)
  deriving DecidableEq

/-- The text of the reason. -/
def SceneError.message : SceneError → String
  | .notJson _ | .wrongData => "Invalid scene JSON"
  | .unexpectedLayout =>
    "Scene document must be an object with a 'selection' array or an array of nodes"
  | .unreadable error => "Failed to read scene file: " ++ error.message

/-- The fields of a scene. -/
def sceneLayout : Json.Layout := ⟨["selection"], true⟩

/-- The nodes of an array, each selected on the page itself. -/
def bareSelection? (items : List Json) : Option (List SelectedNode) :=
  (Shape.listOfItems? items).map fun shapes => shapes.map (⟨·, []⟩)

/-- The selection of an object. -/
def objectSelection? (json : Json) : Option (List SelectedNode) := do
  let fields ← json.fields? sceneLayout
  fields.optional? "selection" (Json.list? SelectedNode.ofJson?) []

/-- The selection of a value. -/
def selectionOfJson (json : Json) : Except SceneError (List SelectedNode) :=
  match json with
  | .array items => (bareSelection? items).elim (.error .wrongData) .ok
  | .object members => (objectSelection? (.object members)).elim (.error .wrongData) .ok
  | _ => .error .unexpectedLayout

/-- The selection of a text. -/
def readScene (text : String) : Except SceneError (List SelectedNode) :=
  match Json.read .document text with
  | .ok json => selectionOfJson json
  | .error error => .error (.notJson error)

/-- The selection of a file. -/
def FileStore.readScene {m : Type → Type} [Monad m] (store : FileStore m) (path : String) :
    m (Except SceneError (List SelectedNode)) := do
  match ← store.readText path with
  | .ok text => return LaserPath.readScene text
  | .error error => return .error (.unreadable error)

end LaserPath
