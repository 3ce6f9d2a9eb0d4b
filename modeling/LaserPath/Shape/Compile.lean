import LaserPath.Trace.Figure

/-!
# Compiling shapes

The toolpath of a shape. A container draws its children between two comments;
a child that cannot be drawn leaves a comment behind and disturbs nothing
else.

## Main definitions

* `Shape.compile` — the toolpath of a shape, or why there is none.
-/

namespace LaserPath

/-- The comment in place of a shape that cannot be drawn. -/
def skippedComment (name : String) (error : ShapeError) : Command :=
  .comment ("Skipped shape: " ++ name ++ " (" ++ error.message ++ ")")

namespace Shape

mutual

/-- The toolpath of a shape below the given containers, nearest first. -/
def compile (settings : LaserSettings) (shape : Shape) (ancestors : List Ancestor) :
    Except ShapeError Toolpath := do
  match shape with
  | .leaf a figure =>
    a.check
    figure.trace settings a (a.anchor ancestors)
  | .container a kind children =>
    a.check
    let inside : Toolpath :=
      if children.isEmpty then
        .comment (kind.tag ++ " (empty - drawing bounding box)") ::
          settings.outline (a.anchor ancestors) a.width a.height
      else compileAll settings children (Ancestor.of a :: ancestors)
    return .comment (kind.tag ++ " START - \"" ++ a.name ++ "\"") ::
      (inside ++ [.comment (kind.tag ++ " END - \"" ++ a.name ++ "\"")])

/-- The toolpaths of the children of a container, one after the other. -/
def compileAll (settings : LaserSettings) (children : List Shape) (ancestors : List Ancestor) :
    Toolpath :=
  match children with
  | [] => []
  | child :: rest =>
    (match child.compile settings ancestors with
      | .ok toolpath => toolpath
      | .error error => [skippedComment child.displayName error]) ++
      compileAll settings rest ancestors

end

end Shape

end LaserPath
