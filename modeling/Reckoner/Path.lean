/-!
# Dotted paths

A path is split at every dot, so it has one segment more than dots and segments
may be empty.
-/

namespace Reckoner.Path

/-- The runs between the dots of a text. -/
def splitDots : List Char → List (List Char)
  | [] => [[]]
  | c :: rest =>
    if c = '.' then [] :: splitDots rest
    else
      -- The first character joins the first run of the rest.
      match splitDots rest with
      | [] => [[c]]
      | run :: runs => (c :: run) :: runs

/-- The segments of a path, in order. -/
def segments (path : String) : List String :=
  (splitDots path.toList).map String.ofList

/-- The path with these segments. -/
def join (segments : List String) : String :=
  String.intercalate "." segments

end Reckoner.Path
