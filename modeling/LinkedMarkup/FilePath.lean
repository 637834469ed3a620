import LinkedMarkup.Text
/-! Names of files: segments between slashes. Empty segments and full stops do not count, except a
full stop in front. -/
namespace LinkedMarkup.FilePath

def isAbsolute (path : String) : Bool := path.toList.head? == some '/'

/-- Drop segments that do not count from the end. The first segment of a relative name counts if
it is a full stop. -/
def trimSegments (relative : Bool) : List String → List String
  | [] => []
  | segment :: rest =>
    match trimSegments false rest with
    | [] => if segment.isEmpty || (segment == "." && !relative) then [] else [segment]
    | kept => segment :: kept

/-- The name without its last segment; none for the root and for the empty name. -/
def parent? (path : String) : Option String :=
  let absolute := isAbsolute path
  let body := if absolute then String.ofList (path.toList.drop 1) else path
  match trimSegments (!absolute) (Text.split '/' body) with
  | [] => none
  | kept =>
    let before := Text.join "/" (trimSegments (!absolute) kept.dropLast)
    some (if absolute then "/" ++ before else before)

/-- A relative name as seen from a directory. -/
def join (directory name : String) : String :=
  if isAbsolute name || directory.isEmpty then name
  else if directory.toList.getLast? == some '/' then directory ++ name
  else directory ++ "/" ++ name

end LinkedMarkup.FilePath
