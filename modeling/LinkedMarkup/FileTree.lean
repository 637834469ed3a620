import LinkedMarkup.Protocol.File
import LinkedMarkup.Table
/-! A tree of files held in memory. Names are relative to its root; a step up from the root leads to
directories of which nothing is known. -/
namespace LinkedMarkup

/-- The files by the segments of their names, joined by slashes; a directory has no content. -/
structure FileTree where
  entries : Table (Option ByteArray) := []

namespace FileTree

def nameOf (segments : List String) : String := Text.join "/" segments

/-- Put an entry at a place and directories above it. -/
def insert (tree : FileTree) (segments : List String) (content : Option ByteArray) : FileTree :=
  let above := (List.range segments.length).foldl (fun table n =>
    if n == 0 then table else table.insertNew (nameOf (segments.take n)) none) tree.entries
  ⟨match content with
    | some bytes => above.insert (nameOf segments) (some bytes)
    | none => above.insertNew (nameOf segments) none⟩

/-- What a name leads to. -/
inductive Place where
  | entry (segments : List String)
  | outside
  /-- A step leads below something that is no directory. -/
  | blocked
  | missing (segments : List String)

def isDirectory (tree : FileTree) (segments : List String) : Bool :=
  segments.isEmpty || match tree.entries.find? (nameOf segments) with
    | some none => true
    | _ => false

/-- A segment that names nothing: it stays in a directory or leads to the one above. -/
def isStep (segment : String) : Bool := segment.isEmpty || segment == "." || segment == ".."

/-- Follow the segments of a name from a place in the tree. -/
def follow (tree : FileTree) (here : List String) : List String → Place
  | [] => .entry here
  | segment :: rest =>
    if !tree.isDirectory here then .blocked
    else if segment.isEmpty || segment == "." then follow tree here rest
    else if segment == ".." then
      if !here.isEmpty then follow tree here.dropLast rest
      else if rest.all isStep then .entry [] else .outside
    else if tree.entries.contains (nameOf (here ++ [segment])) then
      follow tree (here ++ [segment]) rest
    else if rest.isEmpty then .missing (here ++ [segment])
    else .missing []

/-- The size that is told for a directory. -/
def directorySize : Nat := 4096

def files (tree : FileTree) : Files := fun name =>
  if name.toList.contains '\x00' then .refused
  else if name.isEmpty || FilePath.isAbsolute name then .missing
  else match tree.follow [] (Text.split '/' name) with
    | .entry segments =>
      match tree.entries.find? (nameOf segments) with
      | some (some bytes) => .content bytes
      | _ => .unreadable directorySize
    | .blocked => .refused
    | .outside | .missing _ => .missing

/-- Write a file. Its directory has to be there. -/
def write? (tree : FileTree) (name : String) (bytes : ByteArray) : Option FileTree :=
  if name.isEmpty || FilePath.isAbsolute name then none
  else match tree.follow [] (Text.split '/' name) with
    | .entry segments =>
      if tree.isDirectory segments then none else some (tree.insert segments (some bytes))
    | .missing (first :: rest) => some (tree.insert (first :: rest) (some bytes))
    | _ => none

end FileTree
end LinkedMarkup
