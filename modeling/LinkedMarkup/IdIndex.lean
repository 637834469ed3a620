import LinkedMarkup.Node
/-! The index of ids: paths into the document as it was when the index was made. Of several
elements with one id the first in document order counts. -/
namespace LinkedMarkup

structure IdIndex where
  document : Document := {}
  paths : Table NodePath := []

namespace IdIndex

mutual
/-- Add the ids of a node, which stands at `path`, and of all elements below it. -/
def collect (path : NodePath) : Node → Table NodePath → Table NodePath
  | .element e, table => collectElement path e table
  | _, table => table
def collectAll (parent : NodePath) (index : Nat) : List Node → Table NodePath → Table NodePath
  | [], table => table
  | node :: rest, table =>
    collectAll parent (index + 1) rest (collect (parent ++ [index]) node table)
def collectElement (path : NodePath) : Element → Table NodePath → Table NodePath
  | ⟨_, attributes, children, _, _⟩, table =>
    let table := match (Table.find? attributes "id").bind Value.asText? with
      | some id => table.insertNew id path
      | none => table
    collectAll path 0 children table
end

def ofDocument (d : Document) : IdIndex := ⟨d, collectAll [] 0 d.children []⟩

def path? (index : IdIndex) (id : String) : Option NodePath := index.paths.find? id

/-- The first element with the id. -/
def find? (index : IdIndex) (id : String) : Option Element :=
  (index.path? id).bind index.document.elementAt?

/-- Indexed ids in ascending order. -/
def ids (index : IdIndex) : List String := index.paths.keys

def size (index : IdIndex) : Nat := index.paths.length

end IdIndex
end LinkedMarkup
