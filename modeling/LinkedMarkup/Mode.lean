import LinkedMarkup.Node
/-! The mode of a document: an error ends the processing of a strict document and is recorded for a
loose one. -/
namespace LinkedMarkup

inductive Mode where
  | strict
  | loose
  deriving DecidableEq, Repr, Inhabited

def Mode.text : Mode → String
  | strict => "strict"
  | loose => "loose"

/-- The first element at top level chooses the mode by its attribute `mode`. -/
def Mode.ofDocument (d : Document) : Mode :=
  match d.root?.bind (·.attribute? "mode") with
  | some word => if Text.asciiLower (Text.trim word) == "strict" then .strict else .loose
  | none => .loose

end LinkedMarkup
