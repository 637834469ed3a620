import LinkedMarkup.Normalization
import LinkedMarkup.Tag.Validation
import LinkedMarkup.Visitor.Walk
/-! The passes that look at one node at a time: the index of ids, the structural metadata, the
normal form of text, and the check of attributes. -/
namespace LinkedMarkup.Visitor

/-- Index the ids before anything is resolved. -/
def idIndex : Visitor where
  name := "id-index"
  descends := false
  document _ session d :=
    ⟨d, session.onContext fun context => { context with ids := .ofDocument d }, .ok ()⟩

/-- The metadata that say where an element stands. -/
def structural (place : Place) (e : Element) : Table Value :=
  let parent := place.parents.getLast?
  let above : Value := match parent with
    | some frame => .text frame.tag
    | none => .null
  let path : Value := .array (place.path.map .ofNat)
  let placed : Table Value := e.metadata.insert "depth" (.ofNat place.parents.length)
    |>.insert "path" path |>.insert "parent" above
  let named : Table Value := match parent.bind (·.id) with
    | some id => placed.insert "parent_id" (.text id)
    | none => placed
  named.insert "child_count" (.ofNat e.children.length)

def metadata : Visitor where
  name := "metadata"
  element place session e := .keep { e with metadata := structural place e } session

/-- Bring text into its normal form; text that becomes empty is dropped. -/
def normalization : Visitor where
  name := "content"
  content _ session c :=
    let text := Normalization.normalize c.text
    if text.isEmpty then ⟨c, session, .ok (.replace [])⟩ else .keep { c with text } session

/-- Check the attributes, inherited ones included. -/
def attributeValidation (tags : TagRegistry) : Visitor where
  name := "attribute-validation"
  element _ session e :=
    match tags.find? e.tag with
    | none => .keep e session
    | some definition =>
      let errors := (Validation.attributeErrors definition e).map Diagnostic.ofValidation
      let (context, stop) := session.context.reportAll errors
      ⟨e, { session with context }, match stop with
        | none => .ok .keep
        | some diagnostic => .error diagnostic⟩

end LinkedMarkup.Visitor
