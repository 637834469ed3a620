import LinkedMarkup.Xml.Text
/-! The tree of an XML text. Names lose their namespaces. Comments and processing instructions keep
their places; text on both sides of one stays apart, while marked sections join the text around them. -/
namespace LinkedMarkup.Xml

structure Attribute where
  name : String
  value : String
  deriving DecidableEq, Repr

/-- What a comment or an instruction says is not kept. -/
inductive Tree where
  | element (tag : String) (attributes : List Attribute) (children : List Tree) (span : Span)
  | text (text : String) (span : Span)
  | comment
  | instruction
  deriving Inhabited

/-- Bindings of namespaces in scope, the innermost first. The default one has the empty name. -/
abbrev Scope := List (String × String)

/-- An open element. Its children stand in reverse order. -/
structure Open where
  name : Name
  scope : Scope
  start : Position
  attributes : List Attribute
  children : List Tree := []

/-- Elements that are open, the innermost first, and the root if it is complete. -/
structure Building where
  cursor : Cursor
  stack : List Open := []
  root : Option Tree := none

def xmlUri : String := "http://www.w3.org/XML/1998/namespace"

def xmlnsUri : String := "http://www.w3.org/2000/xmlns/"

/-- An attribute of a start tag with the place where it stands. -/
structure Given where
  start : Cursor
  name : Name
  value : String

/-- The binding that an attribute declares, if it is a declaration; `own` are those declared
before it by the same element. -/
def declaration? (own : Scope) (given : Given) : Result (Option Scope) :=
  let { start, name, value } := given
  if name.space == "xmlns" then
    if value == xmlnsUri then start.error .reservedUri
    else if name.name == "xml" then
      if value == xmlUri then .ok (some []) else start.error .xmlBoundElsewhere
    else if value == xmlUri then start.error .xmlUriBoundElsewhere
    else if (own.lookup name.name).isSome then start.error (.duplicateNamespace name.name)
    else .ok (some [(name.name, value)])
  else if name.name == "xmlns" then
    if value == xmlUri then start.error .xmlUriBoundElsewhere
    else if value == xmlnsUri then start.error .reservedUri
    else .ok (some [("", value)])
  else .ok none

/-- The namespace of an attribute; without a colon it has none. -/
def attributeSpace (scope : Scope) (given : Given) : Result (Option String) :=
  if given.name.space == "xml" then .ok (some xmlUri)
  else if given.name.space.isEmpty then .ok none
  else match scope.lookup given.name.space with
    | some uri => .ok (some uri)
    | none => given.start.error (.unknownNamespace given.name.space)

/-- Attributes by their namespaces; no two may have the same name in the same namespace. -/
def resolveAttributes (scope : Scope) : (seen : List (Option String × String)) → List Given →
    Result (List Attribute)
  | _, [] => .ok []
  | seen, given :: rest => do
    let space ← attributeSpace scope given
    if seen.contains (space, given.name.name) then
      given.start.error (.duplicateAttribute given.name.name)
    let others ← resolveAttributes scope ((space, given.name.name) :: seen) rest
    return ⟨given.name.name, given.value⟩ :: others

inductive TagEnd where
  | opened
  | closed
  /-- The text ends inside the tag, between two attributes. -/
  | cutOff

structure StartTag where
  own : Scope := []
  /-- In reverse order. -/
  given : List Given := []
  tagEnd : TagEnd := .cutOff

/-- Read the attributes and the end of a start tag. -/
def attributes : Nat → StartTag → Cursor → Result (StartTag × Cursor)
  | 0, tag, cursor => .ok (tag, cursor)
  | fuel + 1, tag, cursor =>
    if cursor.atEnd then .ok (tag, cursor)
    else do
      let start := cursor.skipSpaces
      let c ← start.peek
      if c == '/' then return ({ tag with tagEnd := .closed }, ← (start.pass 1).mark '>')
      else if c == '>' then return ({ tag with tagEnd := .opened }, start.pass 1)
      else if !cursor.atSpace then start.error (.expectedKind "a whitespace" c)
      else
        let (name, afterName) ← start.qualifiedName
        let (valueStart, taken, after) ← afterName.attributeValue
        let given : Given := ⟨start, name, ← valueOf valueStart taken⟩
        match ← declaration? tag.own given with
        | some binding => attributes fuel { tag with own := tag.own ++ binding } after
        | none => attributes fuel { tag with given := given :: tag.given } after

/-- Text joins the text that stands right before it. -/
def Open.addText (o : Open) (text : String) (span : Span) : Open :=
  match o.children with
  | .text before first :: rest => { o with children := .text (before ++ text) first :: rest }
  | children => { o with children := .text text span :: children }

def Open.add (o : Open) (tree : Tree) : Open := { o with children := tree :: o.children }

/-- Put a complete element below the innermost open one, or make it the root. -/
def Building.add (building : Building) (tree : Tree) (after : Cursor) : Building :=
  match building.stack with
  | parent :: rest => { building with cursor := after, stack := parent.add tree :: rest }
  | [] => { building with cursor := after, root := some tree }

def Building.addText (building : Building) (text : String) (after : Cursor) : Building :=
  let span : Span := ⟨building.cursor.position, after.position⟩
  match building.stack with
  | o :: rest => { building with cursor := after, stack := o.addText text span :: rest }
  | [] => { building with cursor := after }

/-- Put a comment or an instruction below the innermost open element. -/
def Building.addAside (building : Building) (aside : Tree) (after : Cursor) : Building :=
  match building.stack with
  | o :: rest => { building with cursor := after, stack := o.add aside :: rest }
  | [] => { building with cursor := after }

def Building.startElement (building : Building) : Result Building := do
  let start := building.cursor
  let (name, afterName) ← (start.pass 1).qualifiedName
  if name.space == "xmlns" then (start.pass 1).error .reservedElement
  let (tag, after) ← attributes (afterName.rest.length + 1) {} afterName
  let scope := tag.own ++ (match building.stack with | o :: _ => o.scope | [] => [])
  let resolve : Result (List Attribute) := do
    let resolved ← resolveAttributes scope [] tag.given.reverse
    if !name.space.isEmpty && (scope.lookup name.space).isNone then
      (start.pass 1).error (.unknownNamespace name.space)
    return resolved
  match tag.tagEnd with
  | .cutOff => return { building with cursor := after }
  | .closed =>
    return building.add (.element name.name (← resolve) [] ⟨start.position, after.position⟩) after
  | .opened =>
    return { building with
      cursor := after
      stack := { name, scope, start := start.position, attributes := ← resolve } :: building.stack }

def Building.endElement (building : Building) : Result Building := do
  let start := building.cursor
  let (name, afterName) ← (start.pass 2).qualifiedName
  let after ← afterName.skipSpaces.mark '>'
  match building.stack with
  | [] => start.error .unknownToken
  | o :: rest =>
    if name != o.name then start.error (.closeTag o.name.text name.text)
    let tree := Tree.element o.name.name o.attributes o.children.reverse ⟨o.start, after.position⟩
    return { building with stack := rest }.add tree after

def comment (cursor : Cursor) : Result Cursor := do
  let (taken, afterText) ← (cursor.pass 4).runUntil fun cs => "-->".toList.isPrefixOf cs
  let after ← afterText.word "-->"
  let dashes (cs : List Char) : Bool := cs.zip (cs.drop 1) |>.any (· == ('-', '-'))
  if dashes taken || taken.getLast? == some '-' then cursor.error .comment
  return after

def instruction (cursor : Cursor) : Result Cursor := do
  if cursor.begins "<?xml " then cursor.error .declaration
  let (_, afterName) ← (cursor.pass 2).name
  let (_, afterText) ← afterName.skipSpaces.runUntil fun cs => "?>".toList.isPrefixOf cs
  afterText.word "?>"

def containsEnd (cs : List Char) : Bool :=
  match cs with
  | [] => false
  | _ :: rest => "]]>".toList.isPrefixOf cs || containsEnd rest

/-- Read what comes next inside the root element. -/
def Building.content (building : Building) : Result Building :=
  let cursor := building.cursor
  match cursor.rest with
  | '<' :: '!' :: _ =>
    if cursor.begins "<!--" then (comment cursor).map (building.addAside .comment)
    else if cursor.begins "<![CDATA[" then do
      let (taken, afterText) ← (cursor.pass 9).runUntil fun cs => "]]>".toList.isPrefixOf cs
      let after ← afterText.word "]]>"
      return building.addText (String.ofList (expandSection [] taken)) after
    else cursor.error .unknownToken
  | '<' :: '?' :: _ => (instruction cursor).map (building.addAside .instruction)
  | '<' :: '/' :: _ => building.endElement
  | ['<'] => cursor.error .unknownToken
  | '<' :: _ => building.startElement
  | _ => do
    let (taken, after) ← cursor.runUntil fun cs => cs.head? == some '<'
    if containsEnd taken then after.error .characterData
    return building.addText (← textOf cursor taken) after

def Building.contents : Nat → Building → Result Building
  | 0, building => .ok building
  | fuel + 1, building =>
    if building.stack.isEmpty || building.cursor.atEnd then .ok building
    else building.content.bind fun next => contents fuel next

/-- Comments, instructions and space outside the root element. -/
def outside : Nat → Cursor → Result (List Tree × Cursor)
  | 0, cursor => .ok ([], cursor)
  | fuel + 1, cursor =>
    let start := cursor.skipSpaces
    let goOn (aside : Tree) (next : Cursor) : Result (List Tree × Cursor) := do
      let (others, after) ← outside fuel next
      return (aside :: others, after)
    if start.begins "<!--" then (comment start).bind (goOn .comment)
    else if start.begins "<?" then (instruction start).bind (goOn .instruction)
    else .ok ([], start)

/-- Space between the parts of an XML declaration. -/
def declarationSpace (cursor : Cursor) : Result Cursor :=
  match cursor.rest with
  | [] => .ok cursor
  | c :: _ =>
    if isSpace c then .ok cursor.skipSpaces
    else if cursor.begins "?>" then .ok cursor
    else cursor.error (.expectedKind "a whitespace" c)

def declarationPart (cursor : Cursor) : Result Cursor := do
  let (_, afterName) ← cursor.qualifiedName
  let (_, _, after) ← afterName.attributeValue
  return after

def xmlDeclaration (cursor : Cursor) : Result Cursor := do
  let start ← declarationSpace (cursor.pass 5)
  if !start.begins "version" then start.error (.expectedText "version")
  let version ← declarationSpace (← declarationPart start)
  let encoding ← if version.begins "encoding" then declarationSpace (← declarationPart version)
    else pure version
  let standalone ← if encoding.begins "standalone" then declarationPart encoding else pure encoding
  standalone.skipSpaces.word "?>"

/-- The trees of a text: its root element with the comments and instructions around it. -/
def read (text : String) : Result (List Tree) := do
  let cs := text.toList
  let fuel := cs.length + 1
  let whole : Cursor := { rest := cs }
  let start := if whole.begins "\ufeff" then whole.pass 1 else whole
  let declared ← if start.begins "<?xml " then xmlDeclaration start else pure start
  let (above, before) ← outside fuel declared
  if before.begins "<!DOCTYPE" then .error ⟨.documentType, none⟩
  let root ← if before.begins "<" then
      (Building.startElement { cursor := before }).bind (Building.contents fuel)
    else pure { cursor := before }
  let (below, after) ← outside fuel root.cursor
  if !after.atEnd then after.error .unknownToken
  match root.stack, root.root with
  | _ :: _, _ => .error ⟨.unclosedRoot, none⟩
  | [], some tree => return above ++ tree :: below
  | [], none => .error ⟨.noRoot, none⟩

end LinkedMarkup.Xml
