import LinkedMarkup.Table
import LinkedMarkup.Yaml.Token
/-! The node tree of a YAML text. Aliases stand for the node that last took their anchor. A text
holds at most one document; one without a document is an empty node. -/
namespace LinkedMarkup.Yaml

inductive Tree where
  | scalar (text : String) (style : Style) (tag : Option String)
  | sequence (items : List Tree) (tag : Option String)
  | mapping (entries : List (Tree × Tree)) (tag : Option String)
  deriving Inhabited

namespace Tree

/-- A place where a node may stand but none does. -/
def empty : Tree := .scalar "" .plain none

/-- Handles with the beginnings of tags they stand for, and the anchored nodes so far. -/
structure Names where
  handles : List (String × String) := [("!", "!"), ("!!", "tag:yaml.org,2002:")]
  anchors : Table Tree := []

def Names.tag? (names : Names) (handle suffix : String) : Option String :=
  if handle.isEmpty then some suffix else (names.handles.lookup handle).map (· ++ suffix)

/-- What may follow in a place where a node may be left out. -/
inductive Setting where
  | blockItem
  | indentlessItem
  | blockKey
  | flowItem
  | flowKey
  | pairKey

def Setting.isOver : Setting → Token → Bool
  | blockItem, token => token == .blockEntry || token == .blockEnd
  | indentlessItem, token =>
    token == .blockEntry || token == .key || token == .value || token == .blockEnd
  | blockKey, token => token == .key || token == .value || token == .blockEnd
  | flowItem, token =>
    token == .flowEntry || token == .flowSequenceEnd || token == .flowMappingEnd
  | flowKey, token => token == .value || token == .flowEntry || token == .flowMappingEnd
  | pairKey, token => token == .value || token == .flowEntry || token == .flowSequenceEnd

structure Reading where
  tokens : List Token
  names : Names := {}

/-- Properties before a node: an anchor and a tag in either order. -/
structure Properties where
  anchor : Option String := none
  tag : Option String := none

def properties? (reading : Reading) : Option (Properties × Reading) :=
  match reading.tokens with
  | .anchor name :: .tag handle suffix :: rest =>
    (reading.names.tag? handle suffix).map fun tag => (⟨name, tag⟩, { reading with tokens := rest })
  | .tag handle suffix :: .anchor name :: rest =>
    (reading.names.tag? handle suffix).map fun tag => (⟨name, tag⟩, { reading with tokens := rest })
  | .anchor name :: rest => some (⟨name, none⟩, { reading with tokens := rest })
  | .tag handle suffix :: rest =>
    (reading.names.tag? handle suffix).map fun tag => (⟨none, tag⟩, { reading with tokens := rest })
  | _ => some ({}, reading)

def named (properties : Properties) (result : Tree × Reading) : Tree × Reading :=
  match properties.anchor with
  | none => result
  | some name =>
    (result.1, { result.2 with names.anchors := result.2.names.anchors.insert name result.1 })

/-- Properties alone stand for an empty node. -/
def bare? (properties : Properties) (reading : Reading) : Option (Tree × Reading) :=
  if properties.anchor.isSome || properties.tag.isSome then
    some (.scalar "" .plain (properties.tag.filter (· != "!")), reading)
  else none

def Reading.drop (reading : Reading) (count : Nat) : Reading :=
  { reading with tokens := reading.tokens.drop count }

mutual
/-- Read a node. `block` admits block collections, `indentless` a sequence that stands at the
column of its key. `fuel` bounds the steps; each step but a bounded few takes a token. -/
def node? : Nat → (block indentless : Bool) → Reading → Option (Tree × Reading)
  | 0, _, _, _ => none
  | fuel + 1, block, indentless, reading =>
    match reading.tokens with
    | .alias name :: _ =>
      (reading.names.anchors.find? name).map fun tree => (tree, reading.drop 1)
    | _ => do
      let (properties, reading) ← properties? reading
      let tag := properties.tag
      let result ← match reading.tokens with
        | .blockEntry :: _ =>
          if indentless then indentless? fuel tag [] reading
          else bare? properties reading
        | .scalar text style :: _ =>
          some (.scalar text style (tag.filter (· != "!")), reading.drop 1)
        | .flowSequence :: _ => flowSequence? fuel tag true [] (reading.drop 1)
        | .flowMapping :: _ => flowMapping? fuel tag true [] (reading.drop 1)
        | .blockSequence :: _ =>
          if block then blockSequence? fuel tag [] (reading.drop 1) else bare? properties reading
        | .blockMapping :: _ =>
          if block then blockMapping? fuel tag [] (reading.drop 1) else bare? properties reading
        | _ => bare? properties reading
      return named properties result

/-- A node, or an empty one if the setting is over. -/
def optional? : Nat → Setting → (block indentless : Bool) → Reading → Option (Tree × Reading)
  | 0, _, _, _, _ => none
  | fuel + 1, setting, block, indentless, reading =>
    match reading.tokens with
    | token :: _ =>
      if setting.isOver token then some (empty, reading)
      else node? fuel block indentless reading
    | [] => node? fuel block indentless reading

/-- The items read so far stand in reverse order, here and below. -/
def blockSequence? : Nat → Option String → List Tree → Reading → Option (Tree × Reading)
  | 0, _, _, _ => none
  | fuel + 1, tag, items, reading =>
    match reading.tokens with
    | .blockEntry :: _ => do
      let (item, reading) ← optional? fuel .blockItem true false (reading.drop 1)
      blockSequence? fuel tag (item :: items) reading
    | .blockEnd :: _ => some (.sequence items.reverse tag, reading.drop 1)
    | _ => none

def indentless? : Nat → Option String → List Tree → Reading → Option (Tree × Reading)
  | 0, _, _, _ => none
  | fuel + 1, tag, items, reading =>
    match reading.tokens with
    | .blockEntry :: _ => do
      let (item, reading) ← optional? fuel .indentlessItem true false (reading.drop 1)
      indentless? fuel tag (item :: items) reading
    | _ => some (.sequence items.reverse tag, reading)

def blockMapping? : Nat → Option String → List (Tree × Tree) → Reading → Option (Tree × Reading)
  | 0, _, _, _ => none
  | fuel + 1, tag, entries, reading =>
    match reading.tokens with
    | .key :: _ => do
      let (key, reading) ← optional? fuel .blockKey true true (reading.drop 1)
      let (value, reading) ← match reading.tokens with
        | .value :: _ => optional? fuel .blockKey true true (reading.drop 1)
        | _ => some (empty, reading)
      blockMapping? fuel tag ((key, value) :: entries) reading
    | .blockEnd :: _ => some (.mapping entries.reverse tag, reading.drop 1)
    | _ => none

def flowSequence? : Nat → Option String → (first : Bool) → List Tree → Reading →
    Option (Tree × Reading)
  | 0, _, _, _, _ => none
  | fuel + 1, tag, first, items, reading =>
    match reading.tokens with
    | .flowSequenceEnd :: _ => some (.sequence items.reverse tag, reading.drop 1)
    | _ => do
      let reading ← match first, reading.tokens with
        | true, _ => some reading
        | false, .flowEntry :: _ => some (reading.drop 1)
        | false, _ => none
      match reading.tokens with
      | .flowSequenceEnd :: _ => some (.sequence items.reverse tag, reading.drop 1)
      | .key :: _ =>
        let (key, reading) ← optional? fuel .pairKey false false (reading.drop 1)
        let (value, reading) ← flowValue? fuel reading
        flowSequence? fuel tag false (.mapping [(key, value)] none :: items) reading
      | _ =>
        let (item, reading) ← node? fuel false false reading
        flowSequence? fuel tag false (item :: items) reading

def flowMapping? : Nat → Option String → (first : Bool) → List (Tree × Tree) → Reading →
    Option (Tree × Reading)
  | 0, _, _, _, _ => none
  | fuel + 1, tag, first, entries, reading =>
    match reading.tokens with
    | .flowMappingEnd :: _ => some (.mapping entries.reverse tag, reading.drop 1)
    | _ => do
      let reading ← match first, reading.tokens with
        | true, _ => some reading
        | false, .flowEntry :: _ => some (reading.drop 1)
        | false, _ => none
      match reading.tokens with
      | .flowMappingEnd :: _ => some (.mapping entries.reverse tag, reading.drop 1)
      | .key :: _ =>
        let (key, reading) ← optional? fuel .flowKey false false (reading.drop 1)
        let (value, reading) ← flowValue? fuel reading
        flowMapping? fuel tag false ((key, value) :: entries) reading
      | _ =>
        let (key, reading) ← node? fuel false false reading
        flowMapping? fuel tag false ((key, empty) :: entries) reading

/-- The value after a key inside brackets, which may be left out. -/
def flowValue? : Nat → Reading → Option (Tree × Reading)
  | 0, _ => none
  | fuel + 1, reading =>
    match reading.tokens with
    | .value :: _ => optional? fuel .flowItem false false (reading.drop 1)
    | _ => some (empty, reading)
end

/-- Directives before a document; each may be given once, and the version is 1.1 or 1.2. -/
def directives? : List Token → (version : Bool) → List (String × String) →
    Option (List (String × String) × List Token)
  | .version major minor :: rest, version, handles =>
    if version || major != 1 || (minor != 1 && minor != 2) then none
    else directives? rest true handles
  | .tagDirective handle start :: rest, version, handles =>
    if (handles.lookup handle).isSome then none
    else directives? rest version ((handle, start) :: handles)
  | tokens, _, handles => some (handles, tokens)

/-- The only document of a text. -/
def ofTokens? (tokens : List Token) : Option Tree := do
  let fuel := 4 * tokens.length + 8
  let (handles, afterDirectives) ← directives? tokens false []
  let names : Names := { handles := handles ++ ({} : Names).handles }
  let explicit := afterDirectives.length < tokens.length
  let (tree, reading) ← match afterDirectives with
    | .documentStart :: rest =>
      match rest with
      | [] => some (empty, ⟨[], names⟩)
      | token :: _ =>
        if token == .documentStart || token == .documentEnd then some (empty, ⟨rest, names⟩)
        else match token with
          | .version _ _ | .tagDirective _ _ => some (empty, ⟨rest, names⟩)
          | _ => node? fuel true false ⟨rest, names⟩
    | [] => if explicit then none else some (empty, ⟨[], names⟩)
    | rest => if explicit then none else node? fuel true false ⟨rest, names⟩
  if (reading.tokens.dropWhile (· == .documentEnd)).isEmpty then some tree else none

def ofText? (text : String) : Option Tree := (Token.ofText? text).bind ofTokens?

end Tree
end LinkedMarkup.Yaml
