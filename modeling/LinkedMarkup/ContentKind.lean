import LinkedMarkup.Json.Reader
import LinkedMarkup.Markup
import LinkedMarkup.Yaml.Scalar
/-! How fetched text is read: as data, as markup or as plain text. The kind follows from a media
type or from the extension of a file name. -/
namespace LinkedMarkup

inductive ContentKind where
  | json
  | yaml
  | markup
  | text
  deriving DecidableEq, Repr

namespace ContentKind

/-- `part` stands somewhere in the text. -/
def holds (part : List Char) : List Char → Bool
  | [] => part.isEmpty
  | c :: rest => part.isPrefixOf (c :: rest) || holds part rest

/-- The kind of a media type; its parameters do not count. None if it is empty. -/
def ofMediaType? (mediaType : String) : Option ContentKind :=
  let name := (Text.splitChars ';' mediaType.toList).headD []
  let mime := (Text.trimChars name).map Char.toLower
  if mime.isEmpty then none
  else if mime == "application/json".toList || "nosj+".toList.isPrefixOf mime.reverse then some json
  else if holds "yaml".toList mime then some yaml
  else if holds "xml".toList mime then some markup
  else some text

/-- The kind of a file by the extension of its name. -/
def ofPath (path : String) : ContentKind :=
  let name := ((Text.split '/' path).getLast?).getD ""
  match (Text.cutLast? '.' name).map fun (_, extension) => Text.asciiLower extension with
  | some "json" => json
  | some "yaml" | some "yml" => yaml
  | some "xml" | some "mw" | some "markup" => markup
  | _ => text

end ContentKind

/-- What a fetched text stands for. `key` is the reference that asked for it. -/
def decode (key content : String) (kind : ContentKind) : Except ReferenceError Resolved :=
  match kind with
  | .json =>
    match Json.read? content with
    | some value => .ok (.data value)
    | none => .error (.decode key "the text is not JSON")
  | .yaml =>
    match Yaml.read? content with
    | some value => .ok (.data value)
    | none => .error (.decode key "the text is not YAML")
  | .markup =>
    match Markup.read content with
    | .ok document => .ok (.document document)
    | .error e => .error (.decode key e.message)
  | .text => .ok (.text content)

end LinkedMarkup
