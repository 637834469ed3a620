import LinkedMarkup.FilePath
import LinkedMarkup.Protocol.Handler
/-! References to files. A relative name is seen from the directory of the document; the extension
says how the content is read. -/
namespace LinkedMarkup

/-- What stands under the name of a file. -/
inductive FileEntry where
  | missing
  | content (bytes : ByteArray)
  /-- A directory of this size or another thing without text. -/
  | unreadable (size : Nat)
  /-- The name cannot be looked up. -/
  | refused

/-- The files by name, as seen from the working directory. -/
abbrev Files := String → FileEntry

/-- Why a file gives no text. -/
inductive FileError where
  | missing
  | unreadable
  | tooLarge (size limit : Nat)
  deriving DecidableEq, Repr

namespace Files

/-- The text of a file of at most `limit` bytes. -/
def read (files : Files) (name : String) (limit : Option Nat := none) : Except FileError String :=
  let sized (size : Nat) (result : Except FileError String) : Except FileError String :=
    match limit with
    | some limit => if size > limit then .error (.tooLarge size limit) else result
    | none => result
  match files name with
  | .missing => .error .missing
  | .refused => .error .unreadable
  | .unreadable size => sized size (.error .unreadable)
  | .content bytes =>
    sized bytes.size <| match String.fromUTF8? bytes with
      | some text => .ok text
      | none => .error .unreadable

end Files

def FileError.toReferenceError (key : String) : FileError → ReferenceError
  | missing => .notFound key
  | unreadable => .io key "the file is not readable text"
  | tooLarge size limit => .io key ("file is " ++ Numeral.text size ++ " bytes, limit is "
      ++ Numeral.text limit ++ " bytes")

namespace Handler

/-- The name of the file that a reference means; two slashes in front do not count. -/
def fileName (request : Request) : String :=
  let path := match request.uri.path.toList with
    | '/' :: '/' :: rest => String.ofList rest
    | _ => request.uri.path
  FilePath.join request.directory path

/-- The content of the file that a reference means. -/
def fileContent (files : Files) (limit : Nat) (request : Request) :
    Except ReferenceError Resolved :=
  let key := request.uri.key
  match files.read (fileName request) (some limit) with
  | .error e => .error (e.toReferenceError key)
  | .ok text => decode key text (.ofPath request.uri.path)

def ofFiles (files : Files) (limit : Nat) : Handler where
  name := "file"
  handles protocol := protocol == "file"
  answer request := { turns := 1, outcome? := some (fileContent files limit request) }

end Handler
end LinkedMarkup
