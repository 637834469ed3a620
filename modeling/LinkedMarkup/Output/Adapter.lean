import LinkedMarkup.Json.Writer
import LinkedMarkup.Yaml.Writer
/-! Output adapters: each renders values in one format and says which names of formats it answers
to. Rendering never fails; a value that is nested too deeply is replaced by a report. -/
namespace LinkedMarkup

structure RenderOptions where
  pretty : Bool := true
  /-- Values nested deeper than this are reported and not rendered. -/
  maxDepth : Nat := 128
  deriving DecidableEq, Repr

structure Adapter where
  /-- The canonical name of the format. -/
  name : String
  supports : String → Bool
  render : RenderOptions → Value → String

namespace Adapter

/-- One of the names, in any case of its ASCII letters. -/
def isNamed (names : List String) (format : String) : Bool :=
  names.any fun name => Text.asciiLower name == Text.asciiLower format

def writeJson (options : RenderOptions) (value : Value) : String :=
  if options.pretty then Json.pretty value else Json.compact value

/-- The report on a value of this depth, as JSON. -/
def depthReport (options : RenderOptions) (depth : Nat) : String :=
  writeJson options (.object [("code", .text "CIRCULAR_STRUCTURE"),
    ("error", .text ("value nesting depth " ++ Numeral.text depth ++ " exceeds "
      ++ Numeral.text options.maxDepth ++ "; the structure is likely circular"))])

/-- Render values up to the greatest depth. -/
def guarded (render : RenderOptions → Value → String) (options : RenderOptions) (value : Value) :
    String :=
  if value.depth ≤ options.maxDepth then render options value
  else depthReport options value.depth

def json : Adapter := ⟨"json", isNamed ["json"], guarded writeJson⟩

def yaml : Adapter := ⟨"yaml", isNamed ["yaml", "yml"], guarded fun _ value => Yaml.write value⟩

/-- Texts as they are, one line for each item and each entry. -/
def plainText : Adapter := ⟨"text", isNamed ["text", "txt"], guarded fun _ value => value.toText⟩

end Adapter
end LinkedMarkup
