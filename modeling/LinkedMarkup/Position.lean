import LinkedMarkup.Numeral
/-! Places in source text. -/
namespace LinkedMarkup

/-- Line and column count from 1, the byte offset from 0. -/
structure Position where
  line : Nat := 0
  column : Nat := 0
  offset : Nat := 0
  deriving DecidableEq, Repr, Inhabited

/-- From the first place of a node to the place after it. -/
structure Span where
  start : Position := {}
  stop : Position := {}
  deriving DecidableEq, Repr, Inhabited

/-- Nodes that were built and not read have line 0. -/
def Span.isUnknown (span : Span) : Bool := span.start.line == 0

def Span.display (span : Span) : String :=
  Numeral.text span.start.line ++ ":" ++ Numeral.text span.start.column

end LinkedMarkup
