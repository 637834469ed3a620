import LinkedMarkup.Value
/-! Variables given by the caller. -/
namespace LinkedMarkup

abbrev Variables := Table Value

/-- The value at a dotted path: its first part names the variable, the rest leads into its value. -/
def Variables.at? (bindings : Variables) (path : String) : Option Value :=
  match Text.cut? '.' path with
  | some (name, rest) => (bindings.find? name).bind (·.path? rest)
  | none => bindings.find? path

end LinkedMarkup
