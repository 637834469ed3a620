import LinkedMarkup.Numeral
/-! What can be wrong with mapping rules and with the values that they convert. -/
namespace LinkedMarkup

inductive SelectorFault where
  | empty
  | noBase
  | attributeName
  | parenthesis
  | id
  | variablePath
  | pathSegment
  | tagName
  deriving DecidableEq, Repr

def SelectorFault.message : SelectorFault → String
  | empty => "selector is empty"
  | noBase => "attribute selector needs a base"
  | attributeName => "invalid attribute name"
  | parenthesis => "missing closing parenthesis"
  | id => "invalid id"
  | variablePath => "invalid variable path"
  | pathSegment => "invalid path segment"
  | tagName => "invalid tag name"

inductive MappingError where
  | invalidSelector (selector : String) (fault : SelectorFault)
  | invalidTarget (target : String)
  | unknownTransform (name : String)
  | conversion (input expected : String)
  /-- The rule with this number could not convert one of its matches. -/
  | rule (index : Nat) (selector : String) (cause : MappingError)
  deriving DecidableEq, Repr

def MappingError.message : MappingError → String
  | invalidSelector selector fault => "Invalid selector '" ++ selector ++ "': " ++ fault.message
  | invalidTarget target => "Invalid target path '" ++ target ++ "'"
  | unknownTransform name => "Unknown transform '" ++ name ++ "'"
  | conversion input expected => "Cannot convert '" ++ input ++ "' to " ++ expected
  | rule index selector cause =>
    "Rule " ++ Numeral.text index ++ " (" ++ selector ++ "): " ++ cause.message

end LinkedMarkup
