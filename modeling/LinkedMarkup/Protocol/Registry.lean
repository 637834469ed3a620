import LinkedMarkup.Protocol.File
import LinkedMarkup.Protocol.Web
import LinkedMarkup.Settings
/-! The registry of protocol handlers. The one with the highest priority answers, and of several
with one priority the one that was registered first. -/
namespace LinkedMarkup

/-- Handlers in the order in which they are asked. -/
structure Protocols where
  handlers : List Handler := []

namespace Protocols

/-- Put a handler behind all of its own or a higher priority. -/
def place (handler : Handler) : List Handler → List Handler
  | [] => [handler]
  | first :: rest =>
    if first.priority < handler.priority then handler :: first :: rest
    else first :: place handler rest

def register (protocols : Protocols) (handler : Handler) : Protocols :=
  ⟨place handler protocols.handlers⟩

def registerAll (protocols : Protocols) (handlers : List Handler) : Protocols :=
  handlers.foldl register protocols

/-- Remove all handlers of a name. -/
def erase (protocols : Protocols) (name : String) : Protocols :=
  ⟨protocols.handlers.filter (·.name != name)⟩

def clear (protocols : Protocols) : Protocols := { protocols with handlers := [] }

def has (protocols : Protocols) (name : String) : Bool := protocols.handlers.any (·.name == name)

/-- The handler for a protocol; the case of ASCII letters does not count. -/
def find? (protocols : Protocols) (protocol : String) : Option Handler :=
  protocols.handlers.find? (·.handles (Text.asciiLower protocol))

def names (protocols : Protocols) : List String := protocols.handlers.map (·.name)

/-- Ids, variables, files and the network. -/
def standard (settings : Settings) (files : Files) (network : Web.Network) : Protocols :=
  let client : Web.Client :=
    { timeout := settings.httpTimeout, maxSize := settings.maxResponseSize }
  registerAll {} [.byId, .ofVariables, .ofFiles files settings.maxResponseSize,
    .ofWeb client network]

end Protocols
end LinkedMarkup
