import LinkedMarkup.Json.Token
/-! Reading JSON. Tokens are taken one by one with a stack of the arrays and objects that are open,
so the nesting of a text is the height of the stack. -/
namespace LinkedMarkup.Json

/-- Arrays and objects may be nested this deep. -/
def nestingLimit : Nat := 127

/-- An open array with its items in reverse order, or an open object with the key whose value is
being read. -/
inductive Frame where
  | array (items : List Value)
  | object (entries : Table Value) (key : String)

/-- What may come next. -/
inductive Awaiting where
  /-- A value; or the end of an array that is still empty. -/
  | value (mayEnd : Bool)
  /-- A key; or the end of an object that is still empty. -/
  | key (mayEnd : Bool)
  | colon (key : String)
  /-- A comma or the end of what is open, after this value. -/
  | separator (value : Value)

structure Reading where
  stack : List Frame := []
  awaiting : Awaiting := .value false

def Reading.open? (reading : Reading) (frame : Frame) (awaiting : Awaiting) : Option Reading :=
  if reading.stack.length < nestingLimit then some ⟨frame :: reading.stack, awaiting⟩ else none

def Reading.next? (reading : Reading) (token : Token) : Option Reading :=
  match reading.awaiting, token, reading.stack with
  | .value _, .openArray, _ => reading.open? (.array []) (.value true)
  | .value _, .openObject, _ => reading.open? (.object [] "") (.key true)
  | .value _, .quoted text, stack => some ⟨stack, .separator (.text text)⟩
  | .value _, .scalar value, stack => some ⟨stack, .separator value⟩
  | .value true, .closeArray, .array _ :: stack => some ⟨stack, .separator (.array [])⟩
  | .key _, .quoted key, stack => some ⟨stack, .colon key⟩
  | .key true, .closeObject, .object _ _ :: stack => some ⟨stack, .separator (.object [])⟩
  | .colon key, .colon, .object entries _ :: stack =>
    some ⟨.object entries key :: stack, .value false⟩
  | .separator value, .comma, .array items :: stack =>
    some ⟨.array (value :: items) :: stack, .value false⟩
  | .separator value, .comma, .object entries key :: stack =>
    some ⟨.object (Table.insert key value entries) key :: stack, .key false⟩
  | .separator value, .closeArray, .array items :: stack =>
    some ⟨stack, .separator (.array (value :: items).reverse)⟩
  | .separator value, .closeObject, .object entries key :: stack =>
    some ⟨stack, .separator (.object (Table.insert key value entries))⟩
  | _, _, _ => none

def Reading.result? (reading : Reading) : Option Value :=
  match reading.awaiting, reading.stack with
  | .separator value, [] => some value
  | _, _ => none

/-- The value of a JSON text. Of several entries under one key the last counts. -/
def read? (text : String) : Option Value := do
  let tokens ← lex .between text.toList
  let reading ← tokens.foldlM Reading.next? {}
  reading.result?

end LinkedMarkup.Json
