import LinkedMarkup.Mapping.Error
import LinkedMarkup.Value
/-! Target paths `a.b[2].c` into an output value. Writing makes the objects and arrays on the way;
arrays grow by nulls. -/
namespace LinkedMarkup

inductive Segment where
  | key (key : String)
  | index (index : Nat)
  deriving DecidableEq, Repr

structure TargetPath where
  segments : List Segment
  deriving DecidableEq, Repr

namespace TargetPath

theorem cutChars?_length {separator : Char} {cs before after : List Char}
    (cut : Text.cutChars? separator cs = some (before, after)) : after.length < cs.length := by
  induction cs generalizing before with
  | nil => cases cut
  | cons c rest ih =>
    simp only [Text.cutChars?] at cut
    split at cut
    · cases cut; simp
    · obtain ⟨⟨front, back⟩, found, same⟩ := Option.map_eq_some_iff.1 cut
      cases same
      exact Nat.lt_succ_of_lt (ih found)

/-- Indices in brackets, one behind the other, each of 64 bits. -/
def indices? (cs : List Char) : Option (List Segment) :=
  match cs with
  | [] => some []
  | '[' :: rest =>
    match _ : Text.cutChars? ']' rest with
    | none => none
    | some (number, tail) =>
      match Numeral.unsigned? Numeral.unsignedLimit (Text.trimChars number) with
      | none => none
      | some n => (indices? tail).map (.index n :: ·)
  | _ => none
termination_by cs.length
decreasing_by
  rename_i found
  have := cutChars?_length found
  simp only [List.length_cons]
  omega

/-- A part of the path: a key and indices. Only the first part may lack the key. -/
def part? (first : Bool) (cs : List Char) : Option (List Segment) :=
  let key := cs.takeWhile (· != '[')
  let rest := cs.dropWhile (· != '[')
  if !key.isEmpty then (indices? rest).map (.key (String.ofList key) :: ·)
  else if first && !rest.isEmpty then indices? rest
  else none

def parts? : List (List Char) → Option (List Segment)
  | [] => some []
  | part :: rest =>
    match part? false part, parts? rest with
    | some segments, some others => some (segments ++ others)
    | _, _ => none

/-- Read a path; white space around it and inside the brackets does not count. -/
def parse? (text : String) : Option TargetPath :=
  match Text.splitChars '.' (Text.trimChars text.toList) with
  | [] => none
  | part :: rest =>
    match part? true part, parts? rest with
    | some segments, some others => some ⟨segments ++ others⟩
    | _, _ => none

def parse (text : String) : Except MappingError TargetPath :=
  match parse? text with
  | some path => .ok path
  | none => .error (.invalidTarget text)

def displaySegment : Segment → String
  | .key key => "." ++ key
  | .index n => "[" ++ Numeral.text n ++ "]"

def display (path : TargetPath) : String :=
  match path.segments with
  | .key key :: rest => key ++ String.join (rest.map displaySegment)
  | segments => String.join (segments.map displaySegment)

/-- The value at one segment, if the container has the right kind. -/
def child? (value : Value) : Segment → Option Value
  | .key key => value.asObject?.bind (·.find? key)
  | .index n => value.asArray?.bind (·[n]?)

def get? (path : TargetPath) (root : Value) : Option Value := path.segments.foldlM child? root

/-- Items with `value` at the place `n`; nulls fill the places before it. -/
def putAt (items : List Value) (n : Nat) (value : Value) : List Value :=
  items.take n ++ List.replicate (n - items.length) .null ++ value :: items.drop (n + 1)

/-- Write `value` at the segments below `root`. A scalar in the way gives place to a container.
None if an array would be longer than 64 bits can count. -/
def put? (value : Value) : List Segment → Value → Option Value
  | [], _ => some value
  | .key key :: rest, root =>
    let entries := root.asObject?.getD []
    (put? value rest ((entries.find? key).getD .null)).map fun inner =>
      .object (entries.insert key inner)
  | .index n :: rest, root =>
    let items := root.asArray?.getD []
    if n + 1 < Numeral.unsignedLimit then
      (put? value rest (items[n]?.getD .null)).map fun inner => .array (putAt items n inner)
    else none

def assign? (path : TargetPath) (root value : Value) : Option Value := put? value path.segments root

end TargetPath
end LinkedMarkup
