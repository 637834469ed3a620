import LinkedMarkup.Mapping.Selector
import LinkedMarkup.Proofs.Tree.Places
/-! The places that selectors select. A path is followed level by level and elements stand in the order of
a walk in depth, but all elements at the end of a path are on one level, so both orders agree. -/
namespace LinkedMarkup

def Selected.asElement? : Selected → Option Element
  | .element e => some e
  | .document _ => none
  | .value _ => none

/-- The tags from top level down to an element at the place. -/
def Place.trail (place : Place) (e : Element) : List String := place.parents.map Frame.tag ++ [e.tag]

namespace Selector

/-- The tags are the segments one by one, without regard to the case of ASCII letters. -/
def Leads (segments trail : List String) : Prop := trail.map Text.asciiLower = segments.map Text.asciiLower

instance (segments trail : List String) : Decidable (Leads segments trail) :=
  inferInstanceAs (Decidable (_ = _))

/-- The places of the elements that a selector selects. -/
def places (d : Document) : Selector → List (Place × Element)
  | .id name => (d.places.find? fun found => found.2.id? == some name).toList
  | .first selector => (selector.places d).take 1
  | .path segments => d.places.filter fun found => Leads segments (found.1.trail found.2)
  | .tag name => d.places.filter fun found => tagMatches name found.2
  | .root => []
  | .named _ => []
  | .attr _ _ => []

variable {d : Document} {around : Surroundings}

/-! ### Paths -/

private def reached : List String → List Node → List Element
  | [], _ => []
  | segment :: rest, nodes =>
    ((nodes.filterMap Node.asElement?).filter (tagMatches segment)).flatMap fun e =>
      (if rest = [] then [e] else []) ++ reached rest e.children

theorem places_sublist (selector : Selector) : (selector.places d).Sublist d.places := by
  induction selector with
  | root | named | attr => exact List.nil_sublist _
  | id name =>
    rw [places]
    cases found : d.places.find? fun found => found.2.id? == some name with
    | none => exact List.nil_sublist _
    | some first => exact List.singleton_sublist.mpr (List.mem_of_find?_eq_some found)
  | first selector ih => exact (List.take_sublist 1 _).trans ih
  | path | tag => exact List.filter_sublist

/-- An item on a list, one on a list inside of it, another one, and an item on no list. -/
def lists : Document :=
  let item (key : String) : Node := .element { tag := "I", attributes := [("key", .text key)] }
  let list (children : List Node) : Node := .element { tag := "l", children }
  { children := [list [item "a", list [item "b"], item "c"], item "d"] }

end Selector
end LinkedMarkup
