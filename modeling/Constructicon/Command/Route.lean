import Constructicon.Command.Host

/-! Paths taken apart at their slashes, and the places that they lead to one name after the
other. -/
namespace Constructicon

/-- The names that lead to a place: down from the folder itself, from those above it, each of
which is a `..`, or from the root `/`. -/
abbrev FilePlace := List String

namespace FilePlace

def above (place : FilePlace) : FilePlace :=
  if place.all (· = "..") then place ++ [".."]
  else if place = ["/"] then place
  else place.dropLast

def step (place : FilePlace) (name : String) : FilePlace :=
  if name = "." then place else if name = ".." then place.above else place ++ [name]

def extended (place : FilePlace) (ending : String) : FilePlace :=
  place.dropLast ++ place.getLast?.toList.map (· ++ ending)

end FilePlace

/-- A path taken apart. One that ends in a slash can only be that of a folder. -/
structure Route where
  start : FilePlace
  names : List String
  toFolder : Bool
  deriving DecidableEq

namespace Route

def pathLimit : Nat := 4095

def nameLimit : Nat := 255

def ofPath (path : String) : Except FileFault Route := do
  if path.isEmpty then throw .missing
  if pathLimit < path.utf8ByteSize then throw .nameTooLong
  return {
    start := if path.startsWith "/" then ["/"] else []
    names := (path.splitOn "/").filter (· ≠ "")
    toFolder := path.endsWith "/" }

/-- The names to walk to what is there: a slash at the end is a step that stays. -/
def toEnd (route : Route) : List String :=
  if route.toFolder then route.names ++ ["."] else route.names

/-- The names to walk to a file that may be new: before a slash at the end the last name is not
looked at, as only a folder can be there. -/
def toFile (route : Route) : List String :=
  if route.toFolder then route.names.dropLast ++ ["."] else route.names

end Route

end Constructicon
