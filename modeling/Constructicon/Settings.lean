import Constructicon.Session
import Constructicon.Toml.Reader

/-! Settings: how deep cascades may go and how trees are shown. Whatever is not set keeps its
default and what is not known is passed over, but a known setting must have its kind. A group
of settings may also be given as a list of their values, in order and as far as wanted; a
moment in the place of a group sets nothing. -/
namespace Constructicon

structure Settings where
  limits : Limits := {}
  limit : Option Nat := none
  maximal : Bool := false
  json : Bool := false
  deriving DecidableEq

namespace Settings

/-- The values of a group's settings in the order of their names, those not set as `none`. -/
def group? (names : List String) : Toml → Option (List (Option Toml))
  | .table _ fields => some (names.map fun name => fields.lookup name)
  | .list items => some (names.mapIdx fun i _ => items[i]?)
  | .tables items => some (names.mapIdx fun i _ => (items[i]?).map (.table .header))
  | .moment => some (names.map fun _ => none)
  | _ => none

def natural? : Toml → Option Nat
  | .integer value => value.toNat?
  | _ => none

def flag? : Toml → Option Bool
  | .boolean value => some value
  | _ => none

/-- A setting that may be absent. -/
def setting? {α : Type} (decode : Toml → Option α) : Option Toml → Option (Option α)
  | none => some none
  | some value => (decode value).map some

def limits? (toml : Toml) : Option Limits := do
  match ← group? ["max_cascade_depth"] toml with
  | [depth] =>
    match ← setting? natural? depth with
    | none => return {}
    | some depth => return { maxCascadeDepth := depth }
  | _ => none

def output? (settings : Settings) (toml : Toml) : Option Settings := do
  match ← group? ["limit", "maximal", "json"] toml with
  | [limit, maximal, json] =>
    return { settings with
      limit := ← setting? natural? limit
      maximal := (← setting? flag? maximal).getD false
      json := (← setting? flag? json).getD false }
  | _ => none

def read? (text : String) : Option Settings := do
  let fields ← Toml.read? text
  let limits ← setting? limits? (fields.lookup "engine")
  let settings : Settings := { limits := limits.getD {} }
  match fields.lookup "output" with
  | none => return settings
  | some toml => output? settings toml

end Settings

end Constructicon
