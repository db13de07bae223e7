import LanguageServer.Binary64
import LanguageServer.Table
/-!
JSON values. Integers and binary64 numbers are different values, and an object is a table: its
members stand in ascending order of their names, one for each name.
-/

namespace LanguageServer

inductive Json
  | null
  | bool (value : Bool)
  | int (value : Int)
  | float (value : Binary64)
  | str (value : String)
  | arr (items : List Json)
  | obj (members : List (String × Json))
  deriving Inhabited

namespace Json

/-- The object with the given members, the later one where two have one name. -/
def object (members : List (String × Json)) : Json := obj (Table.ofList members)

def nat (n : Nat) : Json := int n

/-- A member of an object. Other values have none. -/
def get? (name : String) : Json → Option Json
  | obj members => Table.lookup name members
  | _ => none

/-- What a path of member names leads to. -/
def at? : List String → Json → Option Json
  | [], value => some value
  | name :: path, value => (value.get? name).bind (at? path)

/-- Sets a member; any value but an object counts as the empty object. -/
def set (target : Json) (name : String) (value : Json) : Json :=
  match target with
  | obj members => obj (Table.insert name value members)
  | _ => obj [(name, value)]

def str? : Json → Option String
  | str value => some value
  | _ => none

def bool? : Json → Option Bool
  | bool value => some value
  | _ => none

def int? : Json → Option Int
  | int value => some value
  | _ => none

def arr? : Json → Option (List Json)
  | arr items => some items
  | _ => none

def isNull : Json → Bool
  | null => true
  | _ => false

end Json

end LanguageServer
