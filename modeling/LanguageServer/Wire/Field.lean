import LanguageServer.Json
/-!
Typed members of JSON objects, and what is wrong where one is not as it has to be.
-/

namespace LanguageServer

/-- Why parameters are refused. -/
inductive ParamError
  | missing (name : String)
  | notString (name : String)
  | notInt32 (name : String)
  | notUInt32 (name : String)
  | notArray (name : String)
  | notKeyword (label : String)
  deriving DecidableEq, Repr

def ParamError.message : ParamError → String
  | missing name => "invalid params: missing `" ++ name ++ "`"
  | notString name => "invalid params: `" ++ name ++ "` must be a string"
  | notInt32 name => "invalid params: `" ++ name ++ "` must be a 32-bit integer"
  | notUInt32 name => "invalid params: `" ++ name ++ "` must be an unsigned 32-bit integer"
  | notArray name => "invalid params: `" ++ name ++ "` must be an array"
  | notKeyword label => "invalid params: `" ++ label ++ "` is not a catalog keyword"

namespace Json

def field (name : String) (value : Json) : Except ParamError Json :=
  match value.get? name with
  | some member => .ok member
  | none => .error (.missing name)

def stringField (name : String) (value : Json) : Except ParamError String := do
  match ← value.field name with
  | .str s => .ok s
  | _ => .error (.notString name)

def arrayField (name : String) (value : Json) : Except ParamError (List Json) := do
  match ← value.field name with
  | .arr items => .ok items
  | _ => .error (.notArray name)

/-- Reads a member that is an integer of thirty-two bits with a sign. -/
def int32Field (name : String) (value : Json) : Except ParamError Int32 := do
  match ← value.field name with
  | .int n => if -0x80000000 ≤ n ∧ n < 0x80000000 then .ok (.ofInt n) else .error (.notInt32 name)
  | _ => .error (.notInt32 name)

/-- Reads a member that is an integer of thirty-two bits without a sign. -/
def uint32Field (name : String) (value : Json) : Except ParamError UInt32 := do
  match ← value.field name with
  | .int n => if 0 ≤ n ∧ n < 0x100000000 then .ok (.ofNat n.toNat) else .error (.notUInt32 name)
  | _ => .error (.notUInt32 name)

end Json

end LanguageServer
