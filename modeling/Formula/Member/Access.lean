import Formula.Host.Run
import Formula.Member.Resolution

set_option autoImplicit false

/-! # Reading and calling members

Reads of members answer whether there is one: a declared field, a declared property, or an attribute
that an instance has of its own. A field that the instance lacks is absent, while the error of a
property is passed on. A method is looked up on the instance when it is called, and an error while
it runs is reported as one of the method. -/

namespace Formula

namespace MemberTable

/-! ## Reading -/

/-- The type of a field, or the property, under a name. -/
def member? (m : MemberTable) (name : String) : Option Member :=
  match m.members.find? name with
  | some (.method _) => none
  | found => found

/-- The value of a field. -/
def readField? (u : Universe) (m : MemberTable) (v : Value) (name : String) :
    HostAction (Option Value) :=
  if m.hasField name then
    tryCatch (some <$> readAttribute u v name) fun fault =>
      if fault.isMissingAttribute then return some .none else throw fault
  else return none

/-- The value of a property. -/
def readProperty? (u : Universe) (m : MemberTable) (v : Value) (name : String) :
    HostAction (Option Value) :=
  if m.hasProperty name then some <$> readAttribute u v name else return none

/-- The value of a public attribute that an instance has of its own. What can be called is no
data. -/
def readOwn? (u : Universe) (m : MemberTable) (v : Value) (name : String) :
    HostAction (Option Value) := do
  if isPublic name && !m.hasMethod name then
    match ownAttribute? u (← get) v name with
    | some .function => return none
    | found => return found
  else return none

/-- The value of a field, a property or an own attribute. -/
def readMember? (u : Universe) (m : MemberTable) (v : Value) (name : String) :
    HostAction (Option Value) := do
  match ← m.readField? u v name with
  | some found => return some found
  | none =>
    match ← m.readProperty? u v name with
    | some found => return some found
    | none => m.readOwn? u v name

/-! ## Calling -/

/-- Calls a method. -/
def invoke (u : Universe) (m : MemberTable) (v : Value) (method : String) (arguments : List Value) :
    HostAction Value := do
  let run ← callAttribute u v method arguments
  tryCatch run fun cause => throw (.invocation method m.type.name cause)

end MemberTable

end Formula
