import Formula.Host.BuiltIn

set_option autoImplicit false

/-! # Running host code

Reading and setting attributes of objects, and running the bodies of properties, methods and
functions. A property of the class comes before an attribute of the instance, which comes before any
other attribute of the class. A cached property keeps its first result in the instance.

Properties may read other properties; `getterDepth` bounds how deep. -/

namespace Formula

/-! ## Arguments -/

/-- The arguments of a running body: the values of the parameters by name, and all of them in a
row. -/
structure Frame where
  self : Option ObjectRef
  parameters : Dictionary String Value
  arguments : List Value

/-- The error of arguments that do not fit the parameters. -/
def misfitArguments (code : String) : Fault :=
  .raised "TypeError" (code ++ "() got arguments that do not fit its parameters")

/-- Gives the parameters their arguments: by position, from the rest, or by default. -/
def bindParameters (code : String) : List Parameter → List Value → Frame → Except Fault Frame
  | [], [], frame => .ok frame
  | [], _ :: _, _ => .error (misfitArguments code)
  | p :: ps, vs, frame =>
    let give (v : Value) (shown : List Value) (vs : List Value) :=
      bindParameters code ps vs
        { frame with
          parameters := frame.parameters.put p.name v
          arguments := frame.arguments ++ shown }
    match p.kind with
    | .rest => give (.tuple vs) vs []
    | .keywordOnly =>
      match p.default with
      | some v => give v [v] vs
      | none => .error (misfitArguments code)
    | .positional | .positionalOnly =>
      match vs, p.default with
      | v :: vs, _ => give v [v] vs
      | [], some v => give v [v] []
      | [], none => .error (misfitArguments code)

/-! ## Setting attributes -/

/-- Sets an attribute of an object. Properties cannot be set, and a class with slots has no other
places. -/
def setAttribute (u : Universe) (ref : ObjectRef) (name : String) (value : Value) :
    HostAction Unit :=
  match u.attribute? ref.className name with
  | some (.property _) =>
    throw (.raised "AttributeError" ("property '" ++ name ++ "' of '" ++ ref.className ++
      "' object has no setter"))
  | some .slot => modify fun heap => heap.setAttribute ref name value
  | inClass =>
    if u.isOpen ref.className then modify fun heap => heap.setAttribute ref name value
    else if inClass.isSome then
      throw (.raised "AttributeError" ("'" ++ ref.className ++ "' object attribute '" ++ name ++
        "' is read-only"))
    else throw (.noAttribute ref.className name)

/-! ## Bodies -/

mutual

/-- Runs a body, given how attributes of objects are read. -/
def Body.run (u : Universe) (read : ObjectRef → String → HostAction Value) (frame : Frame) :
    Body → HostAction Value
  | .const value => return value
  | .param name => return (frame.parameters.find? name).getD .none
  | .self name =>
    match frame.self with
    | some ref => read ref name
    | none => throw (.noAttribute "NoneType" name)
  | .arguments => return .list frame.arguments
  | .add left right => do
    let a ← left.run u read frame
    let b ← right.run u read frame
    let heap ← get
    ofExcept ((heap.unshare a).plus (heap.unshare b))
  | .mul left right => do
    let a ← left.run u read frame
    let b ← right.run u read frame
    let heap ← get
    ofExcept ((heap.unshare a).times (heap.unshare b))
  | .concat parts => do
    let values ← Body.runAll u read frame parts
    return .str (String.join values)
  | .upper part => do
    match ← part.run u read frame with
    | .str s => return .str (Text.upper s)
    | v => throw (.noAttribute v.typeName "upper")
  | .assign name part => do
    let v ← HostAction.hold (← part.run u read frame)
    match frame.self with
    | some ref =>
      setAttribute u ref name v
      return v
    | none => throw (.noAttribute "NoneType" name)
  | .raise kind message => throw (.raised kind message)

/-- Runs some bodies and gives the plain texts of their values. -/
def Body.runAll (u : Universe) (read : ObjectRef → String → HostAction Value) (frame : Frame) :
    List Body → HostAction (List String)
  | [] => return []
  | part :: parts => do
    let v ← part.run u read frame
    let heap ← get
    let text := (heap.freeze v).plain
    return text :: (← Body.runAll u read frame parts)

end

/-! ## Reading attributes -/

/-- Properties read one another at most this deep. -/
def getterDepth : Nat := 300

/-- Reads an attribute of an object; properties may be nested as deep as the first argument says. -/
def readWithin (u : Universe) : Nat → ObjectRef → String → HostAction Value
  | 0, _, _ => throw (.raised "RecursionError" "maximum recursion depth exceeded")
  | depth + 1, ref, name => do
    let own := (← get).attributes ref |>.find? name
    match u.attribute? ref.className name, own with
    | some (.property body), _ => body.run u (readWithin u depth) ⟨some ref, .empty, []⟩
    | some .slot, none => throw (.noAttribute ref.className name)
    | _, some v => return v
    | some (.value v), none => return v
    | some (.cached body), none =>
      if u.isOpen ref.className then
        let v ← HostAction.hold (← body.run u (readWithin u depth) ⟨some ref, .empty, []⟩)
        modify fun heap => heap.setAttribute ref name v
        return v
      else throw (.raised "TypeError" ("No '__dict__' attribute on '" ++ ref.className ++
        "' instance to cache '" ++ name ++ "' property."))
    | some (.method _), none | some .nested, none | some .callable, none => return .function
    | none, none => throw (.noAttribute ref.className name)

/-- Reads an attribute of an object. -/
def readObject (u : Universe) (ref : ObjectRef) (name : String) : HostAction Value :=
  readWithin u getterDepth ref name

/-- Reads an attribute of any value. -/
def readAttribute (u : Universe) (v : Value) (name : String) : HostAction Value :=
  match v with
  | .object ref => readObject u ref name
  | v =>
    match BuiltIn.property? v name with
    | some result => return result
    | none =>
      if (BuiltIn.methodShapes v.type).any (·.1 == name) then return .function
      else throw (.noAttribute v.typeName name)

/-- The attribute set on the instance itself, if it has one that its class does not keep in a
slot. -/
def ownAttribute? (u : Universe) (heap : Heap) (v : Value) (name : String) : Option Value :=
  match v with
  | .object ref =>
    if u.isOpen ref.className then
      match u.attribute? ref.className name with
      | some .slot => none
      | _ => (heap.attributes ref).find? name
    else none
  | _ => none

/-! ## Calling -/

/-- Calls a method of a class on an instance. -/
def Method.call (u : Universe) (m : Method) (ref : ObjectRef) (name : String)
    (arguments : List Value) : HostAction Value := do
  let self := match m.kind with
    | .ofInstance => some ref
    | _ => none
  let frame ← ofExcept (bindParameters name m.parameters arguments ⟨self, .empty, []⟩)
  m.body.run u (readObject u) frame

/-- The error of calling what cannot be called. -/
def notCallable (v : Value) : Fault :=
  .raised "TypeError" ("'" ++ v.typeName ++ "' object is not callable")

/-- Calls whatever an instance has under a name. Looking it up may fail by itself; what happens
after that is given back as the result of the call. -/
def callAttribute (u : Universe) (receiver : Value) (name : String) (arguments : List Value) :
    HostAction (HostAction Value) := do
  match receiver with
  | .object ref =>
    let own := (← get).attributes ref |>.find? name
    match u.attribute? ref.className name, own with
    | some (.method m), none => return m.call u ref name arguments
    | some .nested, none | some .callable, none => return throw (misfitArguments name)
    | _, _ =>
      match ← readObject u ref name with
      | .function => return return .none
      | v => return throw (notCallable v)
  | v =>
    if (BuiltIn.methodShapes v.type).any (·.1 == name) then return BuiltIn.call v name arguments
    else
      let found ← readAttribute u v name
      return throw (notCallable found)

/-- Calls a function that is not a method. -/
def callFree (u : Universe) (name : String) (parameters : List Parameter) (body : Body)
    (arguments : List Value) : HostAction Value := do
  let frame ← ofExcept (bindParameters name parameters arguments ⟨none, .empty, []⟩)
  body.run u (readObject u) frame

end Formula
