import YangStubs.Backend.Registry

/-! # The backends that come with the tool -/

namespace YangStubs.Backend

def rustName : String :=
  "rust"

def rustTypes : List (String × String) :=
  [("int8", "i8"), ("int16", "i16"), ("int32", "i32"), ("int64", "i64"), ("uint8", "u8"),
   ("uint16", "u16"), ("uint32", "u32"), ("uint64", "u64"), ("decimal64", "f64"),
   ("boolean", "bool"), ("binary", "Vec<u8>"), ("empty", "()"), ("bits", "Vec<String>"),
   ("string|identityref|instance-identifier|leafref", "String")]

namespace Registry

def builtin : Except BackendError (Registry × Log) := do
  let draft ← Registry.new.derive? rustName defaultName
  let (backend, registry) ←
    Registry.new.build { draft with patterns := rustTypes, naming := some .rust }
  registry.register backend

/-- The registered backend of that name, with further patterns on top if there are any. -/
def select (registry : Registry) (name : String) (patterns : List (String × String)) :
    Except BackendError (Backend × Registry) :=
  match registry.get? name with
  | none => .error (.unknown name)
  | some backend =>
    if patterns.isEmpty then .ok (backend, registry)
    else registry.build { Draft.ofParent (backend.name ++ "+config") backend with patterns }

end Registry

end YangStubs.Backend
