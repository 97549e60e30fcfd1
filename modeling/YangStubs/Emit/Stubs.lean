import YangStubs.Emit.Stub
import YangStubs.View.ModuleItems

/-! # Stubs of a module

The stub file of a view.  Names that are no identifiers and texts that are no types are replaced, with a
warning each.
-/

namespace YangStubs.Emit

open YangStubs.Naming (Scheme)
open YangStubs.Text
open YangStubs.View

abbrev Emitting := StateM Log

def warn (message : String) : Emitting Unit :=
  modify fun log => log ++ [⟨.warn, .stubs, message⟩]

/-! ## Identifiers and types -/

/-- Whether a letter, digit or underscore may stand in a plain identifier. -/
def isPlainChar (c : Char) : Bool :=
  c == '_' || c.isAlphanum

def isPlainIdentifier (name : List Char) : Bool :=
  match name with
  | [] => false
  | c :: rest => (c == '_' || c.isAlpha) && rest.all isPlainChar && name != ['_']

def identifierOf? (name : String) : Option Identifier :=
  match dropStart? "r#".toList name.toList with
  | some raw => if isPlainIdentifier raw then some ⟨String.ofList raw, true⟩ else none
  | none => if isPlainIdentifier name.toList then some ⟨name, false⟩ else none

def identifierOr (replacement name : String) : Emitting Identifier := do
  match identifierOf? name with
  | some identifier => return identifier
  | none =>
    warn (quoted name ++ " is not a Rust identifier, using " ++ replacement)
    return ⟨replacement, false⟩

def itemIdentifier (name : String) : Emitting Identifier :=
  identifierOr "Unnamed" name

def variantIdentifier (index : Nat) (name : String) : Emitting Identifier :=
  identifierOr ("Variant" ++ toString index) name

def typeOr (text : String) : Emitting Line := do
  match typeLine? text with
  | some line => return line
  | none =>
    warn (quoted text ++ " is not a Rust type, using String")
    return [.word "String"]

def within (outer : String) (inner : Line) : Line :=
  [.word outer, .list "<" ">" false [inner]]

/-- The type of a field: several values, a class behind a pointer, a value that has to be there, or one
    that may be missing. -/
def fieldLine (v : FieldItem) : Emitting Line := do
  let inner ← typeOr v.typeName
  if v.isList then return within "Vec" inner
  else if v.isClass then return within "Option" (within "Box" inner)
  else if v.mandatory then return inner
  else return within "Option" inner

/-! ## Items -/

def descriptionDocs (description : Option String) : List String :=
  description.elim [] fun text =>
    (lines text.toList).map fun line => String.ofList (' ' :: trim line)

def fieldOf (v : FieldItem) : Emitting Field := do
  let name ← itemIdentifier v.name
  let type ← fieldLine v
  let default := v.default.toList.map fun text => " Default: `" ++ text ++ "`"
  return ⟨descriptionDocs v.description ++ default, name, type⟩

/-- Fields of different names; the first of a name stays. -/
def distinctFields (seen : List String) : List FieldItem → List FieldItem
  | [] => []
  | v :: rest =>
    if seen.contains v.name then distinctFields seen rest
    else v :: distinctFields (v.name :: seen) rest

/-- A struct; one without documentation is documented by its name. -/
def structOf (name : String) (docs : List String) (members : List FieldItem) : Emitting StubItem := do
  let identifier ← itemIdentifier name
  let fields ← (distinctFields [] members).mapM fieldOf
  return .struct (if docs.isEmpty then [" `" ++ name ++ "`"] else docs) identifier fields

def classStub (c : ClassItem) : Emitting StubItem :=
  structOf c.name
    (descriptionDocs c.description ++ c.bases.map fun base => " Uses [`" ++ base ++ "`].")
    c.fields

/-- The variants of an enum from a position on, given the names that are taken.  A second variant of a name
    is left out. -/
def enumVariants (enumName : String) (isValued : Bool) (seen : List Identifier) (index : Nat) :
    List Variant → Emitting (List StubVariant)
  | [] => return []
  | v :: rest => do
    let name ← variantIdentifier index v.name
    if seen.contains name then
      warn
        ("enum value " ++ quoted v.schemaName ++ " of " ++ enumName ++ " is named " ++ name.text ++
          " like an earlier one, skipping it")
      enumVariants enumName isValued seen (index + 1) rest
    else
      let others ← enumVariants enumName isValued (name :: seen) (index + 1) rest
      return ⟨" Enumeration value `" ++ v.schemaName ++ "`", name,
        if isValued then v.value else none⟩ :: others

/-- An enum; values are written if every variant has one. -/
def enumStub (e : EnumItem) : Emitting StubItem := do
  let name ← itemIdentifier e.name
  let isValued := e.variants.all (·.value.isSome)
  let variants ← enumVariants e.name isValued [] 0 e.variants
  return .enum (descriptionDocs e.description) isValued name variants

def unionVariants (index : Nat) : List Member → Emitting (List StubMember)
  | [] => return []
  | m :: rest => do
    let name ← variantIdentifier index m.name
    let type ← typeOr m.typeName
    let others ← unionVariants (index + 1) rest
    return ⟨name, type⟩ :: others

def unionStub (u : UnionItem) : Emitting StubItem := do
  let name ← itemIdentifier u.name
  let variants ← unionVariants 0 u.members
  return .union (descriptionDocs u.description) name variants

def aliasStub (a : AliasItem) : Emitting StubItem := do
  let name ← itemIdentifier a.name
  let type ← typeOr a.typeName
  return .typeAlias (descriptionDocs a.description) name type

def rpcStub (naming : Scheme) (rpc : RpcItem) : Emitting (List StubItem × Method) := do
  let inputName := rpc.name ++ "Input"
  let outputName := rpc.name ++ "Output"
  let input ← structOf inputName [] rpc.input
  let output ← structOf outputName [] rpc.output
  let method ← itemIdentifier (naming.variableName rpc.schemaName)
  let inputIdentifier ← itemIdentifier inputName
  let outputIdentifier ← itemIdentifier outputName
  return ([input, output], ⟨descriptionDocs rpc.description, method, inputIdentifier, outputIdentifier⟩)

def rpcStubs (naming : Scheme) (view : ModuleItems) : Emitting (List StubItem) := do
  if view.rpcs.isEmpty then return []
  else
    let stubs ← view.rpcs.mapM (rpcStub naming)
    let name ← itemIdentifier (naming.className view.name ++ "Rpcs")
    return stubs.flatMap (·.1) ++ [.trait (" The rpcs of module `" ++ view.name ++ "`") name (stubs.map (·.2))]

/-- The imports of a module, in ascending order.  What is not a path is left out. -/
def importStubs : List String → Emitting (List StubItem)
  | [] => return []
  | text :: rest => do
    match path? text with
    | some path =>
      let others ← importStubs rest
      return .use path :: others
    | none =>
      warn (quoted text ++ " is not a Rust path, skipping the import")
      importStubs rest

def importsOf (view : ModuleItems) : List String :=
  sortedSet
    (view.classes.flatMap (·.imports) ++ view.unions.flatMap (·.imports) ++
      view.aliases.flatMap (·.imports) ++ view.rpcs.flatMap (·.imports))

def stubFile (naming : Scheme) (view : ModuleItems) : Emitting StubFile := do
  let imports ← importStubs (importsOf view)
  let aliases ← view.aliases.mapM aliasStub
  let enums ← view.enums.mapM enumStub
  let unions ← view.unions.mapM unionStub
  let classes ← view.classes.mapM classStub
  let rpcs ← rpcStubs naming view
  let docs :=
    (" Generated by knit 0.1.0 from YANG module `" ++ view.name ++ "`") ::
      view.space.toList.map fun space => "\n Namespace `" ++ space ++ "`"
  return ⟨docs, imports ++ aliases ++ enums ++ unions ++ classes ++ rpcs⟩

end YangStubs.Emit
