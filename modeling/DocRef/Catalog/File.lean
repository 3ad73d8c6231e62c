import DocRef.Catalog.Loading
import DocRef.Toml.Decoding
import DocRef.Toml.Document

/-! Catalog files: TOML documents whose array `types` lists the types of a catalog. -/

namespace DocRef

def memberKindWords : List (Text × MemberKind) :=
  [("constructor".toList, .constructor), ("event".toList, .event), ("field".toList, .field),
    ("method".toList, .method), ("property".toList, .property)]

/-- A listed member. The kind and the name must be there. -/
def ListedMember.ofToml? (value : Toml.Value) : Option ListedMember := do
  let keys := ["generic_params", "kind", "name", "parameters", "returns"].map String.toList
  match ← value.fields? keys with
  | [genericParams, some kind, some name, parameters, returns] =>
    let genericParams ← Toml.Value.listed? Toml.Value.asTexts? genericParams
    let kind ← memberKindWords.lookup (← kind.choice?)
    let name ← name.asText?
    let parameters ← Toml.Value.listed? Toml.Value.asTexts? parameters
    let returns ← Toml.Value.optional? Toml.Value.asText? returns
    return { genericParams, kind, name, parameters, returns }
  | _ => none

/-- A listed type. The name must be there. -/
def ListedType.ofToml? (value : Toml.Value) : Option ListedType := do
  let keys := ["base", "generic_params", "members", "name"].map String.toList
  match ← value.fields? keys with
  | [base, genericParams, members, some name] =>
    let base ← Toml.Value.optional? Toml.Value.asText? base
    let genericParams ← Toml.Value.listed? Toml.Value.asTexts? genericParams
    let members ← Toml.Value.listed? Toml.Value.asItems? members
    let members ← members.mapM ListedMember.ofToml?
    let name ← name.asText?
    return { base, genericParams, members, name }
  | _ => none

def Listing.ofToml? (value : Toml.Value) : Option Listing := do
  match ← value.fields? ["types".toList] with
  | [types] =>
    let types ← Toml.Value.listed? Toml.Value.asItems? types
    types.mapM ListedType.ofToml?
  | _ => none

namespace Catalog

/-- The catalog that a document describes. -/
def ofToml (value : Toml.Value) : Except Failure Catalog :=
  match Listing.ofToml? value with
  | none => .error (.invalidToml "the document lists no catalog")
  | some listing =>
    match ofListing listing with
    | .ok catalog => .ok catalog
    | .error fault => .error fault.failure

def ofText (text : Text) : Except Failure Catalog :=
  match Toml.read? text with
  | none => .error (.invalidToml "the text is no TOML document")
  | some value => ofToml value

end Catalog

end DocRef
