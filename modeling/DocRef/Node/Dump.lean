import DocRef.Json
import DocRef.Node
import DocRef.Text.Combining
import DocRef.Text.Ignorable

/-! Reference trees written out in full: as an outline for people, and as JSON. -/

namespace DocRef

namespace Outline

/-- Blocks stand four columns further right for each level, with a comma after every item. -/
def style : LayoutStyle := ⟨4, true⟩

/-- A character within a string. A character that would be drawn on the one before it or not at all
is written by its code point. Quotes and backslashes have a backslash before them; a name that was
read from a text holds none of them, nor anything else that would have to be escaped. -/
def escaped (c : Char) : Text :=
  if c = '"' || c = '\\' then ['\\', c]
  else if isCombining c || isIgnorable c then
    ['\\', 'u', '\x7b'] ++ Nat.toDigits 16 c.toNat ++ ['\x7d']
  else [c]

def string (text : Text) : Layout :=
  .word ("\"" ++ Text.str (text.flatMap escaped) ++ "\"")

def number (n : Nat) : Layout :=
  .word (toString n)

def record (name : String) (fields : List (String × Layout)) : Layout :=
  .block (name ++ " \x7b") "\x7d" (fields.map fun (key, value) => .labelled s!"{key}: " value)

def list (items : List Layout) : Layout :=
  .block "[" "]" items

def absent : Layout :=
  .word "None"

def present (item : Layout) : Layout :=
  .block "Some(" ")" [item]

end Outline

def SymbolKind.word : SymbolKind → String
  | .event => "Event"
  | .field => "Field"
  | .method => "Method"
  | .property => "Property"
  | .type => "Type"

namespace Node

mutual

def outline : Node → Layout
  | .root text =>
    Outline.record "Name" [("parent", Outline.absent), ("text", Outline.string text)]
  | .child scope text =>
    Outline.record "Name"
      [("parent", Outline.present scope.outline), ("text", Outline.string text)]
  | .closed generic arguments =>
    Outline.record "GenericInstantiation"
      [("arguments", Outline.list (outlines arguments)), ("parent", generic.outline)]
  | .array element rank =>
    Outline.record "ArrayOf" [("inner", element.outline), ("rank", Outline.number rank)]
  | .byRef target => Outline.record "ByRefOf" [("inner", target.outline)]
  | .pointer target => Outline.record "PointerOf" [("inner", target.outline)]
  | .typeParam position =>
    Outline.record "TypeGenericParam" [("position", Outline.number position)]
  | .methodParam position =>
    Outline.record "MethodGenericParam" [("position", Outline.number position)]
  | .method member parameters returns =>
    Outline.record "MethodReference"
      [("member", member.outline), ("parameters", Outline.list (outlines parameters)),
        ("return_type", outlineOption returns)]

def outlines : List Node → List Layout
  | [] => []
  | node :: nodes => node.outline :: outlines nodes

def outlineOption : Option Node → Layout
  | none => Outline.absent
  | some node => Outline.present node.outline

end

mutual

def json : Node → Layout
  | .root text =>
    Json.object [("Name", Json.object [("parent", Json.null), ("text", Json.string text)])]
  | .child scope text =>
    Json.object [("Name", Json.object [("parent", scope.json), ("text", Json.string text)])]
  | .closed generic arguments =>
    Json.object [("GenericInstantiation",
      Json.object [("arguments", Json.array (jsons arguments)), ("parent", generic.json)])]
  | .array element rank =>
    Json.object [("ArrayOf",
      Json.object [("inner", element.json), ("rank", Json.number rank)])]
  | .byRef target => Json.object [("ByRefOf", Json.object [("inner", target.json)])]
  | .pointer target => Json.object [("PointerOf", Json.object [("inner", target.json)])]
  | .typeParam position =>
    Json.object [("TypeGenericParam", Json.object [("position", Json.number position)])]
  | .methodParam position =>
    Json.object [("MethodGenericParam", Json.object [("position", Json.number position)])]
  | .method member parameters returns =>
    Json.object [("MethodReference",
      Json.object [("member", member.json), ("parameters", Json.array (jsons parameters)),
        ("return_type", jsonOption returns)])]

def jsons : List Node → List Layout
  | [] => []
  | node :: nodes => node.json :: jsons nodes

def jsonOption : Option Node → Layout
  | none => Json.null
  | some node => node.json

end

end Node

namespace Reference

def outline (reference : Reference) : String :=
  let kind := match reference.kind with
    | none => Outline.absent
    | some kind => Outline.present (.word kind.word)
  (Outline.record "Reference" [("kind", kind), ("node", reference.node.outline)]).render
    Outline.style 0

def json (reference : Reference) : String :=
  let kind := match reference.kind with
    | none => Json.null
    | some kind => Json.string kind.word.toList
  Json.render (Json.object [("kind", kind), ("node", reference.node.json)])

end Reference

end DocRef
