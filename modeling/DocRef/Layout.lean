import DocRef.Text

/-! Nested blocks laid out over lines, two or four columns deeper for each level. -/

namespace DocRef

inductive Layout
  | word (text : String)
  /-- Something with a label in front of it, on the same line. -/
  | labelled (label : String) (inner : Layout)
  /-- A block, each item of which has its own line. -/
  | block (opening closing : String) (items : List Layout)
deriving Repr

structure LayoutStyle where
  /-- The columns by which an inner block stands further right. -/
  width : Nat
  /-- Whether a comma stands also after the last item. -/
  closingComma : Bool
deriving Repr, DecidableEq

namespace Layout

def newLine (style : LayoutStyle) (depth : Nat) : String :=
  "\n" ++ String.ofList (List.replicate (depth * style.width) ' ')

mutual

/-- The text of a layout that begins at a depth. A block without items takes no lines. -/
def render (style : LayoutStyle) (depth : Nat) : Layout → String
  | .word text => text
  | .labelled label inner => label ++ render style depth inner
  | .block opening closing [] => opening ++ closing
  | .block opening closing items =>
    opening ++ renderItems style (depth + 1) items ++ newLine style depth ++ closing

def renderItems (style : LayoutStyle) (depth : Nat) : List Layout → String
  | [] => ""
  | [item] =>
    newLine style depth ++ render style depth item ++ if style.closingComma then "," else ""
  | item :: items =>
    newLine style depth ++ render style depth item ++ "," ++ renderItems style depth items

end

end Layout

end DocRef
