import DocRef.Kind
import DocRef.Text

/-! Catalogs as files list them: every type with its members, and signatures still as texts. -/

namespace DocRef

/-- A member as a file lists it. -/
structure ListedMember where
  genericParams : List Text
  kind : MemberKind
  name : Text
  parameters : List Text
  returns : Option Text
deriving Repr, DecidableEq

/-- A type as a file lists it. The name may write `+` between nested types. -/
structure ListedType where
  base : Option Text
  genericParams : List Text
  members : List ListedMember
  name : Text
deriving Repr, DecidableEq

abbrev Listing := List ListedType

/-- The name under which a listed type is registered. -/
def ListedType.fullName (type : ListedType) : Text :=
  type.name.exchange '+' '.'

end DocRef
