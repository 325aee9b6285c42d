import MethodPatch.Text

set_option autoImplicit false

namespace MethodPatch.TypeName

def isSeparator (byte : UInt8) : Bool :=
  byte == '.'.toUInt8 || byte == '/'.toUInt8

/-- Bytes that may stand at the same place of two spellings of one type. -/
def sameByte (left right : UInt8) : Bool :=
  left == right || (isSeparator left && isSeparator right)

/-- Whether two names are spellings of one type. -/
def same (left right : String) : Bool :=
  (Text.bytes left).length == (Text.bytes right).length &&
    ((Text.bytes left).zip (Text.bytes right)).all fun (one, other) => sameByte one other

/-- The internal form of a name: every dot written as a slash. -/
def internal (name : String) : String :=
  String.ofList (name.toList.map fun letter => if letter = '.' then '/' else letter)

end MethodPatch.TypeName
