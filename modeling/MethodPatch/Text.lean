set_option autoImplicit false

namespace MethodPatch.Text

/-- The UTF-8 bytes of a text. -/
def bytes (text : String) : List UInt8 :=
  text.toByteArray.data.toList

theorem bytes_inj {first second : String} : bytes first = bytes second ↔ first = second := by
  rw [bytes, bytes, Array.toList_inj, ← ByteArray.ext_iff, String.toByteArray_inj]

theorem bytes_ofList (letters : List Char) :
    bytes (String.ofList letters) = letters.flatMap String.utf8EncodeChar := by
  rw [bytes, String.toByteArray_ofList, List.utf8Encode, List.data_toByteArray]

/-- Texts in dictionary order of their bytes. -/
def atMost (first second : String) : Bool :=
  decide (bytes first ≤ bytes second)

end MethodPatch.Text
