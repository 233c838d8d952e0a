/-!
# Bytes of files

The text of a file is its bytes read as UTF-8.
-/

namespace ConfigTemplate

abbrev Bytes := Array UInt8

namespace Bytes

def ofText (text : String) : Bytes := text.toUTF8.data

/-- The text that the bytes stand for, if they stand for any. -/
def text? (bytes : Bytes) : Option String := String.fromUTF8? ⟨bytes⟩

@[simp]
theorem text?_ofText (text : String) : (ofText text).text? = some text := by
  show String.fromUTF8? text.toUTF8 = some text
  simp [String.fromUTF8?, String.toUTF8, text.isValidUTF8, String.fromUTF8]

end Bytes

end ConfigTemplate
