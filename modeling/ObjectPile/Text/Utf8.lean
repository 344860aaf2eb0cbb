/-
# UTF-8

The bytes of a text in UTF-8, and the text that a row of bytes stands for if it is well formed.
-/
namespace ObjectPile.Text

/-- The UTF-8 bytes of a row of characters. -/
def utf8 (cs : List Char) : List UInt8 := cs.flatMap String.utf8EncodeChar

/-- The text with the given UTF-8 bytes, `none` where they are not well formed. -/
def ofUtf8? (bytes : List UInt8) : Option String := String.fromUTF8? ⟨bytes.toArray⟩

@[simp] theorem utf8_nil : utf8 [] = [] := rfl

@[simp] theorem utf8_cons (c : Char) (cs : List Char) :
    utf8 (c :: cs) = String.utf8EncodeChar c ++ utf8 cs := rfl

theorem utf8_append (cs ds : List Char) : utf8 (cs ++ ds) = utf8 cs ++ utf8 ds := by
  simp [utf8]

/-- A text is read back from its bytes. -/
theorem ofUtf8?_utf8 (cs : List Char) : ofUtf8? (utf8 cs) = some (String.ofList cs) := by
  have h : (⟨(utf8 cs).toArray⟩ : ByteArray) = (String.ofList cs).toByteArray := by
    rw [String.toByteArray_ofList]
    apply ByteArray.ext
    simp [utf8, List.utf8Encode]
  rw [ofUtf8?, h, String.fromUTF8?, dif_pos (String.isValidUTF8 _)]
  rfl

end ObjectPile.Text
