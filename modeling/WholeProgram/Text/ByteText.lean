import WholeProgram.Text.Quoted

/-!
# Texts that are given as bytes

Such a text need not be UTF-8. Two of them are equal when their bytes are, so that a text with a stray byte
is equal to no text of characters; where it is shown, each stray byte stands as a replacement character.
-/

namespace WholeProgram.Text

/-- A text, by its bytes. -/
structure ByteText where
  bytes : List UInt8 := []
deriving DecidableEq, Inhabited, Repr

namespace ByteText

/-- The bytes of a text of characters. -/
def ofString (s : String) : ByteText := { bytes := s.toUTF8.toList }

instance : Coe String ByteText := ⟨ofString⟩

def isEmpty (t : ByteText) : Bool := t.bytes.isEmpty

/-- The characters, if the bytes encode some. -/
def text? (t : ByteText) : Option String := String.fromUTF8? (ByteArray.mk t.bytes.toArray)

/-- The text is made of these characters. -/
def isText (t : ByteText) (s : String) : Bool := t == ofString s

/-- The characters begin with the text, which may end within one of them. -/
def begins (t : ByteText) (s : String) : Bool := t.bytes.isPrefixOf s.toUTF8.toList

/-- The character that stands for a stray byte. -/
def replacement : Char := '\ufffd'

/-- The text as far as it can be shown. -/
def shown (t : ByteText) : String :=
  String.ofList ((pieces t.bytes).map fun
    | .char c => c
    | .byte _ => replacement)

/-- The text between double quotes. -/
def quoted (t : ByteText) : String := "\"" ++ escapeBytes t.bytes ++ "\""

end ByteText

end WholeProgram.Text
