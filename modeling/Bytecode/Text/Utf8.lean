/-!
# Texts as bytes

A text is carried as its UTF-8 bytes. `utf8` lists them, `ofUtf8?` reads a text back and refuses
whatever is not well formed. The main statement, `ofUtf8?_eq_some_iff`, says that a text has exactly
one byte form: reading accepts what writing produces and nothing else.
-/

namespace Bytecode.Text

/-- The UTF-8 bytes of a text. -/
def utf8 (s : String) : List UInt8 := s.toByteArray.data.toList

/-- The text whose UTF-8 bytes these are, if they are well formed. -/
def ofUtf8? (bs : List UInt8) : Option String := String.fromUTF8? ⟨bs.toArray⟩

theorem ofUtf8?_utf8 (s : String) : ofUtf8? (utf8 s) = some s := by
  simp [ofUtf8?, utf8, String.fromUTF8?, s.isValidUTF8, String.fromUTF8]

theorem utf8_of_ofUtf8? {bs : List UInt8} {s : String} (h : ofUtf8? bs = some s) : utf8 s = bs := by
  unfold ofUtf8? String.fromUTF8? at h
  split at h
  · cases h
    simp [utf8, String.fromUTF8]
  · cases h

theorem ofUtf8?_eq_some_iff {bs : List UInt8} {s : String} : ofUtf8? bs = some s ↔ utf8 s = bs :=
  ⟨utf8_of_ofUtf8?, fun h => h ▸ ofUtf8?_utf8 s⟩

end Bytecode.Text
