/-! # Texts as bytes

Texts are stored in UTF-8. Bytes are read back only if all of them belong to whole characters;
otherwise the answer is the length of the longest prefix that is a text. -/

namespace TableQuery.Text

/-- The bytes of a text. -/
def encode (s : String) : List UInt8 :=
  s.toList.flatMap String.utf8EncodeChar

/-- The end of the run of whole characters that starts at `i`. -/
def wholeUpTo (bytes : ByteArray) (i : Nat) : Nat :=
  match _h : bytes.utf8DecodeChar? i with
  | none => i
  | some c => wholeUpTo bytes (i + c.utf8Size)
termination_by bytes.size - i
decreasing_by
  have := ByteArray.le_size_of_utf8DecodeChar?_eq_some _h
  have := c.utf8Size_pos
  omega

/-- The text that bytes encode, or the length of the longest prefix that is a text. -/
def decode (bytes : List UInt8) : Except Nat String :=
  match String.fromUTF8? bytes.toByteArray with
  | some s => .ok s
  | none => .error (wholeUpTo bytes.toByteArray 0)

theorem toByteArray_encode (s : String) : (encode s).toByteArray = s.toByteArray := by
  rw [← String.utf8Encode_toList]
  rfl

@[simp] theorem decode_encode (s : String) : decode (encode s) = .ok s := by
  simp [decode, toByteArray_encode, String.fromUTF8?, s.isValidUTF8, String.fromUTF8]

end TableQuery.Text
