/-!
# Sizes in bytes

Positions in a text are counted in bytes of its UTF-8 form.
-/

namespace EntityMapper.Text

/-- The number of bytes of a list of characters. -/
def byteSize (text : List Char) : Nat :=
  text.foldr (fun c size => c.utf8Size + size) 0

theorem byteSize_cons (c : Char) (text : List Char) :
    byteSize (c :: text) = c.utf8Size + byteSize text := rfl

theorem byteSize_append (first second : List Char) :
    byteSize (first ++ second) = byteSize first + byteSize second := by
  induction first with
  | nil => exact (Nat.zero_add _).symm
  | cons c rest ih =>
    calc
      byteSize (c :: rest ++ second) =
          c.utf8Size + (byteSize rest + byteSize second) := by
        rw [List.cons_append, byteSize_cons, ih]
      _ = byteSize (c :: rest) + byteSize second := by
        rw [byteSize_cons, Nat.add_assoc]

theorem byteSize_eq (text : List Char) :
    byteSize text = (String.ofList text).utf8ByteSize := by
  induction text with
  | nil => rfl
  | cons c rest ih =>
    rw [byteSize_cons, ih]
    simp

/-- The bytes of a text. -/
def utf8Bytes (text : String) : List UInt8 := text.toUTF8.data.toList

end EntityMapper.Text
