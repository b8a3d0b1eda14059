import Fixbolt.Codec.Template

/-!
# Fields as a framed message

`frame` is a message as it stands on the wire: `BeginString`, `BodyLength`, the fields, and the
checksum over what comes before it.
-/

namespace Fixbolt

/-- Fields on the wire. -/
def wire (fields : List (ℕ × Bytes)) : Bytes := fields.flatMap fun f => encodeField f.1 f.2

/-- The frame of a message up to its checksum. -/
def frameFront (begin_ : Bytes) (fields : List (ℕ × Bytes)) : Bytes :=
  encodeField 8 begin_ ++ encodeField 9 (renderU32 (wire fields).length) ++ wire fields

/-- A framed message. -/
def frame (begin_ : Bytes) (fields : List (ℕ × Bytes)) : Bytes :=
  frameFront begin_ fields ++ encodeField 10 (formatChecksum (checksum (frameFront begin_ fields)))

@[simp] theorem wire_nil : wire [] = [] := rfl

@[simp] theorem wire_cons (f : ℕ × Bytes) (fields : List (ℕ × Bytes)) :
    wire (f :: fields) = encodeField f.1 f.2 ++ wire fields := rfl

@[simp] theorem wire_append (xs ys : List (ℕ × Bytes)) : wire (xs ++ ys) = wire xs ++ wire ys :=
  List.flatMap_append

end Fixbolt
