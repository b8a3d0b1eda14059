import Fixbolt.Codec.Bytes

/-!
# Field index, message view and the dictionary the codec asks

The parser records where each field is and never copies a value. `FieldEntry` is one recorded
field, an index is the list of them in wire order (at most `N`), and a `MessageView` is an index
over the bytes it points into.
-/

namespace Fixbolt

/-- The dictionary questions the codec asks. -/
structure Dictionary where
  /-- Is this tag a header field? -/
  isHeader : ℕ → Bool
  /-- For a DATA field, the tag of the length field that must precede it. -/
  dataLengthTag : ℕ → Option ℕ
  /-- The tag that begins each entry of the group `(msgType, counter)`. -/
  groupDelimiter : Bytes → ℕ → Option ℕ
  /-- Every tag that may appear inside the group. -/
  groupMembers : Bytes → ℕ → List ℕ
  /-- Declaration order within the group, delimiter first. -/
  groupOrder : Bytes → ℕ → List ℕ

/-- A dictionary that knows nothing. -/
def noDict : Dictionary where
  isHeader _ := false
  dataLengthTag _ := none
  groupDelimiter _ _ := none
  groupMembers _ _ := []
  groupOrder _ _ := []

/-- Why a frame could not be read. -/
inductive ParseError where
  /-- `8=` is not at byte 0, or `9=` does not immediately follow it. -/
  | badFrameStart
  /-- A tag was not a decimal number, or did not fit in a `u32`; `at` is its first byte. -/
  | badTag (at_ : ℕ)
  | tooManyFields
  | missingLengthField (tag : ℕ)
  | lengthOutOfBounds (tag : ℕ)
  | badBodyLength
  | badCheckSum
  | fieldTooLong (tag : ℕ)
deriving DecidableEq, Repr

/-- One field: its tag, where its value starts and how long that value is. -/
structure FieldEntry where
  tag : ℕ
  offset : ℕ
  len : ℕ
deriving DecidableEq, Repr

/-- The longest value an index can record. -/
def u16Max : ℕ := 65535

/-- Record one more field in an index of capacity `N`. The count is a `u16`: recording the 65536th
field, which only an index of a larger capacity has room for, takes it back to 0. -/
def pushField (N : ℕ) (idx : List FieldEntry) (tag offset len : ℕ) :
    Except ParseError (List FieldEntry) :=
  if u16Max < len then .error (.fieldTooLong tag)
  else if N ≤ idx.length then .error .tooManyFields
  else if idx.length = u16Max then .ok []
  else .ok (idx ++ [⟨tag, wrapU32 offset, len⟩])

/-- The `len` bytes of `buf` from `at_` on, when they are all there. -/
def slice (buf : Bytes) (at_ len : ℕ) : Option Bytes :=
  if at_ + len ≤ buf.length then some ((buf.drop at_).take len) else none

/-- A parsed message: the caller's bytes and the index into them. -/
structure MessageView where
  buf : Bytes
  entries : List FieldEntry
deriving DecidableEq, Repr

namespace MessageView

/-- The bytes an entry points at. -/
def valueOf (m : MessageView) (e : FieldEntry) : Option Bytes := slice m.buf e.offset e.len

/-- Value of the first field with this tag. -/
def get (m : MessageView) (tag : ℕ) : Option Bytes :=
  (m.entries.find? fun e => e.tag == tag).bind m.valueOf

/-- The `i`-th field in wire order. -/
def fieldAt (m : MessageView) (i : ℕ) : Option (ℕ × Bytes) :=
  m.entries[i]?.bind fun e => (m.valueOf e).map fun v => (e.tag, v)

/-- How many fields the message has. -/
def len (m : MessageView) : ℕ := m.entries.length

/-- The fields in wire order, tag and value. -/
def fields (m : MessageView) : List (ℕ × Bytes) :=
  m.entries.filterMap fun e => (m.valueOf e).map fun v => (e.tag, v)

end MessageView

theorem slice_length {buf v : Bytes} {at_ len : ℕ} (h : slice buf at_ len = some v) :
    v.length = len := by
  unfold slice at h
  split at h
  · obtain rfl : (buf.drop at_).take len = v := by simpa using h
    simp only [List.length_take, List.length_drop]
    omega
  · cases h

theorem slice_append (xs ys zs : Bytes) : slice (xs ++ ys ++ zs) xs.length ys.length = some ys := by
  simp [slice]

theorem pushField_ok {N : ℕ} {idx idx' : List FieldEntry} {tag offset len : ℕ}
    (h : pushField N idx tag offset len = .ok idx') :
    len ≤ u16Max ∧ idx.length < N ∧
      idx' = if idx.length = u16Max then [] else idx ++ [⟨tag, wrapU32 offset, len⟩] := by
  unfold pushField at h
  split at h
  · cases h
  · split at h
    · cases h
    · split at h
      all_goals
        rename_i full
        cases h
        exact ⟨by omega, by omega, by simp [full]⟩

end Fixbolt
