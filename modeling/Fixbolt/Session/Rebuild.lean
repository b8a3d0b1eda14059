import Fixbolt.Codec.Template

/-!
# Laying a message out again

`rebuild` takes a message apart at its separators and hands every field to a `TemplateBuilder`:
a resend gets `43=Y`, a new `52=` and the old one as `122=`, an originated message gets the
session's `34=`, `52=` and `369=`.
-/

namespace Fixbolt

/-- Position of the first occurrence of a needle. -/
def findSub (needle : Bytes) : Bytes → Option ℕ
  | [] => none
  | b :: rest => if needle.isPrefixOf (b :: rest) then some 0 else (findSub needle rest).map (· + 1)

/-- The runs of bytes between separators. -/
def splitSoh : Bytes → List Bytes
  | [] => [[]]
  | b :: rest =>
    match splitSoh rest with
    | [] => [[b]]
    | run :: runs => if b = SOH then [] :: run :: runs else (b :: run) :: runs

/-- The loop of `digitsToU32`. -/
def digitsToU32Loop : Bytes → ℕ → Option ℕ
  | [], n => some n
  | c :: rest, n =>
    (digitOf c).bind fun d => (checkedU32 (n * 10 + d)).bind fun n => digitsToU32Loop rest n

/-- The number that a tag's text writes. -/
def digitsToU32 (text : Bytes) : Option ℕ := if text.isEmpty then none else digitsToU32Loop text 0

/-- A run between separators as a field: `none` when it is no field at all. -/
def splitField (run : Bytes) : Option (ℕ × Bytes) :=
  (run.findIdx? (· == EQ)).bind fun eq =>
    (digitsToU32 (run.take eq)).map fun tag => (tag, run.drop (eq + 1))

/-- The fields of a message between its `35=` and its `10=`, as the scan reads them. -/
def scanSource (src : Bytes) : Option (List (ℕ × Bytes)) := do
  let at35 ← (findSub (SOH :: ascii "35=") src).map (· + 1)
  let at10 := ((findSub (SOH :: ascii "10=") src).map (· + 1)).getD src.length
  if at10 < at35 then none
  ((splitSoh ((src.take at10).drop at35)).filter (!·.isEmpty)).mapM splitField

/-- The `BeginString` of a message, as the scan reads it. -/
def scanBegin (src : Bytes) : Option Bytes :=
  (src.findIdx? (· == SOH)).bind fun stop =>
    if stop < 2 then none else some ((src.take stop).drop 2)

/-- Room of the template a message is rebuilt in: parts and scratch. -/
def rebuildParts : ℕ := 128

@[inherit_doc rebuildParts] def rebuildScratch : ℕ := 1024

/-- The fields the session writes in front of those of the source. -/
def sessionFields (seq : Option Bytes) (now : Bytes) (lastProcessed : Option ℕ) (resend : Bool) :
    List (ℕ × Bytes) :=
  [(52, now)] ++
    (match lastProcessed with
      | some v => if resend then [] else [(369, renderU32 v)]
      | none => []) ++
    (if resend then [(43, ascii "Y")] else []) ++
    (match seq with
      | some n => [(34, n)]
      | none => [])

/-- What becomes of one field of the source. -/
def rebuildField (seq : Option Bytes) (resend : Bool) (f : ℕ × Bytes) : Option (ℕ × Bytes) :=
  if f.1 = 43 ∨ f.1 = 122 then none
  else if f.1 = 34 ∧ seq.isSome then none
  else if f.1 = 52 then (if resend then some (122, f.2) else none)
  else some f

/-- Every field of the rebuilt message, in the order the builder is given them. -/
def rebuildFields (seq : Option Bytes) (now : Bytes) (lastProcessed : Option ℕ) (resend : Bool)
    (fields : List (ℕ × Bytes)) : List (ℕ × Bytes) :=
  sessionFields seq now lastProcessed resend ++ fields.filterMap (rebuildField seq resend)

/-- The builder of a rebuilt message. -/
def rebuildBuilder (begin_ : Bytes) (fields : List (ℕ × Bytes)) : TemplateBuilder :=
  fields.foldl (fun b f => TemplateBuilder.field rebuildParts rebuildScratch b f.1 f.2)
    (TemplateBuilder.new rebuildScratch begin_)

/-- Build and write a message of static fields, in an output of `room` bytes. -/
def layOut (D : Dictionary) (room : ℕ) (begin_ : Bytes) (fields : List (ℕ × Bytes)) :
    Option Bytes :=
  match (rebuildBuilder begin_ fields).build D rebuildParts rebuildScratch with
  | .error _ => none
  | .ok t => (t.encodeWith D room [] []).toOption.map (·.2)

/-- Lay a message out again, in an output of `room` bytes. -/
def rebuild (D : Dictionary) (room : ℕ) (src : Bytes) (seq : Option Bytes) (now : Bytes)
    (lastProcessed : Option ℕ) (resend : Bool) : Option Bytes := do
  let begin_ ← scanBegin src
  let fields ← scanSource src
  layOut D room begin_ (rebuildFields seq now lastProcessed resend fields)

/-- The bytes of a kept message as they are sent again. -/
def asResend (D : Dictionary) (room : ℕ) (kept now : Bytes) : Option Bytes :=
  rebuild D room kept none now none true

end Fixbolt
