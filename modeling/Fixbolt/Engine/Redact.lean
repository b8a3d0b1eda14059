import Fixbolt.Codec.Parse

/-!
# What must never reach the disk

`mask` overwrites the value of every secret field of a record, `carriesSecret` asks whether there is
one. Both scan without a dictionary: from separator to separator, a DATA secret being as long as the
most recent length field for it says when that reaches further.
-/

namespace Fixbolt

/-- The byte every masked value byte becomes. -/
def MASK : UInt8 := 0x2A

/-- How a secret's value is delimited. -/
inductive Secret.Kind where
  /-- Ends at the next separator. -/
  | string
  /-- Its length is declared by the field `length`. -/
  | data (length : ℕ)
deriving DecidableEq, Repr

/-- Which messages a secret is masked in. -/
inductive Secret.Scope where
  | every
  /-- Those of a sign-on. -/
  | signOn
deriving DecidableEq, Repr

/-- One field that never reaches the disk. -/
structure Secret where
  tag : ℕ
  kind : Secret.Kind
  scope : Secret.Scope
deriving DecidableEq, Repr

/-- The list of them. -/
def masked : List Secret :=
  [⟨554, .string, .every⟩, ⟨925, .string, .every⟩, ⟨1402, .data 1401, .every⟩,
    ⟨1404, .data 1403, .every⟩, ⟨96, .data 95, .signOn⟩]

/-- The index of the first separator at or after `from_`, or the length. -/
def nextSoh (bytes : Bytes) (from_ : ℕ) : ℕ := (findSoh bytes from_).getD bytes.length

/-- The message type of a piece that is a `35=`. -/
def typeIn (piece : Bytes) : Option Bytes :=
  if [0x33, 0x35, EQ].isPrefixOf piece then some (piece.drop 3) else none

/-- Do the secrets of a sign-on count: is any `35=` one, or is there none? -/
def signOn (bytes : Bytes) : Bool :=
  let types := (bytes.splitOn SOH).filterMap typeIn
  types.contains (ascii "A") || types.contains (ascii "BE") || types.isEmpty

/-- A tag, all digits. -/
def parseTag (digits : Bytes) : Option ℕ :=
  if digits.isEmpty then none
  else digits.foldlM (fun n b => (digitOf b).bind fun d => checkedU32 (n * 10 + d)) 0

/-- A declared length: up to the first byte that is no digit, and no more than a `usize` counts. -/
def parseLen (digits : Bytes) : ℕ :=
  (digits.takeWhile fun b => (digitOf b).isSome).foldl
    (fun n b => min (n * 10 + (digitOf b).getD 0) (usizeSize - 1)) 0

/-- Where the scan is, and the most recent declared length for each secret. -/
structure Scan where
  at_ : ℕ
  signOn : Bool
  declared : List ℕ
deriving DecidableEq, Repr

namespace Scan

def new (bytes : Bytes) : Scan := ⟨0, Fixbolt.signOn bytes, masked.map fun _ => 0⟩

/-- A length field: remember what it declares, for the DATA after it. -/
def declare (declared : List ℕ) (tag : ℕ) (value : Bytes) : List ℕ :=
  List.zipWith (fun s d => if s.kind = .data tag then parseLen value else d) masked declared

/-- Where the value of a secret ends. -/
def valueEnd (bytes : Bytes) (from_ fieldEnd declared : ℕ) : Secret.Kind → ℕ
  | .string => fieldEnd
  | .data _ =>
    let byLen := min (from_ + declared) bytes.length
    if fieldEnd < byLen then nextSoh bytes byLen else fieldEnd

/-- One pass of the loop of `next`: the field at the scan's place, and the range of its value if it
is a secret. -/
def look (s : Scan) (bytes : Bytes) : Scan × Option (ℕ × ℕ) :=
  let start := s.at_
  let fieldEnd := nextSoh bytes start
  let s := { s with at_ := fieldEnd + 1 }
  let field := (bytes.drop start).take (fieldEnd - start)
  match field.findIdx? (· == EQ) with
  | none => (s, none)
  | some eq =>
    match parseTag (field.take eq) with
    | none => (s, none)
    | some tag =>
      let from_ := start + eq + 1
      let s := { s with declared := declare s.declared tag (field.drop (eq + 1)) }
      match (masked.zip s.declared).find? (fun p => p.1.tag == tag) with
      | none => (s, none)
      | some (secret, declared) =>
        if secret.scope = .signOn ∧ s.signOn = false then (s, none)
        else
          let to_ := valueEnd bytes from_ fieldEnd declared secret.kind
          ({ s with at_ := to_ + 1 }, some (from_, to_))

/-- The value range of the next secret field. The scan goes on at least one byte with each field. -/
def next (bytes : Bytes) : ℕ → Scan → Option ((ℕ × ℕ) × Scan)
  | 0, _ => none
  | fuel + 1, s =>
    if bytes.length ≤ s.at_ then none
    else
      match s.look bytes with
      | (s, some range) => some (range, s)
      | (s, none) => next bytes fuel s

end Scan

/-- Overwrite a range, if it is one. -/
def fill (bytes : Bytes) (from_ to_ : ℕ) : Bytes :=
  if from_ ≤ to_ ∧ to_ ≤ bytes.length then
    bytes.take from_ ++ List.replicate (to_ - from_) MASK ++ bytes.drop to_
  else bytes

/-- The loop of `mask`. -/
def maskLoop : ℕ → Scan → Bytes → ℕ → Bytes × ℕ
  | 0, _, bytes, masked => (bytes, masked)
  | fuel + 1, scan, bytes, masked =>
    match scan.next bytes (bytes.length + 1) with
    | none => (bytes, masked)
    | some ((from_, to_), scan) => maskLoop fuel scan (fill bytes from_ to_) (masked + 1)

/-- Overwrite every value byte of every secret field; with how many there were. -/
def mask (bytes : Bytes) : Bytes × ℕ := maskLoop (bytes.length + 1) (.new bytes) bytes 0

/-- Is there any secret field? -/
def carriesSecret (bytes : Bytes) : Bool := ((Scan.new bytes).next bytes (bytes.length + 1)).isSome

end Fixbolt
