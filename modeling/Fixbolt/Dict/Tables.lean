import Fixbolt.Codec.Index
import Fixbolt.Dict.FieldType

/-!
# What a session asks a dictionary while it validates one message

`Tables` is the trait of the source: the codec's questions and the session's. `fix44` is a
table with the rows of FIX 4.4 that the session messages take, and those of `NewOrderSingle` for
an order with parties and allocations.
-/

namespace Fixbolt

/-- The dictionary a session validates against. -/
structure Tables extends Dictionary where
  /-- Does the layer that defines this message type define this tag? -/
  isDefinedTagFor : Bytes → ℕ → Bool
  /-- The header fields every message must carry. -/
  requiredHeader : List ℕ
  /-- The body fields a message type must carry. -/
  required : Bytes → List ℕ
  /-- May this message type carry this tag? -/
  allows : Bytes → ℕ → Bool
  /-- Will an enumerated field take this value? `none` when it is not enumerated. -/
  enumAllows : ℕ → Bytes → Option Bool
  /-- The declared type of a field. -/
  fieldType : ℕ → Option FieldType
  /-- Is this a message type the dictionary knows? -/
  isMsgType : Bytes → Bool
  /-- Does the dictionary call this message type administrative? -/
  isAdmin : Bytes → Bool

/-! ### An excerpt of FIX 4.4 -/

namespace Fix44

/-- The header tags of FIX 4.4. -/
def header : List ℕ :=
  [8, 9, 34, 35, 43, 49, 50, 52, 56, 57, 90, 91, 97, 115, 116, 122, 128, 129, 142, 143, 144, 145,
    212, 213, 347, 369, 627, 628, 629, 630]

/-- The trailer tags of FIX 4.4. -/
def trailer : List ℕ := [93, 89, 10]

/-- The DATA fields of FIX 4.4 and their length fields. -/
def dataLengths : List (ℕ × ℕ) :=
  [(89, 93), (91, 90), (96, 95), (213, 212), (349, 348), (351, 350), (353, 352), (355, 354),
    (357, 356), (359, 358), (361, 360), (363, 362), (365, 364), (446, 445), (619, 618), (622, 621)]

/-- The groups of a Logon and of an order with parties and allocations: message type, counter
and members in declaration order. -/
def groups : List (Bytes × ℕ × List ℕ) :=
  [(ascii "A", 384, [372, 385]), (ascii "D", 453, [448, 447, 452, 802]),
    (ascii "D", 802, [523, 803]), (ascii "D", 78, [79, 661, 736, 467, 539, 80]),
    (ascii "D", 539, [524, 525, 538, 804]), (ascii "D", 804, [545, 805])]

/-- The members of a group, in declaration order; the header group answers for every type. -/
def groupMembers (msgType : Bytes) (counter : ℕ) : List ℕ :=
  if counter = 627 then [628, 629, 630]
  else ((groups.find? fun g => g.1 == msgType && g.2.1 == counter).map (·.2.2)).getD []

/-- One message type: the tags it requires, and the others it may carry. -/
structure Message where
  msgType : Bytes
  admin : Bool
  required : List ℕ
  optional : List ℕ

/-- The message types of the excerpt. -/
def messages : List Message :=
  [⟨ascii "0", true, [], [112]⟩, ⟨ascii "1", true, [112], []⟩, ⟨ascii "2", true, [7, 16], []⟩,
    ⟨ascii "3", true, [45], [58, 354, 355, 371, 372, 373]⟩, ⟨ascii "4", true, [36], [123]⟩,
    ⟨ascii "5", true, [], [58, 354, 355]⟩,
    ⟨ascii "A", true, [98, 108],
      [95, 96, 141, 372, 383, 384, 385, 464, 553, 554, 789]⟩,
    ⟨ascii "D", false, [11, 54, 60, 40],
      [1, 21, 38, 44, 55, 58, 59, 78, 79, 80, 354, 355, 447, 448, 452, 453, 467, 523, 524, 525,
        538, 539, 545, 661, 736, 802, 803, 804, 805]⟩]

/-- The row of a message type. -/
def message (msgType : Bytes) : Option Message := messages.find? fun m => m.msgType == msgType

/-- The declared types of the tags of the excerpt that are no strings. -/
def fieldTypes : List (ℕ × FieldType) :=
  [(7, .seqNum), (9, .length), (16, .seqNum), (34, .seqNum), (36, .seqNum), (38, .qty),
    (40, .char), (43, .boolean), (45, .seqNum), (52, .utcTimestamp), (54, .char), (59, .char),
    (60, .utcTimestamp), (21, .char), (44, .price), (78, .numInGroup), (80, .qty), (89, .data),
    (90, .length), (91, .data), (93, .length), (95, .length), (96, .data), (97, .boolean),
    (98, .int), (108, .int), (122, .utcTimestamp), (123, .boolean), (141, .boolean),
    (212, .length), (213, .data), (354, .length), (355, .data), (369, .seqNum), (371, .int),
    (373, .int), (383, .length), (384, .numInGroup), (385, .char), (447, .char), (452, .int),
    (453, .numInGroup), (464, .boolean), (525, .char), (538, .int), (539, .numInGroup),
    (627, .numInGroup), (629, .utcTimestamp), (630, .seqNum), (661, .int), (736, .currency),
    (789, .seqNum), (802, .numInGroup), (803, .int), (804, .numInGroup), (805, .int)]

/-- The tags of the excerpt. -/
def tags : List ℕ :=
  header ++ trailer ++ messages.flatMap fun m => m.required ++ m.optional

/-- The enumerated values of the excerpt that an order or a session message takes. -/
def enums : List (ℕ × List String) :=
  [(43, ["Y", "N"]), (97, ["Y", "N"]), (123, ["Y", "N"]), (141, ["Y", "N"]),
    (98, ["0", "1", "2", "3", "4", "5", "6"]), (21, ["1", "2", "3"]),
    (54, ["1", "2", "3", "4", "5", "6", "7", "8", "9", "A", "B", "C", "D", "E", "F", "G"]),
    (40, ["1", "2", "3", "4", "6", "7", "8", "9", "D", "E", "G", "I", "J", "K", "L", "M", "P"])]

end Fix44

/-- FIX 4.4, as far as the excerpt goes. -/
def fix44 : Tables where
  isHeader tag := Fix44.header.contains tag
  dataLengthTag tag := (Fix44.dataLengths.find? fun d => d.1 == tag).map (·.2)
  groupDelimiter msgType counter := (Fix44.groupMembers msgType counter).head?
  groupMembers := Fix44.groupMembers
  groupOrder := Fix44.groupMembers
  isDefinedTagFor _ tag := Fix44.tags.contains tag
  requiredHeader := [8, 9, 35, 49, 56, 34, 52]
  required msgType := ((Fix44.message msgType).map (·.required)).getD []
  allows msgType tag := (Fix44.message msgType).any fun m =>
    m.required.contains tag || m.optional.contains tag || Fix44.header.contains tag ||
      Fix44.trailer.contains tag
  enumAllows tag value :=
    (Fix44.enums.find? fun e => e.1 == tag).map fun e => e.2.any fun x => ascii x == value
  fieldType tag := if Fix44.tags.contains tag then
      some (((Fix44.fieldTypes.find? fun t => t.1 == tag).map (·.2)).getD .string)
    else none
  isMsgType msgType := (Fix44.message msgType).isSome
  isAdmin msgType := (Fix44.message msgType).any (·.admin)

end Fixbolt
