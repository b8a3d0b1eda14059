import Fixbolt.Codec.Frame

/-!
# What a template writes

The encoder of `Template` threads an output through its parts. Here is what it leaves there, as the
fields it lays out.

* `groupFields`: the fields of a group, in the order of the dictionary, nested groups included;
* `GroupFits`: what the encoder checks of a group before it writes it;
* `putGroup_ok`: a group that is written is written as its fields;
* `encodeWith_ok`: a message that is written is the frame around what its parts write.
-/

namespace Fixbolt

variable {D : Dictionary} {room : ℕ}

/-! ### The fields of a group -/

namespace GroupEntryData

/-- The fields supplied for an entry. -/
def fields : GroupEntryData → List (ℕ × Bytes)
  | mk fields _ => fields

/-- The groups supplied for an entry. -/
def groups : GroupEntryData → List GroupData
  | mk _ groups => groups

end GroupEntryData

/-- The group supplied for a counter. -/
def groupFor (groups : List GroupData) (counter : ℕ) : Option GroupData :=
  groups.find? fun g => g.1 == counter

/-- The value a member of an entry is written with: a length is that of its DATA. -/
def memberValue (D : Dictionary) (order : List ℕ) (fields : List (ℕ × Bytes)) (tag : ℕ)
    (value : Bytes) : Bytes :=
  match (dataOwner D order tag).bind (slotValue fields) with
  | some data => renderU32 data.length
  | none => value

/-- The fields one member of an entry lays out; `sub` is what a nested group lays out. -/
def memberFields (D : Dictionary) (sub : GroupData → List (ℕ × Bytes)) (order : List ℕ)
    (e : GroupEntryData) (tag : ℕ) : List (ℕ × Bytes) :=
  match slotValue e.fields tag with
  | some value => [(tag, memberValue D order e.fields tag value)]
  | none =>
    match groupFor e.groups tag with
    | some g => sub g
    | none => []

/-- The fields one entry lays out. -/
def entryFields (D : Dictionary) (sub : GroupData → List (ℕ × Bytes)) (order : List ℕ)
    (e : GroupEntryData) : List (ℕ × Bytes) := order.flatMap (memberFields D sub order e)

/-- The fields a group lays out, at most `levels` deep. -/
def groupFields (D : Dictionary) (msgType : Bytes) : ℕ → GroupData → List (ℕ × Bytes)
  | 0, _ => []
  | levels + 1, g =>
    (g.1, renderU32 g.2.length) ::
      g.2.flatMap (entryFields D (groupFields D msgType levels) (D.groupOrder msgType g.1))

/-! ### What the encoder checks of a group -/

/-- What the encoder checks of an entry; `sub` is what it checks of a nested group. -/
structure EntryFits (D : Dictionary) (sub : GroupData → Prop) (order : List ℕ)
    (e : GroupEntryData) : Prop where
  fields : ∀ f ∈ e.fields, f.1 ∈ order
  groups : ∀ g ∈ e.groups, g.1 ∈ order
  delimiter : ∃ d, order.head? = some d ∧ d ∈ e.fields.map (·.1)
  lengths : ∀ f ∈ e.fields, ∀ l, D.dataLengthTag f.1 = some l → l ∈ order
  nested : ∀ t ∈ order, slotValue e.fields t = none → ∀ g, groupFor e.groups t = some g → sub g

/-- What the encoder checks of a group, at most `levels` deep. -/
def GroupFits (D : Dictionary) (msgType : Bytes) : ℕ → GroupData → Prop
  | 0, _ => False
  | levels + 1, g => D.groupOrder msgType g.1 ≠ [] ∧
    ∀ e ∈ g.2, EntryFits D (GroupFits D msgType levels) (D.groupOrder msgType g.1) e

/-! ### Writing -/

theorem putBytes_ok {w w' bytes : Bytes} (h : putBytes room w bytes = .ok w') :
    w' = w ++ bytes := by
  unfold putBytes at h
  split at h
  · cases h
  · cases h
    rfl

theorem put_ok {w w' value : Bytes} {tag : ℕ} (h : put room w tag value = .ok w') :
    w' = w ++ wire [(tag, value)] := by
  rw [putBytes_ok h]
  simp

/-- A fold that writes what `out` says, one item after the other. -/
theorem foldlM_writes {α : Type} {f : Bytes → α → Except EncodeError Bytes} {P : α → Prop}
    {out : α → Bytes} {xs : List α}
    (step : ∀ x ∈ xs, ∀ w w', f w x = .ok w' → w' = w ++ out x ∧ P x) {w w' : Bytes}
    (h : xs.foldlM f w = .ok w') : w' = w ++ xs.flatMap out ∧ ∀ x ∈ xs, P x := by
  induction xs generalizing w with
  | nil =>
    cases h
    simp
  | cons x xs ih =>
    rw [List.foldlM_cons] at h
    cases hx : f w x with
    | error e => rw [hx] at h; cases h
    | ok w₁ =>
      rw [hx] at h
      obtain ⟨rfl, px⟩ := step x (by simp) w w₁ hx
      obtain ⟨rfl, pxs⟩ := ih (fun y hy => step y (by simp [hy])) h
      exact ⟨by simp, by simpa using ⟨px, pxs⟩⟩

theorem wire_flatMap {α : Type} (xs : List α) (f : α → List (ℕ × Bytes)) :
    wire (xs.flatMap f) = xs.flatMap fun x => wire (f x) := by
  induction xs with
  | nil => rfl
  | cons x xs ih => simp [ih]

theorem entryFault_none {order : List ℕ} {counter : ℕ} {e : GroupEntryData}
    (h : entryFault D order counter e.fields e.groups = none) :
    (∀ f ∈ e.fields, f.1 ∈ order) ∧ (∀ g ∈ e.groups, g.1 ∈ order) ∧
      (∃ d, order.head? = some d ∧ d ∈ e.fields.map (·.1)) ∧
      ∀ f ∈ e.fields, ∀ l, D.dataLengthTag f.1 = some l → l ∈ order := by
  unfold entryFault at h
  split at h
  · cases h
  rename_i fields
  split at h
  · cases h
  rename_i groups
  split at h
  · cases h
  rename_i d head
  split at h
  · cases h
  rename_i delimiter
  split at h
  · cases h
  rename_i lengths
  rw [List.find?_eq_none] at fields groups lengths
  refine ⟨fun f hf => by simpa using fields f hf, fun g hg => by simpa using groups g hg,
    ⟨d, head, ?_⟩, fun f hf l hl => ?_⟩
  · have : e.fields.any (fun f => f.1 == d) = true := by simpa using delimiter
    obtain ⟨f, hf, eq⟩ := List.any_eq_true.mp this
    exact List.mem_map.mpr ⟨f, hf, by simpa using eq⟩
  · have := lengths f hf
    rw [hl] at this
    simpa using this

theorem putEntry_ok {sub : Bytes → GroupData → Except EncodeError Bytes}
    {out : GroupData → List (ℕ × Bytes)} {P : GroupData → Prop}
    (writes : ∀ g w w', sub w g = .ok w' → w' = w ++ wire (out g) ∧ P g) {counter : ℕ}
    {order : List ℕ} {w w' : Bytes} {e : GroupEntryData}
    (h : putEntry D room sub counter order w e = .ok w') :
    w' = w ++ wire (entryFields D out order e) ∧ EntryFits D P order e := by
  obtain ⟨fields, groups⟩ := e
  cases fault : entryFault D order counter fields groups with
  | some e => simp [putEntry, fault] at h
  | none =>
    obtain ⟨inFields, inGroups, delimiter, lengths⟩ :=
      entryFault_none (e := .mk fields groups) fault
    simp only [putEntry, fault] at h
    obtain ⟨rfl, nested⟩ :
        w' = w ++ order.flatMap (fun t => wire (memberFields D out order (.mk fields groups) t)) ∧
          ∀ t ∈ order, slotValue fields t = none → ∀ g, groupFor groups t = some g → P g := by
      refine foldlM_writes (fun t _ w w' hw => ?_) h
      simp only [memberFields, memberValue, GroupEntryData.fields, GroupEntryData.groups]
      cases supplied : slotValue fields t with
      | some v =>
        refine ⟨?_, fun none => by cases none⟩
        simp only [supplied] at hw
        cases owned : (dataOwner D order t).bind (slotValue fields) with
        | some data =>
          simp only [owned] at hw
          exact put_ok hw
        | none =>
          simp only [owned] at hw
          exact put_ok hw
      | none =>
        simp only [supplied] at hw
        cases found : groupFor groups t with
        | some g =>
          simp only [show groups.find? (fun g => g.1 == t) = some g from found] at hw
          obtain ⟨rfl, fits⟩ := writes g w w' hw
          exact ⟨rfl, fun _ g' eq => Option.some.inj eq ▸ fits⟩
        | none =>
          simp only [show groups.find? (fun g => g.1 == t) = none from found] at hw
          cases hw
          exact ⟨by simp, fun _ g' eq => by cases eq⟩
    exact ⟨by rw [entryFields, wire_flatMap], inFields, inGroups, delimiter, lengths, nested⟩

/-- **A group that is written is written as its fields**, and it is one the encoder accepts. -/
theorem putGroup_ok {msgType : Bytes} {levels : ℕ} {w w' : Bytes} {g : GroupData}
    (h : putGroup D room msgType levels w g = .ok w') :
    w' = w ++ wire (groupFields D msgType levels g) ∧ GroupFits D msgType levels g := by
  induction levels generalizing w w' g with
  | zero => cases h
  | succ levels ih =>
    rw [putGroup] at h
    split at h
    · cases h
    rename_i known
    cases counter : put room w g.1 (renderU32 g.2.length) with
    | error e => rw [counter] at h; cases h
    | ok w₁ =>
      rw [counter] at h
      obtain ⟨rfl, fits⟩ := @foldlM_writes _ _
        (EntryFits D (GroupFits D msgType levels) (D.groupOrder msgType g.1))
        (fun e => wire (entryFields D (groupFields D msgType levels)
          (D.groupOrder msgType g.1) e)) _
        (fun e _ w w' hw => putEntry_ok (fun g w w' hg => ih hg) hw) _ _ h
      refine ⟨?_, by simpa using known, fits⟩
      rw [put_ok counter, groupFields]
      simp only [wire_cons, wire_nil, wire_flatMap, List.append_nil, List.append_assoc]

/-! ### Parts and messages -/

namespace Template

variable (t : Template) (D : Dictionary) (slots : List (ℕ × Bytes)) (groups : List GroupData)

/-- The bytes a part writes. -/
def partBytes : Part → Bytes
  | .static bytes => bytes
  | .slot tag => wire ((slotValue slots tag).toList.map fun v => (tag, v))
  | .dataLen tag dataTag =>
    wire ((slotValue slots dataTag).toList.map fun v => (tag, renderU32 v.length))
  | .group counter => wire ((groupFor groups counter).toList.flatMap
      (groupFields D t.msgType maxDepth))

variable {t D slots groups}

theorem putPart_ok {w w' : Bytes} {part : Part}
    (h : t.putPart D room slots groups w part = .ok w') :
    w' = w ++ t.partBytes D slots groups part ∧
      ∀ c g, part = .group c → groupFor groups c = some g → GroupFits D t.msgType maxDepth g := by
  cases part with
  | static bytes => exact ⟨putBytes_ok h, fun c g eq => by cases eq⟩
  | slot tag =>
    refine ⟨?_, fun c g eq => by cases eq⟩
    unfold putPart at h
    cases supplied : slotValue slots tag with
    | some v =>
      simp only [supplied] at h
      simpa [partBytes, supplied] using put_ok h
    | none =>
      simp only [supplied] at h
      cases h
      simp [partBytes, supplied]
  | dataLen tag dataTag =>
    refine ⟨?_, fun c g eq => by cases eq⟩
    unfold putPart at h
    cases supplied : slotValue slots dataTag with
    | some v =>
      simp only [supplied] at h
      simpa [partBytes, supplied] using put_ok h
    | none =>
      simp only [supplied] at h
      cases h
      simp [partBytes, supplied]
  | group counter =>
    unfold putPart at h
    cases found : groupFor groups counter with
    | some g =>
      simp only [show groups.find? (fun g => g.1 == counter) = some g from found] at h
      obtain ⟨rfl, fits⟩ := putGroup_ok h
      refine ⟨by simp [partBytes, found], fun c g' eq same => ?_⟩
      cases eq
      exact Option.some.inj (found.symm.trans same) ▸ fits
    | none =>
      simp only [show groups.find? (fun g => g.1 == counter) = none from found] at h
      cases h
      refine ⟨by simp [partBytes, found], fun c g' eq same => ?_⟩
      cases eq
      rw [found] at same
      cases same

/-- The bytes of a frame. -/
def framed (begin_ body : Bytes) : Bytes :=
  let front := encodeField 8 begin_ ++ encodeField 9 (renderU32 body.length) ++ body
  front ++ encodeField 10 (formatChecksum (checksum front))

/-- **A message that is written is the frame around what its parts write.** -/
theorem encodeWith_ok {start : ℕ} {bytes : Bytes}
    (h : t.encodeWith D room slots groups = .ok (start, bytes)) :
    bytes = framed t.beginString (t.parts.flatMap (t.partBytes D slots groups)) ∧
      (t.parts.flatMap (t.partBytes D slots groups)).length < 100000 ∧
      t.beginString.length < prefixSize ∧
      ∀ c ∈ t.parts, ∀ n g, c = .group n → groupFor groups n = some g →
        GroupFits D t.msgType maxDepth g := by
  unfold encodeWith at h
  cases body : t.parts.foldlM (t.putPart D (room - t.reserve) slots groups) [] with
  | error e => rw [body] at h; cases h
  | ok w =>
    rw [body] at h
    obtain ⟨rfl, fits⟩ := foldlM_writes (fun part _ w w' hw => putPart_ok hw) body
    simp only [bind, Except.bind, List.nil_append] at h
    split at h
    · cases h
    rename_i short
    split at h
    · cases h
    split at h
    · cases h
    split at h
    · cases h
    split at h
    · cases h
    cases h
    have short : (t.parts.flatMap (t.partBytes D slots groups)).length < 100000 := by
      simpa using short
    refine ⟨?_, short, by omega, fits⟩
    have front (n : ℕ) : t.framePrefix n =
        encodeField 8 t.beginString ++ encodeField 9 (renderU32 n) := by
      simp [framePrefix, encodeField, show renderU32 8 = ascii "8" by decide,
        show renderU32 9 = ascii "9" by decide, show ascii "8=" = ascii "8" ++ [EQ] by decide,
        show ascii "9=" = ascii "9" ++ [EQ] by decide]
    have last (xs : Bytes) : trailer xs = encodeField 10 (formatChecksum (checksum xs)) := by
      simp [trailer, encodeField, show renderU32 10 = ascii "10" by decide,
        show ascii "10=" = ascii "10" ++ [EQ] by decide]
    rw [front, last]
    rfl

end Template

end Fixbolt
