import Fixbolt.Lib.Walk
import Fixbolt.Sbe.Group

/-!
# Where an SBE message ends

The length of a message is not on the wire: it is where a walk over its groups and its `varData`
ends, and the counts, block lengths and prefixes it goes by are the sender's. Every walk moves on,
stays inside the buffer, looks at nothing behind the place it ends at, and fails only where the
bytes run out.

* `ReadsTo`, `Walks`, `GroupWalk`: reads, cursors and groups that are such walks;
* `skipGroup_walks`: a group of any layout is walked over so, whatever it says of itself;
* `parse_streaming`: the parser is a streaming reader;
* `parse_streams`: what it says of a message, of every part of it and of everything behind it.
-/

namespace Fixbolt.Sbe

variable {α β : Type} {b b' : Bytes} {pos k : ℕ} {e : SbeError}

/-! ### Reads -/

/-- A read of a value that ends at `k`. -/
abbrev ReadsTo (k : ℕ) (pos : ℕ) (read : Bytes → Except SbeError α) : Prop :=
  Walk .truncated (fun _ v => v) (fun _ => k) pos read

theorem checkedUsize_eq_ok_iff {n m : ℕ} : checkedUsize n = .ok m ↔ n < usizeSize ∧ n = m := by
  unfold checkedUsize
  split <;> simp [*]

theorem slice_eq_ok_iff {at_ len : ℕ} {v : Bytes} :
    slice b at_ len = .ok v ↔
      at_ + len < usizeSize ∧ at_ + len ≤ b.length ∧ (b.drop at_).take len = v := by
  unfold slice
  rw [bind_eq_ok]
  constructor
  · rintro ⟨end_, checked, h⟩
    obtain ⟨small, rfl⟩ := checkedUsize_eq_ok_iff.mp checked
    split at h
    · exact ⟨small, ‹_›, Except.ok.inj h⟩
    · cases h
  · rintro ⟨small, inside, rfl⟩
    exact ⟨_, checkedUsize_eq_ok_iff.mpr ⟨small, rfl⟩, if_pos inside⟩

theorem checkedUsize_error {n : ℕ} (h : checkedUsize n = .error e) : e = .truncated := by
  unfold checkedUsize at h
  split at h <;> cases h
  rfl

theorem slice_error {at_ len : ℕ} (h : slice b at_ len = .error e) : e = .truncated := by
  unfold slice at h
  cases small : checkedUsize (at_ + len) with
  | error e' =>
    rw [small] at h
    cases h
    exact checkedUsize_error small
  | ok end_ =>
    rw [small] at h
    simp only [bind, Except.bind] at h
    split at h
    · cases h
    · cases h
      rfl

theorem slice_reads (at_ len : ℕ) : ReadsTo (at_ + len) at_ fun b => slice b at_ len where
  onward _ := Nat.le_add_right _ _
  inside _ found := (slice_eq_ok_iff.mp found).2.1
  agree same found := by
    obtain ⟨small, inside, rfl⟩ := slice_eq_ok_iff.mp found
    exact slice_eq_ok_iff.mpr ⟨small, same.length_le inside, same.take_drop_eq le_rfl⟩
  cut := slice_error

theorem readUnsigned_reads (at_ size : ℕ) (order : ByteOrder) :
    ReadsTo (at_ + size) at_ fun b => readUnsigned b at_ size order := by
  have read : ReadsTo (at_ + size) at_ fun b =>
      slice b at_ size >>= fun bytes => .ok (order.number bytes) :=
    (slice_reads at_ size).bind fun bytes =>
      .still (order.number bytes) (fun _ => rfl) rfl (fun _ => rfl) fun _ _ => rfl
  have same (b : Bytes) : readUnsigned b at_ size order =
      slice b at_ size >>= fun bytes => .ok (order.number bytes) := by
    unfold readUnsigned
    cases slice b at_ size <;> rfl
  rw [funext same]
  exact read

theorem readU8_reads (at_ : ℕ) : ReadsTo (at_ + 1) at_ fun b => readU8 b at_ where
  onward _ := Nat.le_add_right _ _
  inside {b n} _ found := by
    unfold readU8 at found
    split at found
    · rename_i here
      have := (List.getElem?_eq_some_iff.mp here).1
      omega
    · cases found
  agree same found := by
    unfold readU8 at found ⊢
    rw [← same at_ (Nat.lt_succ_self at_)]
    exact found
  cut found := by
    unfold readU8 at found
    split at found
    · cases found
    · exact (Except.error.inj found).symm

theorem readLength_reads (at_ : ℕ) (t : LengthType) (order : ByteOrder) :
    ReadsTo (at_ + t.size) at_ fun b => readLength b at_ t order := by
  cases t with
  | u8 => exact readU8_reads at_
  | u16 => exact readUnsigned_reads at_ 2 order
  | u32 => exact readUnsigned_reads at_ 4 order

/-- A sum that is checked, and a walk that needs it. -/
theorem walk_checked {onto : Bytes → α → α} {place : α → ℕ} {n : ℕ}
    {next : Bytes → ℕ → Except SbeError α} (h : Walk .truncated onto place pos fun b => next b n) :
    Walk .truncated onto place pos fun b => checkedUsize n >>= next b := by
  unfold checkedUsize
  split
  · exact h
  · exact ⟨nofun, nofun, nofun, fun found => (Except.error.inj found).symm⟩

/-! ### Cursors -/

/-- The cursor in other bytes. -/
def Cursor.onto (b : Bytes) (c : Cursor) : Cursor := { c with buf := b }

/-- A way to move a cursor that is a walk. -/
def Walks (f : Cursor → Except SbeError Cursor) : Prop :=
  ∀ c : Cursor, Walk .truncated Cursor.onto Cursor.pos c.pos fun b => f (c.onto b)

/-- A walk that ends with the cursor at a place it has reached. -/
theorem walk_rest (c : Cursor) :
    Walk SbeError.truncated Cursor.onto Cursor.pos c.pos fun b => .ok (c.onto b) :=
  .still c (fun _ => rfl) rfl (fun _ => rfl) fun _ _ => rfl

theorem varData_walk (v : VarDataLayout) (c : Cursor) :
    Walk .truncated (fun b r => (r.1, r.2.onto b)) (fun r => r.2.pos) c.pos
      fun b => (c.onto b).varData v := by
  unfold Cursor.varData
  by_cases old : c.version < v.sinceVersion
  · simp only [Cursor.onto, old, if_true]
    exact .still (none, c) (fun _ => rfl) rfl (fun _ => rfl) fun _ _ => rfl
  · simp only [Cursor.onto, old, if_false]
    refine (readLength_reads c.pos v.length c.order).bind fun len => ?_
    refine walk_checked ((slice_reads _ len).bind fun data => ?_)
    exact .still (some data, { c with pos := c.pos + v.length.size + len }) (fun _ => rfl) rfl
      (fun _ => rfl) fun _ _ => rfl

theorem skipVarData_walks (vs : List VarDataLayout) : Walks fun c => c.skipVarData vs := by
  induction vs with
  | nil => exact walk_rest
  | cons v vs ih =>
    intro c
    exact (varData_walk v c).bind fun r => ih r.2

/-! ### Groups -/

/-- The group in other bytes. -/
def Group.onto (b : Bytes) (g : Group) : Group := { g with cur := g.cur.onto b }

/-- A walk of a group. -/
abbrev GroupWalk (pos : ℕ) (run : Bytes → Except SbeError Group) : Prop :=
  Walk .truncated Group.onto (fun g => g.cur.pos) pos run

theorem group_walk (l : GroupLayout) (c : Cursor) : GroupWalk c.pos fun b => (c.onto b).group l := by
  unfold Cursor.group
  by_cases old : c.version < l.sinceVersion
  · simp only [Cursor.onto, old, if_true]
    exact .still ⟨c, l, 0, 0, 0, false, false⟩ (fun _ => rfl) rfl (fun _ => rfl) fun _ _ => rfl
  · simp only [Cursor.onto, old, if_false]
    refine (readLength_reads c.pos _ c.order).bind fun blockLength => walk_checked ?_
    refine (readLength_reads _ _ c.order).bind fun count => walk_checked ?_
    exact .still ⟨{ c with pos := c.pos + l.dimension.size }, l, blockLength, count, count, false,
      true⟩ (fun _ => rfl) (Nat.add_assoc _ _ _).symm (fun _ => rfl) fun _ _ => rfl

section Tail

variable {tail : Cursor → Except SbeError Cursor} (walks : Walks tail)

include walks

theorem skipPendingTail_walk (g : Group) :
    GroupWalk g.cur.pos fun b => (g.onto b).skipPendingTail tail := by
  unfold Group.skipPendingTail
  by_cases pending : g.tailPending = true
  · simp only [Group.onto, pending, if_true]
    refine (walks g.cur).bind fun c => ?_
    exact .still { g with cur := c, tailPending := false } (fun _ => rfl) rfl (fun _ => rfl)
      fun _ _ => rfl
  · refine .still g (fun b => ?_) rfl (fun _ => rfl) fun _ _ => rfl
    exact if_neg pending

/-- The entry in other bytes. -/
def Entry.onto (b : Bytes) (e : Entry) : Entry := { e with tail := e.tail.onto b }

theorem nextEntry_walk (g : Group) :
    Walk .truncated (fun b r => (r.1.map (Entry.onto b), r.2.onto b)) (fun r => r.2.cur.pos) g.cur.pos
      fun b => (g.onto b).nextEntry tail := by
  unfold Group.nextEntry
  refine (skipPendingTail_walk walks g).bind fun g => ?_
  by_cases last : g.remaining = 0
  · simp only [Group.onto, last, if_true]
    exact .still (none, { g with remaining := 0 }) (fun _ => rfl) rfl (fun _ => rfl) fun _ _ => rfl
  · simp only [Group.onto, last, if_false]
    refine (slice_reads g.cur.pos g.blockLength).bind fun bytes => ?_
    exact .still (some ⟨bytes, { g.cur with pos := g.cur.pos + g.blockLength }⟩,
      { g with
        cur := { g.cur with pos := g.cur.pos + g.blockLength }
        remaining := g.remaining - 1
        tailPending := g.hasTail }) (fun _ => rfl) rfl (fun _ => rfl) fun _ _ => rfl

theorem drain_walk (fuel : ℕ) (g : Group) :
    GroupWalk g.cur.pos fun b => (g.onto b).drain tail fuel := by
  induction fuel generalizing g with
  | zero => exact .still g (fun _ => rfl) rfl (fun _ => rfl) fun _ _ => rfl
  | succ fuel ih =>
    refine (nextEntry_walk walks g).bind fun r => ?_
    obtain ⟨entry, g⟩ := r
    cases entry with
    | none => exact .still g (fun _ => rfl) rfl (fun _ => rfl) fun _ _ => rfl
    | some entry => exact ih g

theorem finish_walk (g : Group) :
    Walk .truncated Cursor.onto Cursor.pos g.cur.pos fun b => (g.onto b).finish tail := by
  unfold Group.finish
  refine (skipPendingTail_walk walks g).bind fun g => ?_
  have same (b : Bytes) : (g.onto b).hasTail = g.hasTail := rfl
  simp only [same]
  by_cases has : g.hasTail = true
  · simp only [has, if_true]
    refine (drain_walk walks (g.remaining + 1) g).bind fun g => ?_
    exact (skipPendingTail_walk walks g).bind fun g => walk_rest g.cur
  · simp only [has, Group.onto]
    refine walk_checked ((slice_reads g.cur.pos (g.blockLength * g.remaining)).bind fun _ => ?_)
    exact walk_rest { g.cur with pos := g.cur.pos + g.blockLength * g.remaining }

end Tail

mutual

/-- **A group of any layout is walked over**, whatever its counts and lengths say. -/
theorem skipGroup_walks : ∀ l : GroupLayout, Walks (Cursor.skipGroup l)
  | .mk since dimension groups varData => by
    intro c
    have tail : Walks fun c => Cursor.skipGroups groups c >>= fun c => c.skipVarData varData :=
      fun c => (skipGroups_walks groups c).bind fun c => skipVarData_walks varData c
    exact (group_walk _ c).bind fun g => finish_walk tail g

theorem skipGroups_walks : ∀ ls : List GroupLayout, Walks (Cursor.skipGroups ls)
  | [] => walk_rest
  | l :: ls => by
    intro c
    exact (skipGroup_walks l c).bind fun c => skipGroups_walks ls c

end

theorem skipTail_walks (groups : List GroupLayout) (varData : List VarDataLayout) :
    Walks (Cursor.skipTail groups varData) :=
  fun c => (skipGroups_walks groups c).bind fun c => skipVarData_walks varData c

/-! ### The parser -/

/-- Once the fuel is more than the entries that remain, more of it changes nothing. -/
theorem drain_fuel {tail : Cursor → Except SbeError Cursor} {fuel : ℕ} {g : Group}
    (enough : g.remaining < fuel) : g.drain tail (fuel + 1) = g.drain tail fuel := by
  have fewer {g g' : Group} {entry : Entry} (found : g.nextEntry tail = .ok (some entry, g')) :
      g'.remaining < g.remaining := by
    unfold Group.nextEntry at found
    obtain ⟨g₁, skipped, found⟩ := bind_eq_ok.mp found
    have same : g₁.remaining = g.remaining := by
      unfold Group.skipPendingTail at skipped
      split at skipped
      · obtain ⟨cur, -, eq⟩ := bind_eq_ok.mp skipped
        cases eq
        rfl
      · cases skipped
        rfl
    split at found
    · cases found
    · obtain ⟨bytes, -, eq⟩ := bind_eq_ok.mp found
      cases eq
      show g₁.remaining - 1 < g.remaining
      omega
  induction fuel generalizing g with
  | zero => omega
  | succ fuel ih =>
    rw [Group.drain, Group.drain]
    cases next : g.nextEntry tail with
    | error e => rfl
    | ok r =>
      obtain ⟨entry, g'⟩ := r
      cases entry with
      | none => rfl
      | some entry =>
        have := fewer next
        exact ih (by omega)

theorem readU16_ok {at_ : ℕ} (order : ByteOrder) (holds : at_ + 2 ≤ b.length)
    (small : at_ + 2 < usizeSize) : ∃ n, readU16 b at_ order = .ok n := by
  have found : slice b at_ 2 = .ok ((b.drop at_).take 2) :=
    slice_eq_ok_iff.mpr ⟨small, holds, rfl⟩
  exact ⟨_, by rw [readU16, readUnsigned, found]; rfl⟩

theorem decode_ok (order : ByteOrder) (holds : HEADER_LEN ≤ b.length) :
    ∃ h, MessageHeader.decode b order = .ok h := by
  unfold HEADER_LEN at holds
  obtain ⟨blockLength, eq₀⟩ := @readU16_ok b 0 order (by omega) (by decide)
  obtain ⟨templateId, eq₁⟩ := @readU16_ok b 2 order (by omega) (by decide)
  obtain ⟨schemaId, eq₂⟩ := @readU16_ok b 4 order (by omega) (by decide)
  obtain ⟨version, eq₃⟩ := @readU16_ok b 6 order (by omega) (by decide)
  refine ⟨⟨blockLength, templateId, schemaId, version⟩, ?_⟩
  rw [MessageHeader.decode, eq₀, eq₁, eq₂, eq₃]
  rfl

theorem decode_reads (order : ByteOrder) :
    ReadsTo HEADER_LEN 0 fun b => MessageHeader.decode b order := by
  unfold MessageHeader.decode
  refine (readUnsigned_reads 0 2 order).bind fun blockLength => ?_
  refine (readUnsigned_reads 2 2 order).bind fun templateId => ?_
  refine (readUnsigned_reads 4 2 order).bind fun schemaId => ?_
  refine (readUnsigned_reads 6 2 order).bind fun version => ?_
  exact .still ⟨blockLength, templateId, schemaId, version⟩ (fun _ => rfl) rfl (fun _ => rfl)
    fun _ _ => rfl

/-- The walk from the root block to the end of the message. -/
def measure (S : Schema) (layout : MessageLayout) (b : Bytes) : Except SbeError Cursor := do
  let view ← SbeView.new b S.byteOrder
  let tail ← view.tail S
  tail.skipTail layout.groups layout.varData

/-- The block length is read twice, and the same both times. -/
theorem measure_eq (S : Schema) (layout : MessageLayout) (b : Bytes) :
    measure S layout b = (do
      let h ← MessageHeader.decode b S.byteOrder
      let _ ← slice b HEADER_LEN h.blockLength
      let pos ← checkedUsize (HEADER_LEN + h.blockLength)
      Cursor.skipTail layout.groups layout.varData ⟨b, pos, S.byteOrder, h.version⟩) := by
  unfold measure SbeView.new SbeView.tail SbeView.rootEnd SbeView.blockLength
  cases decoded : MessageHeader.decode b S.byteOrder with
  | error e => rfl
  | ok h =>
    have again : readU16 b 0 S.byteOrder = .ok h.blockLength := by
      unfold MessageHeader.decode at decoded
      obtain ⟨blockLength, first, decoded⟩ := bind_eq_ok.mp decoded
      obtain ⟨templateId, -, decoded⟩ := bind_eq_ok.mp decoded
      obtain ⟨schemaId, -, decoded⟩ := bind_eq_ok.mp decoded
      obtain ⟨version, -, decoded⟩ := bind_eq_ok.mp decoded
      cases decoded
      exact first
    cases block : slice b HEADER_LEN h.blockLength with
    | error e =>
      simp only [bind, Except.bind, block]
    | ok bytes =>
      simp only [bind, Except.bind, pure, Except.pure, block, again]
      cases checkedUsize (HEADER_LEN + h.blockLength) <;> rfl

theorem measure_walk (S : Schema) (layout : MessageLayout) :
    Walk .truncated Cursor.onto Cursor.pos 0 (measure S layout) := by
  rw [funext (measure_eq S layout)]
  refine (decode_reads S.byteOrder).bind fun h => ?_
  refine (slice_reads HEADER_LEN h.blockLength).bind fun _ => walk_checked ?_
  exact skipTail_walks layout.groups layout.varData
    ⟨[], HEADER_LEN + h.blockLength, S.byteOrder, h.version⟩

theorem measure_behind {S : Schema} {layout : MessageLayout} {c : Cursor}
    (walked : measure S layout b = .ok c) : HEADER_LEN ≤ c.pos := by
  rw [measure_eq] at walked
  obtain ⟨h, -, walked⟩ := bind_eq_ok.mp walked
  obtain ⟨block, -, walked⟩ := bind_eq_ok.mp walked
  obtain ⟨pos, sum, walked⟩ := bind_eq_ok.mp walked
  obtain ⟨-, rfl⟩ := checkedUsize_eq_ok_iff.mp sum
  have onward := (skipTail_walks layout.groups layout.varData ⟨b, _, _, _⟩).onward walked
  exact le_trans (Nat.le_add_right _ _) onward

/-- What a parse says, as the verdict of a reader. -/
def verdict : Except SbeError Parsed → Verdict Unit SbeError
  | .ok (.complete n) => .done n ()
  | .ok .incomplete => .more
  | .error e => .failed e

theorem verdict_inj {x y : Except SbeError Parsed} (h : verdict x = verdict y) : x = y := by
  cases x with
  | error e =>
    cases y with
    | error e' => cases h; rfl
    | ok p => cases p <;> cases h
  | ok p =>
    cases y with
    | error e' => cases p <;> cases h
    | ok q => cases p <;> cases q <;> cases h <;> rfl

/-- What the parser says once it has the header. -/
theorem parse_eq (S : Schema) (scratch : MessageHeader) {h : MessageHeader}
    (long : HEADER_LEN ≤ b.length) (decoded : MessageHeader.decode b S.byteOrder = .ok h) :
    (parse S b scratch).2 =
      if h.schemaId ≠ S.id then .error .wrongSchema
      else match S.message h.templateId with
        | none => .error .unknownTemplate
        | some layout =>
          match measure S layout b with
          | .ok c => .ok (.complete c.pos)
          | .error _ => .ok .incomplete := by
  unfold parse
  rw [if_neg (by omega), decoded]
  dsimp only
  split
  · rfl
  · cases S.message h.templateId with
    | none => rfl
    | some layout =>
      dsimp only
      have walk : (do
          let view ← SbeView.new b S.byteOrder
          let tail ← view.tail S
          tail.skipTail layout.groups layout.varData) = measure S layout b := rfl
      rw [walk]
      cases walked : measure S layout b with
      | ok c => rfl
      | error e =>
        obtain rfl := (measure_walk S layout).cut walked
        rfl

/-- What the parser says of another buffer, when the two agree on what it looked at. -/
theorem parse_agree {S : Schema} {scratch : MessageHeader} (agree : AgreeOn k b b')
    (settled : (verdict (parse S b scratch).2).SettledBy k b.length) :
    (parse S b' scratch).2 = (parse S b scratch).2 := by
  by_cases short : b.length < HEADER_LEN
  · have more : (parse S b scratch).2 = .ok .incomplete := by rw [parse, if_pos short]
    rw [more] at settled
    exact settled.elim
  · have long : HEADER_LEN ≤ b.length := Nat.le_of_not_lt short
    obtain ⟨h, decoded⟩ := decode_ok S.byteOrder long
    rw [parse_eq S scratch long decoded] at settled ⊢
    -- the header is among the bytes that settle the verdict, so it is there in the other buffer
    have same (le : HEADER_LEN ≤ k) : (parse S b' scratch).2 = _ :=
      parse_eq S scratch ((agree.mono le).length_le long)
        ((decode_reads S.byteOrder).agree (agree.mono le) decoded)
    split at settled
    · rename_i wrong
      rw [same (le_trans long settled), if_pos wrong, if_pos wrong]
    · rename_i right
      rw [if_neg right]
      cases found : S.message h.templateId with
      | none =>
        rw [found] at settled
        rw [same (le_trans long settled), if_neg right, found]
      | some layout =>
        rw [found] at settled
        dsimp only at settled ⊢
        cases walked : measure S layout b with
        | error e =>
          rw [walked] at settled
          exact settled.elim
        | ok c =>
          rw [walked] at settled
          have le : c.pos ≤ k := settled
          rw [same (le_trans (measure_behind walked) le), if_neg right, found]
          dsimp only
          rw [(measure_walk S layout).agree (agree.mono le) walked]
          rfl

theorem parse_bounds {S : Schema} {scratch : MessageHeader} {n : ℕ}
    (said : (parse S b scratch).2 = .ok (.complete n)) : n ≤ b.length := by
  by_cases short : b.length < HEADER_LEN
  · rw [parse, if_pos short] at said
    cases said
  · have long : HEADER_LEN ≤ b.length := Nat.le_of_not_lt short
    obtain ⟨h, decoded⟩ := decode_ok S.byteOrder long
    rw [parse_eq S scratch long decoded] at said
    split at said
    · cases said
    · split at said
      · cases said
      · rename_i layout found
        split at said
        · rename_i c walked
          cases said
          exact (measure_walk S layout).inside (Nat.zero_le _) walked
        · cases said

/-- **The parser is a streaming reader.** -/
theorem parse_streaming (S : Schema) (scratch : MessageHeader) :
    Streaming fun b => verdict (parse S b scratch).2 where
  within {b n v} said := parse_bounds (verdict_inj (y := .ok (.complete n)) said)
  settled agree settled := by rw [parse_agree agree settled]

/-- The parser knows two errors. -/
theorem parse_errors {S : Schema} {scratch : MessageHeader}
    (said : (parse S b scratch).2 = .error e) : e = .wrongSchema ∨ e = .unknownTemplate := by
  by_cases short : b.length < HEADER_LEN
  · rw [parse, if_pos short] at said
    cases said
  · have long : HEADER_LEN ≤ b.length := Nat.le_of_not_lt short
    obtain ⟨h, decoded⟩ := decode_ok S.byteOrder long
    rw [parse_eq S scratch long decoded] at said
    split at said
    · exact .inl (Except.error.inj said).symm
    · split at said
      · exact .inr (Except.error.inj said).symm
      · split at said <;> cases said

/-- What was read before says nothing about a parse. -/
theorem parse_scratch (S : Schema) (b : Bytes) (scratch scratch' : MessageHeader) :
    (parse S b scratch).2 = (parse S b scratch').2 := by
  by_cases short : b.length < HEADER_LEN
  · rw [parse, parse, if_pos short, if_pos short]
  · have long : HEADER_LEN ≤ b.length := Nat.le_of_not_lt short
    obtain ⟨h, decoded⟩ := decode_ok S.byteOrder long
    rw [parse_eq S scratch long decoded, parse_eq S scratch' long decoded]

/-- **SBE parsing is a streaming parser.** Of every proper part of a message it asks for more and a
message is taken the same way whatever follows it; an error is the error of every longer input, and
of a shorter one too unless it asks for more; and there are two errors. None of it depends on what
the parser was used for before. -/
theorem parse_streams (S : Schema) (scratch scratch' : MessageHeader) (b : Bytes) :
    (∀ n, (parse S b scratch).2 = .ok (.complete n) → n ≤ b.length ∧
      (∀ k < n, (parse S ((b.take n).take k) scratch').2 = .ok .incomplete) ∧
      ∀ more, (parse S (b.take n ++ more) scratch').2 = .ok (.complete n)) ∧
    (∀ e, (parse S b scratch).2 = .error e →
      (∀ more, (parse S (b ++ more) scratch').2 = .error e) ∧
      (∀ k, (parse S (b.take k) scratch').2 = .ok .incomplete ∨
        (parse S (b.take k) scratch').2 = .error e) ∧
      (e = .wrongSchema ∨ e = .unknownTemplate)) := by
  rw [parse_scratch S b scratch scratch']
  have streams := parse_streaming S scratch'
  refine ⟨fun n said => ⟨parse_bounds said, fun k lt => ?_, fun more => ?_⟩,
    fun e said => ⟨fun more => ?_, fun k => ?_, parse_errors said⟩⟩
  · rw [List.take_take, Nat.min_eq_left (Nat.le_of_lt lt)]
    exact verdict_inj (streams.short (congrArg verdict said) lt)
  · exact verdict_inj (streams.front (congrArg verdict said) more)
  · exact verdict_inj (streams.failed_append (congrArg verdict said) more)
  · exact (streams.failed_take (congrArg verdict said) k).imp verdict_inj verdict_inj

end Fixbolt.Sbe
