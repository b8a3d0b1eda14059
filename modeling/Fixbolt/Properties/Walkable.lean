import Fixbolt.Properties.Templating
import Fixbolt.Properties.Walking
import Fixbolt.Sbe.Writer

/-!
# Bytes that are read wherever they stand

A piece of a message is read the same whatever stands in front of it and behind it: a length, a
`varData` element, an entry with its tail, a group with its entries. Pieces one behind another are
read one after another, and skipped.

* `Reads`, `Skips`: a reader reads some bytes, or passes them;
* `Strung`: one piece for each of some things, in their order;
* `readEntries_on`: entries one behind another are found one after another;
* `group_on`: a dimension and as many entries as it says are a group.
-/

namespace Fixbolt.Sbe

variable {order : ByteOrder} {version : ℕ}

/-! ### Bytes that are read wherever they stand -/

/-- A cursor behind some bytes. -/
def behind (order : ByteOrder) (version : ℕ) (front rest : Bytes) : Cursor :=
  ⟨front ++ rest, front.length, order, version⟩

/-- `f` reads `a` off the bytes `b`, and stops behind them. -/
def Reads {α : Type} (order : ByteOrder) (version : ℕ)
    (f : Cursor → Except SbeError (α × Cursor)) (b : Bytes) (a : α) : Prop :=
  ∀ front back : Bytes, (front ++ (b ++ back)).length < usizeSize →
    f (behind order version front (b ++ back)) =
      .ok (a, { behind order version front (b ++ back) with pos := front.length + b.length })

/-- `f` passes the bytes `b`. -/
def Skips (order : ByteOrder) (version : ℕ) (f : Cursor → Except SbeError Cursor) (b : Bytes) :
    Prop :=
  ∀ front back : Bytes, (front ++ (b ++ back)).length < usizeSize →
    f (behind order version front (b ++ back)) =
      .ok { behind order version front (b ++ back) with pos := front.length + b.length }

/-- Behind the first of two pieces the second begins. -/
theorem behind_append (front b rest : Bytes) :
    ({ behind order version front (b ++ rest) with pos := front.length + b.length } : Cursor) =
      behind order version (front ++ b) rest := by
  simp [behind]

theorem behind_placed {front rest : Bytes} (small : (front ++ rest).length < usizeSize) :
    (behind order version front rest).Placed :=
  ⟨by simp [behind], small⟩

/-- One thing passed behind another. -/
theorem Skips.bind {f g : Cursor → Except SbeError Cursor} {b b' : Bytes}
    (hf : Skips order version f b) (hg : Skips order version g b') :
    Skips order version (fun c => f c >>= g) (b ++ b') := by
  intro front back small
  rw [List.append_assoc] at small ⊢
  have first := hf front (b' ++ back) small
  rw [behind_append] at first
  have second := hg (front ++ b) back (by rw [List.append_assoc]; exact small)
  show f _ >>= g = _
  rw [first]
  refine second.trans ?_
  simp [behind, Nat.add_assoc]

/-- One thing read behind another. -/
theorem Reads.bind {α β γ : Type} {f : Cursor → Except SbeError (α × Cursor)}
    {g : Cursor → Except SbeError (β × Cursor)} {join : α → β → γ} {b b' : Bytes} {a : α} {a' : β}
    (hf : Reads order version f b a) (hg : Reads order version g b' a') :
    Reads order version
      (fun c => f c >>= fun r => g r.2 >>= fun s => .ok (join r.1 s.1, s.2)) (b ++ b')
      (join a a') := by
  intro front back small
  rw [List.append_assoc] at small ⊢
  have first := hf front (b' ++ back) small
  rw [behind_append] at first
  have second := hg (front ++ b) back (by rw [List.append_assoc]; exact small)
  show (f _ >>= fun r => g r.2 >>= fun s => .ok (join r.1 s.1, s.2)) = _
  rw [first]
  show (g _ >>= fun s => .ok (join a s.1, s.2)) = _
  rw [second]
  refine congrArg (fun c => Except.ok (join a a', c)) ?_
  simp [behind, Nat.add_assoc]

/-! ### One length -/

theorem slice_behind {front b back : Bytes} (small : (front ++ (b ++ back)).length < usizeSize) :
    slice (front ++ (b ++ back)) front.length b.length = .ok b := by
  rw [List.length_append, List.length_append] at small
  refine slice_eq_ok_iff.mpr ⟨by omega, ?_, ?_⟩
  · simp only [List.length_append]
    omega
  · rw [List.drop_left, List.take_left]

theorem ByteOrder.number_bytes {size v : ℕ} (fits : v < 256 ^ size) :
    order.number (order.bytes size v) = v := by
  cases order with
  | little => exact ofLe_toLe fits
  | big => simp [ByteOrder.number, ByteOrder.bytes, ofLe_toLe fits]

theorem readUnsigned_behind {front back : Bytes} {size v : ℕ} (fits : v < 256 ^ size)
    (small : (front ++ (order.bytes size v ++ back)).length < usizeSize) :
    readUnsigned (front ++ (order.bytes size v ++ back)) front.length size order = .ok v := by
  have found := slice_behind small
  rw [order.bytes_length] at found
  rw [readUnsigned, found]
  exact congrArg Except.ok (ByteOrder.number_bytes fits)

/-- A length that was written is read. -/
theorem readLength_behind {t : LengthType} {front back : Bytes} {v : ℕ} (fits : v < 256 ^ t.size)
    (small : (front ++ (order.bytes t.size v ++ back)).length < usizeSize) :
    readLength (front ++ (order.bytes t.size v ++ back)) front.length t order = .ok v := by
  cases t with
  | u8 =>
    have one : order.bytes 1 v = [(v % 256).toUInt8] := by cases order <;> rfl
    have byte : (v % 256).toUInt8.toNat = v := by
      rw [show LengthType.u8.size = 1 from rfl, pow_one] at fits
      rw [Nat.mod_eq_of_lt fits]
      exact Nat.mod_eq_of_lt fits
    show readU8 (front ++ (order.bytes 1 v ++ back)) front.length = .ok v
    rw [one, readU8, List.getElem?_append_right le_rfl, Nat.sub_self]
    exact congrArg Except.ok byte
  | u16 => exact readUnsigned_behind fits small
  | u32 => exact readUnsigned_behind fits small

/-! ### Pieces one behind another -/

/-- Bytes that are one piece for each of some things, in their order. -/
inductive Strung {τ : Type} (on : τ → Bytes → Prop) : List τ → Bytes → Prop
  | nil : Strung on [] []
  | cons {t : τ} {ts : List τ} {b bs : Bytes} : on t b → Strung on ts bs →
      Strung on (t :: ts) (b ++ bs)

theorem Strung.snoc {τ : Type} {on : τ → Bytes → Prop} {ts : List τ} {bs : Bytes}
    (h : Strung on ts bs) {t : τ} {b : Bytes} (last : on t b) : Strung on (ts ++ [t]) (bs ++ b) := by
  induction h with
  | nil =>
    have alone := Strung.cons last .nil
    rwa [List.append_nil] at alone
  | cons first _ ih =>
    rw [List.append_assoc]
    exact .cons first ih

/-- A `varData` element and what it is read as. -/
def VarOn (order : ByteOrder) (version : ℕ) (p : VarDataSpec × Bytes) (b : Bytes) : Prop :=
  Reads order version (fun c => c.varData p.1.layout) b (some p.2)

/-- A length and as many bytes are a `varData` element. -/
theorem varData_on {v : VarDataSpec} {data : Bytes} (current : v.layout.sinceVersion ≤ version)
    (fits : data.length < 256 ^ v.layout.length.size) :
    VarOn order version (v, data) (order.bytes v.layout.length.size data.length ++ data) := by
  intro front back small
  rw [List.append_assoc] at small ⊢
  have length := readLength_behind (t := v.layout.length) fits small
  have size := order.bytes_length v.layout.length.size data.length
  have found : slice (front ++ order.bytes v.layout.length.size data.length ++ (data ++ back))
      (front ++ order.bytes v.layout.length.size data.length).length data.length = .ok data :=
    slice_behind (by rw [List.append_assoc]; exact small)
  rw [List.append_assoc, List.length_append, size] at found
  have start : checkedUsize (front.length + v.layout.length.size) =
      .ok (front.length + v.layout.length.size) := by
    refine checkedUsize_eq_ok_iff.mpr ⟨?_, rfl⟩
    simp only [List.length_append, size] at small
    omega
  show Cursor.varData ⟨_, _, _, _⟩ v.layout = _
  unfold Cursor.varData
  dsimp only
  rw [if_neg (Nat.not_lt_of_le current), length]
  simp only [bind, Except.bind, start, found]
  simp [behind, size, Nat.add_assoc, pure, Except.pure]

theorem skips_varData {ps : List (VarDataSpec × Bytes)} {b : Bytes}
    (h : Strung (VarOn order version) ps b) :
    Skips order version (fun c => c.skipVarData (ps.map (·.1.layout))) b := by
  induction h with
  | nil =>
    intro front back _
    rfl
  | @cons p ps b bs first _ ih =>
    have once : Skips order version (fun c => (c.varData p.1.layout).map (·.2)) b := by
      intro front back small
      have found := first front back small
      dsimp only at found ⊢
      rw [found]
      rfl
    refine fun front back small => ((once.bind ih) front back small ▸ ?_)
    show (behind order version front _).skipVarData _ = (Except.map _ _ >>= _)
    rw [List.map_cons, Cursor.skipVarData]
    cases (behind order version front (b ++ bs ++ back)).varData p.1.layout <;> rfl

theorem reads_varData {ps : List (VarDataSpec × Bytes)} {b : Bytes}
    (h : Strung (VarOn order version) ps b) :
    Reads order version (Cursor.readVarData (ps.map (·.1.layout))) b (ps.map (·.2)) := by
  induction h with
  | nil =>
    intro front back _
    rfl
  | @cons p ps b bs first _ ih =>
    have both := @Reads.bind order version _ _ _ _ _ (fun data others => data.getD [] :: others) _ _
      _ _ first ih
    exact both

/-! ### Groups and tails -/

/-- A group, and the entries it is read as. -/
structure GroupOn (order : ByteOrder) (version : ℕ) (p : GroupSpec × List Body) (b : Bytes) : Prop
    where
  reads : Reads order version (Cursor.readGroup p.1.layout) b p.2
  skips : Skips order version (Cursor.skipGroup p.1.layout) b

/-- What follows a block, and what it is read as. -/
structure TailOn (order : ByteOrder) (version : ℕ) (groups : List GroupSpec)
    (varData : List VarDataSpec) (body : Body) (b : Bytes) : Prop where
  reads : Reads order version
    (Cursor.readTail (GroupSpec.layouts groups) (varData.map (·.layout))) b
    (body.groups, body.varData)
  skips : Skips order version
    (Cursor.skipTail (GroupSpec.layouts groups) (varData.map (·.layout))) b

/-- An entry of a group: its block, and what follows it. -/
def EntryOn (order : ByteOrder) (version : ℕ) (g : GroupSpec) (body : Body) (b : Bytes) : Prop :=
  ∃ tail, b = body.block ++ tail ∧ body.block.length = g.blockLength.toNat ∧
    TailOn order version g.groups g.varData body tail

theorem skips_groups {ps : List (GroupSpec × List Body)} {b : Bytes}
    (h : Strung (GroupOn order version) ps b) :
    Skips order version (Cursor.skipGroups (GroupSpec.layouts (ps.map (·.1)))) b := by
  induction h with
  | nil =>
    intro front back _
    rfl
  | cons first _ ih => exact first.skips.bind ih

theorem reads_groups {ps : List (GroupSpec × List Body)} {b : Bytes}
    (h : Strung (GroupOn order version) ps b) :
    Reads order version (Cursor.readGroups (GroupSpec.layouts (ps.map (·.1)))) b
      (ps.map (·.2)) := by
  induction h with
  | nil =>
    intro front back _
    rfl
  | cons first _ ih => exact Reads.bind first.reads ih

/-- Groups, and then `varData`. -/
theorem tail_on {ps : List (GroupSpec × List Body)} {qs : List (VarDataSpec × Bytes)} {b b' : Bytes}
    {groups : List GroupSpec} {varData : List VarDataSpec} {block : Bytes}
    (onGroups : Strung (GroupOn order version) ps b) (onVar : Strung (VarOn order version) qs b')
    (specs : ps.map (·.1) = groups) (varSpecs : qs.map (·.1) = varData) :
    TailOn order version groups varData (.mk block (ps.map (·.2)) (qs.map (·.2))) (b ++ b') := by
  subst specs varSpecs
  have read := reads_varData onVar
  have skip := skips_varData onVar
  refine ⟨?_, ?_⟩
  · rw [List.map_map]
    exact Reads.bind (reads_groups onGroups) read
  · rw [List.map_map]
    exact (skips_groups onGroups).bind skip

/-- A group's own way over an entry's tail. -/
abbrev GroupSpec.skipTail (g : GroupSpec) : Cursor → Except SbeError Cursor :=
  Cursor.skipTail (GroupSpec.layouts g.groups) (g.varData.map (·.layout))

abbrev GroupSpec.readTail (g : GroupSpec) :
    Cursor → Except SbeError ((List (List Body) × List Bytes) × Cursor) :=
  Cursor.readTail (GroupSpec.layouts g.groups) (g.varData.map (·.layout))

section Entries

variable {g : GroupSpec} {entries : List Body} {b : Bytes}

/-- A block, and what follows it. -/
theorem Skips.behind_block {f : Cursor → Except SbeError Cursor} {block tail : Bytes} {len : ℕ}
    (size : block.length = len) (skips : Skips order version f tail) :
    Skips order version
      (fun c => slice c.buf c.pos len >>= fun _ => f { c with pos := c.pos + len })
      (block ++ tail) := by
  subst size
  intro front back small
  rw [List.append_assoc] at small ⊢
  have found := slice_behind small
  have rest := skips (front ++ block) back (by rw [List.append_assoc]; exact small)
  rw [← behind_append, List.length_append] at rest
  show (slice (front ++ (block ++ (tail ++ back))) front.length block.length >>= fun _ =>
    f { behind order version front (block ++ (tail ++ back)) with
      pos := front.length + block.length }) = _
  rw [found]
  refine rest.trans ?_
  simp only [behind, List.length_append, Nat.add_assoc]

/-- Entries are walked over one after another. -/
theorem walkEntries_on (h : Strung (EntryOn order version g) entries b) :
    Skips order version (walkEntries g.skipTail g.blockLength.toNat entries.length) b := by
  induction h with
  | nil =>
    intro front back _
    rfl
  | @cons body bodies b bs first _ ih =>
    obtain ⟨tail, rfl, size, on⟩ := first
    have both := (on.skips.behind_block size).bind ih
    intro front back small
    rw [← both front back small]
    exact (bind_assoc _ _ _).symm

/-- A tail that is not on the wire has no bytes. -/
theorem TailOn.eq_nil {body : Body} {tail : Bytes}
    (on : TailOn order version g.groups g.varData body tail) {front back : Bytes}
    (small : (front ++ (tail ++ back)).length < usizeSize)
    (absent : onWire (GroupSpec.layouts g.groups) (g.varData.map (·.layout)) version = false) :
    tail = [] := by
  have passed := on.skips front back small
  rw [(skipTail_passes _ _).absent (behind_placed small) absent] at passed
  have pos := congrArg Cursor.pos (Except.ok.inj passed)
  refine List.eq_nil_of_length_eq_zero ?_
  simp only [behind] at pos
  omega

/-- A group that is being read: behind some bytes, of which the last may be an owed tail. -/
def reading (order : ByteOrder) (version : ℕ) (g : GroupSpec) (count remaining : ℕ) (pending : Bool)
    (front rest : Bytes) : Group :=
  ⟨behind order version front rest, g.layout, g.blockLength.toNat, count, remaining, pending, true⟩

theorem skipPendingTail_reading (count remaining : ℕ) {pending : Bool} {front owed rest : Bytes}
    (small : (front ++ (owed ++ rest)).length < usizeSize)
    (owes : if pending then Skips order version g.skipTail owed else owed = []) :
    (reading order version g count remaining pending front (owed ++ rest)).skipPendingTail
        g.skipTail =
      .ok (reading order version g count remaining false (front ++ owed) rest) := by
  cases pending with
  | false =>
    rw [if_neg (by decide)] at owes
    subst owes
    rw [List.append_nil]
    rfl
  | true =>
    rw [if_pos rfl] at owes
    have skipped := owes front rest small
    rw [behind_append] at skipped
    simp only [Group.skipPendingTail, reading, skipped, if_true, bind, Except.bind, pure,
      Except.pure]

/-- Has an entry of the group a tail on the wire? -/
abbrev GroupSpec.tailed (g : GroupSpec) (version : ℕ) : Bool :=
  onWire (GroupSpec.layouts g.groups) (g.varData.map (·.layout)) version

theorem nextEntry_reading (count remaining : ℕ) {pending : Bool} {front owed block rest : Bytes}
    (small : (front ++ (owed ++ (block ++ rest))).length < usizeSize)
    (owes : if pending then Skips order version g.skipTail owed else owed = [])
    (size : block.length = g.blockLength.toNat) :
    (reading order version g count (remaining + 1) pending front
        (owed ++ (block ++ rest))).nextEntry g.skipTail =
      .ok (some ⟨block, behind order version (front ++ owed ++ block) rest⟩,
        reading order version g count remaining (g.tailed version) (front ++ owed ++ block) rest) := by
  have skipped := skipPendingTail_reading count (remaining + 1) small owes
  have found : slice (front ++ owed ++ (block ++ rest)) (front ++ owed).length block.length =
      .ok block := slice_behind (by rwa [List.append_assoc])
  have moved := @behind_append order version (front ++ owed) block rest
  rw [size] at found moved
  unfold Group.nextEntry
  rw [skipped]
  simp only [bind, Except.bind]
  have left : (reading order version g count (remaining + 1) false (front ++ owed)
      (block ++ rest)).remaining ≠ 0 := Nat.succ_ne_zero _
  rw [if_neg left]
  dsimp only [reading, behind] at found moved ⊢
  rw [found]
  dsimp only
  rw [moved, Nat.add_sub_cancel]
  cases g
  rfl

/-- **A reader that goes over the entries finds each of them**, and at the end no tail is owed. -/
theorem readEntries_on (h : Strung (EntryOn order version g) entries b) (count : ℕ)
    {turns : ℕ} {pending : Bool} {front owed back : Bytes}
    (small : (front ++ (owed ++ (b ++ back))).length < usizeSize)
    (owes : if pending then Skips order version g.skipTail owed else owed = [])
    (enough : entries.length < turns) :
    (reading order version g count entries.length pending front (owed ++ (b ++ back))).readEntries
        g.skipTail g.readTail turns =
      .ok (entries, reading order version g count 0 false (front ++ owed ++ b) back) := by
  induction h generalizing front owed pending turns with
  | nil =>
    obtain ⟨turns, rfl⟩ : ∃ n, turns = n + 1 := ⟨turns - 1, by omega⟩
    have skipped := skipPendingTail_reading count 0 small owes
    rw [List.append_nil]
    simp only [Group.readEntries, Group.nextEntry, List.length_nil, skipped, bind, Except.bind]
    rfl
  | @cons body bodies b bs first _ ih =>
    obtain ⟨turns, rfl⟩ : ∃ n, turns = n + 1 := ⟨turns - 1, by omega⟩
    obtain ⟨tail, rfl, size, on⟩ := first
    simp only [List.append_assoc] at small ⊢
    have next := nextEntry_reading count bodies.length small owes size
    have placed : (front ++ owed ++ body.block ++ (tail ++ (bs ++ back))).length < usizeSize := by
      simpa only [List.append_assoc] using small
    have read := on.reads (front ++ owed ++ body.block) (bs ++ back) placed
    have owed' : if g.tailed version then Skips order version g.skipTail tail else tail = [] := by
      split
      · exact on.skips
      · rename_i absent
        exact on.eq_nil placed (Bool.eq_false_iff.mpr absent)
    have rest := ih placed owed' (Nat.lt_of_succ_lt_succ enough)
    rw [List.length_cons, Group.readEntries, next]
    simp only [bind, Except.bind, read, rest]
    simp only [List.append_assoc]
    cases body
    rfl

/-! ### A whole group -/

/-- A group's dimension, for `count` entries. -/
def GroupSpec.dimensionBytes (order : ByteOrder) (g : GroupSpec) (count : ℕ) : Bytes :=
  order.bytes g.dimension.blockLength.size g.blockLength.toNat ++
    order.bytes g.dimension.numInGroup.size count

theorem GroupSpec.dimensionBytes_length (order : ByteOrder) (g : GroupSpec) (count : ℕ) :
    (g.dimensionBytes order count).length = g.dimension.size := by
  rw [dimensionBytes, List.length_append, order.bytes_length, order.bytes_length]
  rfl

theorem readGroup_layout (g : GroupSpec) (c : Cursor) :
    Cursor.readGroup g.layout c = (do
      let o ← c.group g.layout
      let (entries, o) ← o.readEntries g.skipTail g.readTail (o.remaining + 1)
      let c ← o.finish g.skipTail
      .ok (entries, c)) := by
  cases g
  rfl

theorem skipGroup_layout (g : GroupSpec) (c : Cursor) :
    Cursor.skipGroup g.layout c = c.group g.layout >>= fun o => o.finish g.skipTail := by
  cases g
  rfl

/-- A dimension is opened. -/
theorem group_reading {count : ℕ} {front rest : Bytes}
    (small : (front ++ (g.dimensionBytes order count ++ rest)).length < usizeSize)
    (current : g.layout.sinceVersion ≤ version)
    (blockFits : g.blockLength.toNat < 256 ^ g.dimension.blockLength.size)
    (countFits : count < 256 ^ g.dimension.numInGroup.size) :
    (behind order version front (g.dimensionBytes order count ++ rest)).group g.layout =
      .ok (reading order version g count count false
        (front ++ g.dimensionBytes order count) rest) := by
  have moved := @behind_append order version front (g.dimensionBytes order count) rest
  have inside := small
  rw [g.dimensionBytes_length] at moved
  rw [List.length_append, List.length_append, g.dimensionBytes_length] at inside
  have size : g.dimension.size = g.dimension.blockLength.size + g.dimension.numInGroup.size := rfl
  have spec : g.layout.dimension = g.dimension := by
    cases g
    rfl
  have first : readLength (front ++ (g.dimensionBytes order count ++ rest)) front.length
      g.dimension.blockLength order = .ok g.blockLength.toNat := by
    rw [GroupSpec.dimensionBytes, List.append_assoc] at small ⊢
    exact readLength_behind blockFits small
  have second : readLength (front ++ (g.dimensionBytes order count ++ rest))
      (front.length + g.dimension.blockLength.size) g.dimension.numInGroup order = .ok count := by
    have placed : front.length + g.dimension.blockLength.size =
        (front ++ order.bytes g.dimension.blockLength.size g.blockLength.toNat).length := by
      rw [List.length_append, order.bytes_length]
    rw [GroupSpec.dimensionBytes, List.append_assoc, ← List.append_assoc front] at small ⊢
    rw [placed]
    exact readLength_behind countFits small
  have there : checkedUsize (front.length + g.dimension.blockLength.size) =
      .ok (front.length + g.dimension.blockLength.size) :=
    checkedUsize_eq_ok_iff.mpr ⟨by omega, rfl⟩
  have past : checkedUsize (front.length + g.dimension.size) =
      .ok (front.length + g.dimension.size) :=
    checkedUsize_eq_ok_iff.mpr ⟨by omega, rfl⟩
  have new : ¬ (behind order version front (g.dimensionBytes order count ++ rest)).version <
      g.layout.sinceVersion := Nat.not_lt_of_le current
  unfold Cursor.group
  rw [spec, if_neg new]
  dsimp only [reading, behind] at moved ⊢
  simp only [bind, Except.bind, first, second, there, past, moved]
  rfl

/-- **A dimension and as many entries as it says are a group.** -/
theorem group_on (current : g.layout.sinceVersion ≤ version)
    (blockFits : g.blockLength.toNat < 256 ^ g.dimension.blockLength.size)
    (countFits : entries.length < 256 ^ g.dimension.numInGroup.size)
    (h : Strung (EntryOn order version g) entries b) :
    GroupOn order version (g, entries) (g.dimensionBytes order entries.length ++ b) := by
  have tails : Tails g.layout.groups g.layout.varData g.skipTail := by
    have passes := skipTail_passes (GroupSpec.layouts g.groups) (g.varData.map (·.layout))
    cases g
    exact passes
  refine ⟨?_, ?_⟩
  · intro front back small
    rw [List.append_assoc] at small ⊢
    have opened := group_reading small current blockFits countFits
    have placed : (front ++ g.dimensionBytes order entries.length ++ ([] ++ (b ++ back))).length <
        usizeSize := by simpa only [List.append_assoc, List.nil_append] using small
    have nothing : if false then Skips order version g.skipTail ([] : Bytes) else ([] : Bytes) = [] :=
      by rw [if_neg (by decide)]
    have read := readEntries_on h entries.length placed nothing (Nat.lt_succ_self _)
    -- nothing is left, so that finishing the group moves nowhere
    have finished : (reading order version g entries.length 0 false
        (front ++ g.dimensionBytes order entries.length ++ [] ++ b) back).finish g.skipTail =
          .ok (behind order version (front ++ g.dimensionBytes order entries.length ++ [] ++ b)
            back) :=
      Group.finish_eq_rest tails
        (behind_placed (by simpa only [List.append_assoc, List.nil_append] using small))
    rw [readGroup_layout, opened]
    simp only [List.nil_append, List.append_nil] at read finished
    simp only [bind, Except.bind]
    dsimp only [reading] at read finished ⊢
    rw [read]
    dsimp only
    rw [finished]
    simp [behind]
  · intro front back small
    rw [List.append_assoc] at small ⊢
    have opened := group_reading small current blockFits countFits
    have placed : (front ++ g.dimensionBytes order entries.length ++ (b ++ back)).length <
        usizeSize := by simpa only [List.append_assoc] using small
    rw [skipGroup_layout, opened]
    refine (Group.finish_eq_rest (g := reading order version g entries.length entries.length false
      (front ++ g.dimensionBytes order entries.length) (b ++ back)) tails
      (behind_placed placed)).trans ?_
    refine (walkEntries_on h (front ++ g.dimensionBytes order entries.length) back placed).trans ?_
    simp [behind, Nat.add_assoc]

end Entries

end Fixbolt.Sbe
