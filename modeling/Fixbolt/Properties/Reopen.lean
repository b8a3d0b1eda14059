import Fixbolt.Engine.FileJournal

/-!
# What a journal's file gives back

A file is a header, a log of records and at most the beginning of one more. Reading it back gives
what the records say.

* `fileFormat`: the records of a file as a log;
* `open_holds`: what opening such a file finds;
* `reopen_same`: a journal that is closed and opened again answers as before;
* `Store.recovers_clean`: no record of a file is lost over any number of crashes, unless one is
  appended behind a torn one.
-/

namespace Fixbolt

namespace Record

variable {e : Record} {format : Format} {bytes rest : Bytes}

/-- Can the length of a record be written? -/
def Fits (e : Record) : Prop := e.payload.length < u32Size

theorem bytes_length (e : Record) : e.bytes.length = recordHeader + e.payload.length := by
  simp only [Record.bytes, List.length_append, toLe_length, recordHeader, Nat.add_assoc]

/-- How many bytes stand behind a payload. -/
def crcLen : Format → ℕ
  | .v0 => 0
  | .v1 => recordCrc

theorem onDisk_length (e : Record) (format : Format) :
    (e.onDisk format).length = recordHeader + e.payload.length + crcLen format := by
  cases format with
  | v0 => exact e.bytes_length
  | v1 => rw [onDisk, List.length_append, bytes_length, toLe_length, crcLen]

/-- What stands behind a record before its checksum. -/
def behind (e : Record) : Format → Bytes
  | .v0 => []
  | .v1 => toLe recordCrc (crc32 e.bytes).toNat

theorem onDisk_eq (e : Record) (format : Format) : e.onDisk format = e.bytes ++ e.behind format := by
  cases format with
  | v0 => exact (List.append_nil _).symm
  | v1 => rfl

/-- The number and the length in front of a record. -/
theorem header_of_prefix (front : bytes <+: e.bytes ++ rest) (long : recordHeader ≤ bytes.length)
    (fits : e.Fits) : UInt32.ofNat (ofLe (bytes.take recordSeq)) = e.seq ∧
      ofLe ((bytes.drop recordSeq).take recordLen) = e.payload.length := by
  have eq : bytes.take recordHeader =
      toLe recordSeq e.seq.toNat ++ toLe recordLen e.payload.length := by
    obtain ⟨more, whole⟩ := front
    have := congrArg (List.take recordHeader) whole
    rw [List.take_append_of_le_length long, Record.bytes, List.append_assoc, List.append_assoc,
      ← List.append_assoc (toLe _ _), List.take_left' (by simp [recordHeader])] at this
    exact this
  have seq : bytes.take recordSeq = toLe recordSeq e.seq.toNat := by
    have := congrArg (List.take recordSeq) eq
    rwa [List.take_take, Nat.min_eq_left (by decide), List.take_left' (toLe_length _ _)] at this
  have len : (bytes.drop recordSeq).take recordLen = toLe recordLen e.payload.length := by
    have := congrArg (List.drop recordSeq) eq
    rwa [List.drop_take, List.drop_left' (toLe_length _ _)] at this
  rw [seq, len]
  exact ⟨by rw [ofLe_toLe e.seq.toNat_lt, UInt32.ofNat_toNat], ofLe_toLe fits⟩

/-- How many bytes a record with this header takes. -/
theorem whole_eq (len : ℕ) : (if format = .v1 then recordHeader + len + recordCrc
    else recordHeader + len) = recordHeader + len + crcLen format := by
  cases format <;> rfl

theorem take_onDisk (fits : e.Fits) : take format (e.onDisk format ++ rest) = .record e rest := by
  have long : recordHeader ≤ (e.onDisk format ++ rest).length := by
    rw [List.length_append, onDisk_length]
    omega
  have split : e.onDisk format ++ rest = e.bytes ++ (e.behind format ++ rest) := by
    rw [onDisk_eq, List.append_assoc]
  obtain ⟨seq, len⟩ := header_of_prefix ⟨[], by rw [List.append_nil, split]⟩ long fits
  have whole : (e.onDisk format).length = recordHeader + e.payload.length + crcLen format :=
    e.onDisk_length format
  have payload : ((e.onDisk format ++ rest).drop recordHeader).take e.payload.length = e.payload := by
    rw [split, Record.bytes, ← List.append_assoc (toLe _ _), List.append_assoc,
      List.drop_left' (by simp [recordHeader]), List.take_left' rfl]
  have sum : ¬ (format = .v1 ∧
      ofLe (((e.onDisk format ++ rest).drop (recordHeader + e.payload.length)).take recordCrc) ≠
        (crc32 ((e.onDisk format ++ rest).take (recordHeader + e.payload.length))).toNat) := by
    rintro ⟨rfl, differs⟩
    refine differs ?_
    rw [split, List.drop_left' e.bytes_length, List.take_left' e.bytes_length, behind,
      List.take_left' (toLe_length _ _), ofLe_toLe (UInt32.toNat_lt _)]
  unfold take
  simp only [seq, len, whole_eq]
  rw [if_neg (Nat.not_lt.mpr long), if_neg (by rw [List.length_append, whole]; omega), if_neg sum,
    payload, List.drop_left' whole]

theorem take_front {front : Bytes} (fits : e.Fits) (isFront : front <+: e.onDisk format)
    (proper : front ≠ e.onDisk format) : take format front = .torn := by
  unfold take
  by_cases short : front.length < recordHeader
  · rw [if_pos short]
  · rw [if_neg short]
    obtain ⟨-, len⟩ := header_of_prefix (e.onDisk_eq format ▸ isFront) (Nat.le_of_not_lt short) fits
    have shorter : front.length < recordHeader + e.payload.length + crcLen format := by
      rw [← e.onDisk_length format]
      exact isFront.length_le.lt_of_ne fun same => proper (isFront.eq_of_length same)
    simp only [len, whole_eq]
    rw [if_pos shorter]

theorem take_sound (h : take format bytes = .record e rest) :
    e.Fits ∧ bytes = e.onDisk format ++ rest := by
  unfold take at h
  dsimp only at h
  split at h
  · cases h
  rename_i long
  rw [whole_eq] at h
  split at h
  · cases h
  rename_i enough
  split at h
  · cases h
  rename_i sum
  have seqLen : (bytes.take recordSeq).length = recordSeq := by
    rw [List.length_take]
    unfold recordHeader at long
    omega
  have lenLen : ((bytes.drop recordSeq).take recordLen).length = recordLen := by
    rw [List.length_take, List.length_drop]
    unfold recordHeader at long
    omega
  have small := ofLe_lt ((bytes.drop recordSeq).take recordLen)
  rw [lenLen] at small
  generalize hlen : ofLe ((bytes.drop recordSeq).take recordLen) = len at h enough sum small
  obtain ⟨rfl, rfl⟩ : e = ⟨.ofNat (ofLe (bytes.take recordSeq)),
      (bytes.drop recordHeader).take len⟩ ∧ rest = bytes.drop (recordHeader + len + crcLen format) := by
    cases h
    exact ⟨rfl, rfl⟩
  have payloadLen : ((bytes.drop recordHeader).take len).length = len := by
    rw [List.length_take, List.length_drop]
    omega
  have body : bytes.take (recordHeader + len) = Record.bytes ⟨.ofNat (ofLe (bytes.take recordSeq)),
      (bytes.drop recordHeader).take len⟩ := by
    have number : (UInt32.ofNat (ofLe (bytes.take recordSeq))).toNat = ofLe (bytes.take recordSeq) := by
      rw [UInt32.toNat_ofNat']
      refine Nat.mod_eq_of_lt ?_
      have := ofLe_lt (bytes.take recordSeq)
      rwa [seqLen] at this
    have first := toLe_ofLe (bytes.take recordSeq)
    have second := toLe_ofLe ((bytes.drop recordSeq).take recordLen)
    rw [seqLen] at first
    rw [lenLen, hlen] at second
    rw [Record.bytes, number, payloadLen, first, second, recordHeader, List.take_add, List.take_add,
      List.append_assoc]
  refine ⟨?_, ?_⟩
  · show ((bytes.drop recordHeader).take len).length < u32Size
    rw [payloadLen]
    exact small
  · rw [onDisk_eq, ← body]
    cases format with
    | v0 => rw [behind, List.append_nil, crcLen, Nat.add_zero, List.take_append_drop]
    | v1 =>
      have ok : ofLe ((bytes.drop (recordHeader + len)).take recordCrc) =
          (crc32 (bytes.take (recordHeader + len))).toNat := by
        by_contra differs
        exact sum ⟨rfl, differs⟩
      have crcLen' : ((bytes.drop (recordHeader + len)).take recordCrc).length = recordCrc := by
        rw [List.length_take, List.length_drop]
        simp only [crcLen] at enough
        omega
      have := toLe_ofLe ((bytes.drop (recordHeader + len)).take recordCrc)
      rw [crcLen', ok] at this
      rw [behind, ← body, this, ← List.take_add]
      exact (List.take_append_drop _ _).symm

end Record

/-- The records of a file, as a log. -/
def fileFormat (format : Format) : RecordFormat UInt8 Record where
  Fits := Record.Fits
  written e := e.onDisk format
  take := Record.take format
  written_ne_nil e := by
    have := e.onDisk_length format
    rintro none
    rw [none, List.length_nil, recordHeader, recordSeq] at this
    omega
  take_written _ _ := Record.take_onDisk
  take_torn _ _ := Record.take_front
  take_sound _ _ _ := Record.take_sound

theorem recoverLoop_eq {n len : ℕ} (format : Format) (fuel : ℕ) (bytes : Bytes)
    (r : Recovered n len) : FileJournal.recoverLoop format fuel bytes r =
      (fileFormat format).replay Recovered.apply fuel bytes r := by
  induction fuel generalizing bytes r with
  | zero => rfl
  | succ fuel ih =>
    have same : (fileFormat format).take bytes = Record.take format bytes := rfl
    rw [FileJournal.recoverLoop, RecordFormat.replay, same]
    cases Record.take format bytes with
    | torn => rfl
    | corrupt => rfl
    | record e rest => exact ih rest _

/-! ### What a file holds -/

/-- What a file starts with. -/
def preamble : Format → Bytes
  | .v0 => []
  | .v1 => headerV1

/-- A file of records, with at most the beginning of one more behind them. -/
structure FileHolds (format : Format) (file : Bytes) (records : List Record) (tail : Bytes) : Prop where
  eq : file = preamble format ++ ((fileFormat format).log records ++ tail)
  fits : ∀ e ∈ records, e.Fits
  torn : (fileFormat format).Torn tail
  /-- The file says which format it is in. -/
  named : format = .v0 → file ≠ [] ∧ file.take headerV1.length ≠ headerV1

theorem torn_nil (format : Format) : (fileFormat format).Torn [] :=
  RecordFormat.torn_nil (r := ⟨0, []⟩) (show 0 < u32Size by decide)

theorem holds_header : FileHolds .v1 headerV1 [] [] :=
  ⟨rfl, by rintro e ⟨⟩, torn_nil _, by rintro ⟨⟩⟩

section

variable {n len : ℕ} {format : Format} {file tail : Bytes} {records : List Record}

theorem FileHolds.ne_nil (h : FileHolds format file records tail) : file ≠ [] := by
  cases format with
  | v0 => exact (h.named rfl).1
  | v1 =>
    rw [h.eq]
    exact List.append_ne_nil_of_left_ne_nil (by decide) _

/-- What opening a file finds. -/
theorem open_holds (h : FileHolds format file records tail) (how : Durability) :
    (FileJournal.open_ file how : FileJournal n len) =
      { mem := (records.foldl Recovered.apply .none).mem
        how := how
        format := format
        file := file
        toWriter := []
        torn := tail.length
        corrupt := 0
        lastActive := (records.foldl Recovered.apply (.none : Recovered n len)).lastActive
        unwritten := 0
        written := [] } := by
  have some_ : file.isEmpty = false := by simpa using h.ne_nil
  have which : (if file.isEmpty ∨ file.take headerV1.length = headerV1 then Format.v1 else .v0) =
      format := by
    cases format with
    | v0 => rw [if_neg (by simpa [some_] using (h.named rfl).2)]
    | v1 =>
      rw [if_pos (.inr (by rw [h.eq, preamble, List.take_left' rfl]))]
  have start : file.drop (if format = .v1 ∧ ¬ file.isEmpty then headerV1.length else 0) =
      (fileFormat format).log records ++ tail := by
    cases format with
    | v0 => rw [if_neg (by rintro ⟨⟨⟩, -⟩), List.drop_zero, h.eq, preamble, List.nil_append]
    | v1 => rw [if_pos ⟨rfl, by simp [some_]⟩, h.eq, preamble, List.drop_left' rfl]
  have loop : FileJournal.recoverLoop format (file.length + 1)
      ((fileFormat format).log records ++ tail) (.none : Recovered n len) =
        (records.foldl Recovered.apply .none, tail, false) := by
    rw [recoverLoop_eq, RecordFormat.replay_written h.fits h.torn]
    have := congrArg List.length h.eq
    rw [List.length_append] at this
    omega
  unfold FileJournal.open_
  simp only [which, start, loop]
  rw [some_]
  rfl

theorem open_nil (how : Durability) : (FileJournal.open_ [] how : FileJournal n len) =
    FileJournal.open_ headerV1 how := by
  rw [open_holds holds_header]
  rfl

/-- A file with nothing torn at its end is one that holds records and nothing else. -/
theorem holds_of_open {how : Durability}
    (whole : (FileJournal.open_ file how : FileJournal n len).torn = 0) :
    ∃ format file' records, FileHolds format file' records [] ∧
      (FileJournal.open_ file how : FileJournal n len) = .open_ file' how := by
  by_cases empty : file = []
  · rw [empty]
    exact ⟨_, _, _, holds_header, open_nil how⟩
  have some_ : file.isEmpty = false := by simpa using empty
  unfold FileJournal.open_ at whole
  dsimp only at whole
  rw [some_] at whole
  generalize which : (if (false : Bool) = true ∨ file.take headerV1.length = headerV1
    then Format.v1 else .v0) = format at whole
  generalize at_ : file.drop (if format = .v1 ∧ ¬ (false : Bool) = true
    then headerV1.length else 0) = bytes at whole
  generalize loop : FileJournal.recoverLoop format (file.length + 1) bytes
    (.none : Recovered n len) = found at whole
  obtain ⟨r, left, damaged⟩ := found
  obtain rfl : left = [] := List.length_eq_zero_iff.mp whole
  rw [recoverLoop_eq] at loop
  obtain ⟨records, fits, rfl, -⟩ := RecordFormat.replay_sound loop
  refine ⟨format, file, records, ⟨?_, fits, torn_nil format, ?_⟩, rfl⟩
  · rw [← at_]
    cases format with
    | v0 => rfl
    | v1 =>
      have header : file.take headerV1.length = headerV1 := by
        by_contra other
        rw [if_neg (by simpa using other)] at which
        cases which
      rw [if_pos ⟨rfl, by decide⟩, preamble]
      conv_lhs => rw [← List.take_append_drop headerV1.length file, header]
  · rintro rfl
    refine ⟨empty, fun header => ?_⟩
    rw [if_pos (.inr header)] at which
    cases which

/-- A file that holds records and nothing else, and what is appended to it. -/
theorem FileHolds.extend {more : List Record} (h : FileHolds format file records [])
    (fits : ∀ e ∈ more, e.Fits) (torn : (fileFormat format).Torn tail) :
    FileHolds format (file ++ ((fileFormat format).log more ++ tail)) (records ++ more) tail := by
  have eq : file = preamble format ++ (fileFormat format).log records := by
    have := h.eq
    rwa [List.append_nil] at this
  refine ⟨?_, fun e mem => ?_, torn, ?_⟩
  · rw [RecordFormat.log_append, eq]
    simp only [List.append_assoc]
  · rcases List.mem_append.mp mem with old | new
    · exact h.fits e old
    · exact fits e new
  · rintro rfl
    obtain ⟨some_, other⟩ := h.named rfl
    -- There is a record, and it is longer than the header of a file.
    have long : headerV1.length ≤ file.length := by
      cases records with
      | nil => exact absurd eq some_
      | cons e records =>
        have whole : ((fileFormat .v0).written e).length = 8 + e.payload.length + 0 :=
          e.onDisk_length .v0
        have := congrArg List.length eq
        rw [RecordFormat.log_cons, preamble, List.nil_append, List.length_append] at this
        show 5 ≤ file.length
        omega
    refine ⟨List.append_ne_nil_of_left_ne_nil some_ _, ?_⟩
    rwa [List.take_append_of_le_length long]

theorem foldl_append (j : FileJournal n len) (es : List Record) : es.foldl FileJournal.append j =
    { j with
      file := j.file ++ (fileFormat j.format).log es
      written := j.written ++ es } := by
  induction es generalizing j with
  | nil => simp
  | cons e es ih =>
    rw [List.foldl_cons, ih]
    simp only [FileJournal.append, RecordFormat.log_cons, List.append_assoc, List.singleton_append]
    rfl

theorem close_eq (j : FileJournal n len) : j.close =
    { j with
      toWriter := []
      file := j.file ++ (fileFormat j.format).log (j.toWriter.map Record.redacted)
      written := j.written ++ j.toWriter.map Record.redacted } :=
  foldl_append _ _

/-! ### A journal, closed and opened again -/

/-- Is what the journal answers what its file will say when the writer is done? -/
structure FileSays (j : FileJournal n len) (records : List Record) : Prop where
  holds : FileHolds j.format j.close.file records []
  tells : records.foldl Recovered.apply .none = (⟨j.mem, j.lastActive⟩ : Recovered n len)
  quiet : j.how = .fsync → j.toWriter = []

theorem FileSays.log {j : FileJournal n len} {m : MemJournal n len} {a : Option ℕ} {e : Record}
    (h : FileSays j records) (fits : e.Fits) (clean : e.redacted = e)
    (says_ : Recovered.apply ⟨j.mem, j.lastActive⟩ e = (⟨m, a⟩ : Recovered n len))
    (roomy : (FileJournal.log { j with mem := m, lastActive := a } e).unwritten = 0) :
    FileSays (FileJournal.log { j with mem := m, lastActive := a } e) (records ++ [e]) := by
  have tells : (records ++ [e]).foldl Recovered.apply .none = (⟨m, a⟩ : Recovered n len) := by
    rw [List.foldl_append, h.tells, List.foldl_cons, says_, List.foldl_nil]
  have holds : FileHolds j.format (j.close.file ++ e.onDisk j.format) (records ++ [e]) [] := by
    have := h.holds.extend (List.forall_mem_singleton.mpr fits) (torn_nil _)
    rwa [RecordFormat.log_singleton, List.append_nil] at this
  unfold FileJournal.log at roomy ⊢
  cases how : j.how with
  | async =>
    simp only [how] at roomy ⊢
    split at roomy
    · rename_i room
      rw [if_pos room]
      refine ⟨?_, tells, by rintro ⟨⟩⟩
      rw [close_eq] at holds ⊢
      simp only [List.map_append, List.map_singleton, clean, RecordFormat.log_append,
        RecordFormat.log_singleton]
      rwa [← List.append_assoc]
    · cases roomy
  | fsync =>
    refine ⟨?_, tells, fun _ => h.quiet how⟩
    rw [close_eq] at holds ⊢
    simp only [h.quiet how, List.map_nil, RecordFormat.log_nil, List.append_nil] at holds
    simp only [FileJournal.append, h.quiet how, List.map_nil, RecordFormat.log_nil, List.append_nil]
    exact holds

/-- A message that is not empty, has not the shape of a mark and carries no secret. -/
def FileJournal.Op.Plain : FileJournal.Op → Prop
  | .put seq bytes => bytes ≠ [] ∧ carriesSecret bytes = false ∧
      ¬ (seq = activityMark ∧ (bytes.length = activityLen ∨ bytes.length = outboundLen))
  | _ => True

theorem log_unwritten {j : FileJournal n len} {m : MemJournal n len} {a : Option ℕ} {e : Record}
    (h : (FileJournal.log { j with mem := m, lastActive := a } e).unwritten = 0) :
    j.unwritten = 0 := by
  unfold FileJournal.log at h
  split at h
  · split at h
    · exact h
    · cases h
  · exact h

theorem Record.outbound_redacted (seq : UInt32) : (Record.outbound seq).redacted = .outbound seq := rfl

theorem Record.activity_redacted (atMs : UInt64) : (Record.activity atMs).redacted = .activity atMs :=
  rfl

theorem Record.inbound_redacted (seq : UInt32) : (Record.inbound seq).redacted = .inbound seq := by
  have none_ : (Record.inbound seq).carriesSecretAt = none := if_neg (by simp [Record.inbound])
  rw [redacted, none_]

theorem Record.message_redacted {seq : UInt32} {bytes : Bytes} (clean : carriesSecret bytes = false) :
    (Record.mk seq bytes).redacted = ⟨seq, bytes⟩ := by
  have none_ : (Record.mk seq bytes).carriesSecretAt = none := if_neg (by simp [clean])
  rw [redacted, none_]

theorem apply_outbound (r : Recovered n len) (seq : UInt32) :
    r.apply (.outbound seq) = ⟨Journal.markOut r.mem seq.toNat, r.lastActive⟩ := by
  unfold Recovered.apply Record.outbound
  rw [if_neg (by simp [activityLen, outboundLen]), if_pos (by simp),
    ofLe_toLe (UInt32.toNat_lt _)]

theorem apply_activity (r : Recovered n len) (atMs : UInt64) :
    r.apply (.activity atMs) = ⟨r.mem, some atMs.toNat⟩ := by
  unfold Recovered.apply Record.activity
  rw [if_pos (by simp), ofLe_toLe (UInt64.toNat_lt _)]

theorem apply_inbound (r : Recovered n len) (seq : UInt32) :
    r.apply (.inbound seq) = ⟨Journal.markIn r.mem seq.toNat, r.lastActive⟩ := by
  unfold Recovered.apply Record.inbound
  rw [if_neg (by simp [activityLen]), if_neg (by simp [outboundLen]), if_pos (by rfl)]

theorem apply_message (r : Recovered n len) {seq : UInt32} {bytes : Bytes}
    (plain : (FileJournal.Op.put seq bytes).Plain) :
    r.apply ⟨seq, bytes⟩ = ⟨(r.mem.put seq.toNat bytes).1, r.lastActive⟩ := by
  obtain ⟨some_, -, shape⟩ := plain
  unfold Recovered.apply
  rw [if_neg fun h => shape ⟨h.1, .inl h.2⟩, if_neg fun h => shape ⟨h.1, .inr h.2⟩,
    if_neg (by simpa [inboundMark] using some_)]

theorem put_fits {m : MemJournal n len} {seq : UInt32} {bytes : Bytes}
    (kept : (m.put seq.toNat bytes).2 = true) : (Record.mk seq bytes).Fits := by
  unfold MemJournal.put at kept
  split at kept
  · cases kept
  · split at kept
    · cases kept
    · show bytes.length < u32Size
      unfold u32Size
      omega

theorem mark_fits {seq : UInt32} {k x : ℕ} (small : k ≤ 8) : (Record.mk seq (toLe k x)).Fits := by
  show (toLe k x).length < u32Size
  rw [toLe_length, u32Size]
  omega

/-- What a step keeps, while the writer's ring takes everything. -/
theorem fileSays_step {j : FileJournal n len} {o : FileJournal.Op} (plain : o.Plain)
    (h : j.unwritten = 0 → ∃ records, FileSays j records) (roomy : (j.step o).unwritten = 0) :
    ∃ records, FileSays (j.step o) records := by
  cases o with
  | put seq bytes =>
    simp only [FileJournal.step, FileJournal.put] at roomy ⊢
    by_cases kept : (j.mem.put seq.toNat bytes).2 = true
    · simp only [kept, if_true] at roomy ⊢
      rw [if_neg (by simp [plain.2.1])] at roomy ⊢
      obtain ⟨records, says_⟩ := h (log_unwritten roomy)
      exact ⟨_, says_.log (put_fits kept) (Record.message_redacted plain.2.1)
        (apply_message _ plain) roomy⟩
    · simp only [kept] at roomy ⊢
      exact h roomy
  | markIn seq =>
    obtain ⟨records, says_⟩ := h (log_unwritten roomy)
    exact ⟨_, says_.log (mark_fits (k := 0) (x := 0) (by decide)) (Record.inbound_redacted seq)
      (apply_inbound _ seq) roomy⟩
  | markOut seq =>
    simp only [FileJournal.step, FileJournal.markOut] at roomy ⊢
    split at roomy
    · rename_i reached
      rw [if_pos reached]
      exact h roomy
    · rename_i further
      rw [if_neg further]
      obtain ⟨records, says_⟩ := h (log_unwritten roomy)
      exact ⟨_, says_.log (mark_fits (by decide)) (Record.outbound_redacted seq)
        (apply_outbound _ seq) roomy⟩
  | markActive atMs =>
    obtain ⟨records, says_⟩ := h (log_unwritten roomy)
    exact ⟨_, says_.log (mark_fits (by decide)) (Record.activity_redacted atMs)
      (apply_activity _ atMs) roomy⟩
  | write =>
    simp only [FileJournal.step, FileJournal.write] at roomy ⊢
    cases waiting : j.toWriter with
    | nil =>
      simp only [waiting] at roomy
      exact h roomy
    | cons e rest =>
      simp only [waiting] at roomy
      obtain ⟨records, says_⟩ := h roomy
      refine ⟨records, ?_, says_.tells, fun how => ?_⟩
      · have holds := says_.holds
        rw [close_eq] at holds ⊢
        simpa [waiting, FileJournal.append, fileFormat] using holds
      · have := says_.quiet how
        rw [waiting] at this
        cases this

theorem fileSays_runs {j : FileJournal n len} {ops : List FileJournal.Op}
    (plain : ∀ o ∈ ops, o.Plain) (h : j.unwritten = 0 → ∃ records, FileSays j records) :
    (j.runs ops).unwritten = 0 → ∃ records, FileSays (j.runs ops) records := by
  induction ops generalizing j with
  | nil => exact h
  | cons o ops ih =>
    obtain ⟨first, others⟩ := List.forall_mem_cons.mp plain
    exact ih others (fileSays_step first h)

/-- **A journal that is closed and opened again answers as before.** Its file had nothing torn at
its end, the writer's ring took every record, and no message was one of the shapes kept for marks. -/
theorem reopen_same {how how' : Durability} {ops : List FileJournal.Op}
    (whole : (FileJournal.open_ file how : FileJournal n len).torn = 0)
    (plain : ∀ o ∈ ops, o.Plain)
    (roomy : ((FileJournal.open_ file how : FileJournal n len).runs ops).unwritten = 0) :
    let closed := ((FileJournal.open_ file how : FileJournal n len).runs ops).close
    let again : FileJournal n len := .open_ closed.file how'
    (∀ seq, again.get seq = closed.get seq) ∧ again.oldest = closed.oldest ∧
      again.highestOut = closed.highestOut ∧ again.highestIn = closed.highestIn ∧
      again.lastActive = closed.lastActive := by
  intro closed again
  obtain ⟨format, file', records, holds, same⟩ := holds_of_open whole
  have opened : FileSays (FileJournal.open_ file how : FileJournal n len) records := by
    rw [same, open_holds holds]
    refine ⟨?_, rfl, fun _ => rfl⟩
    rw [close_eq]
    simpa using holds
  obtain ⟨records', says_⟩ := fileSays_runs plain (fun _ => ⟨records, opened⟩) roomy
  have kept : closed.mem = ((FileJournal.open_ file how : FileJournal n len).runs ops).mem ∧
      closed.lastActive =
        ((FileJournal.open_ file how : FileJournal n len).runs ops).lastActive := by
    simp only [closed, close_eq, and_self]
  have mem : again.mem = closed.mem := by
    rw [kept.1]
    show (FileJournal.open_ closed.file how').mem = _
    rw [open_holds says_.holds, says_.tells]
  have active : again.lastActive = closed.lastActive := by
    rw [kept.2]
    show (FileJournal.open_ closed.file how').lastActive = _
    rw [open_holds says_.holds, says_.tells]
  unfold FileJournal.get FileJournal.oldest FileJournal.highestOut FileJournal.highestIn
  rw [mem, active]
  exact ⟨fun _ => rfl, rfl, rfl, rfl, rfl⟩

/-- The last 4 messages of at most 64 bytes, a message, the three marks and a turn of the writer. -/
theorem reopen_same_marks :
    let ops := [FileJournal.Op.put 1 [0x41], .markIn 3, .write, .markActive 1000, .markOut 2]
    let closed := ((FileJournal.open_ [] .async : FileJournal 4 64).runs ops).close
    let again : FileJournal 4 64 := .open_ closed.file .fsync
    (∀ seq, again.get seq = closed.get seq) ∧ again.oldest = closed.oldest ∧
      again.highestOut = closed.highestOut ∧ again.highestIn = closed.highestIn ∧
      again.lastActive = closed.lastActive := by
  refine reopen_same (by rw [open_nil, open_holds holds_header]; rfl) ?_ (by decide +kernel)
  simp only [List.forall_mem_cons]
  exact ⟨⟨by decide, by decide +kernel, by decide⟩, trivial, trivial, trivial, trivial,
    by rintro o ⟨⟩⟩

/-- A message of no bytes is read back as an inbound mark. -/
theorem reopen_misreads_empty :
    let closed := ((FileJournal.open_ [] .fsync : FileJournal 4 64).runs [.put 5 []]).close
    let again : FileJournal 4 64 := .open_ closed.file .fsync
    carriesSecret [] = false ∧ closed.unwritten = 0 ∧
      closed.highestOut = some 5 ∧ again.highestOut = none ∧
      closed.highestIn = none ∧ again.highestIn = some 5 := by
  decide +kernel

/-! ### A file over crashes -/

/-- Does the operation append a record to the file? -/
def FileJournal.Appends (j : FileJournal n len) : FileJournal.Op → Prop
  | .put seq bytes => j.how = .fsync ∧ (j.mem.put seq.toNat bytes).2 = true
  | .markIn _ => j.how = .fsync
  | .markOut seq => j.how = .fsync ∧ ¬ j.mem.highestOut.any (seq.toNat ≤ ·)
  | .markActive _ => j.how = .fsync
  | .write => j.toWriter ≠ []

/-- What `j'` has appended to the file since `j`. -/
structure Appended (j j' : FileJournal n len) (more : List Record) : Prop where
  file : j'.file = j.file ++ (fileFormat j.format).log more
  written : j'.written = j.written ++ more
  fits : ∀ e ∈ more, e.Fits
  waiting : ∀ e ∈ j'.toWriter, e.Fits
  torn : j'.torn = j.torn
  corrupt : j'.corrupt = j.corrupt
  format : j'.format = j.format

theorem Appended.nothing {j : FileJournal n len} (waiting : ∀ e ∈ j.toWriter, e.Fits) :
    Appended j j [] :=
  ⟨(List.append_nil _).symm, (List.append_nil _).symm, by rintro e ⟨⟩, waiting, rfl, rfl, rfl⟩

theorem log_appended {j : FileJournal n len} {m : MemJournal n len} {a : Option ℕ} {e : Record}
    (waiting : ∀ e ∈ j.toWriter, e.Fits) (fits : e.Fits) :
    Appended j (FileJournal.log { j with mem := m, lastActive := a } e)
      (if j.how = .fsync then [e] else []) := by
  unfold FileJournal.log
  cases how : j.how with
  | fsync =>
    rw [if_pos rfl]
    refine ⟨?_, rfl, List.forall_mem_singleton.mpr fits, waiting, rfl, rfl, rfl⟩
    rw [RecordFormat.log_singleton]
    rfl
  | async =>
    rw [if_neg (show Durability.async ≠ .fsync by decide)]
    dsimp only
    split
    · refine ⟨(List.append_nil _).symm, (List.append_nil _).symm, by rintro e ⟨⟩, ?_, rfl, rfl, rfl⟩
      exact List.forall_mem_append.mpr ⟨waiting, List.forall_mem_singleton.mpr fits⟩
    · exact ⟨(List.append_nil _).symm, (List.append_nil _).symm, by rintro e ⟨⟩, waiting, rfl, rfl,
        rfl⟩

theorem Record.Fits.redacted {e : Record} (h : e.Fits) : e.redacted.Fits := by
  unfold Record.redacted
  split
  · exact mark_fits (by decide)
  · exact h

/-- An operation appends one record, or none. -/
theorem step_appended {j : FileJournal n len} (o : FileJournal.Op)
    (waiting : ∀ e ∈ j.toWriter, e.Fits) :
    (j.Appends o ∧ ∃ e, Appended j (j.step o) [e]) ∨
      (¬ j.Appends o ∧ Appended j (j.step o) []) := by
  have one {m a e} (fits : e.Fits) (p : Prop) (same : p ↔ j.how = .fsync) :
      (p ∧ ∃ e', Appended j (FileJournal.log { j with mem := m, lastActive := a } e) [e']) ∨
        (¬ p ∧ Appended j (FileJournal.log { j with mem := m, lastActive := a } e) []) := by
    have appended : Appended j (FileJournal.log { j with mem := m, lastActive := a } e) _ :=
      log_appended waiting fits
    by_cases how : j.how = .fsync
    · rw [if_pos how] at appended
      exact .inl ⟨same.mpr how, e, appended⟩
    · rw [if_neg how] at appended
      exact .inr ⟨fun h => how (same.mp h), appended⟩
  cases o with
  | put seq bytes =>
    simp only [FileJournal.step, FileJournal.put, FileJournal.Appends]
    by_cases kept : (j.mem.put seq.toNat bytes).2 = true
    · simp only [kept, if_true, and_true]
      refine one ?_ _ Iff.rfl
      split
      · exact mark_fits (by decide)
      · exact put_fits kept
    · simp only [kept]
      exact .inr ⟨by simp, .nothing waiting⟩
  | markIn seq => exact one (mark_fits (k := 0) (x := 0) (by decide)) _ Iff.rfl
  | markOut seq =>
    simp only [FileJournal.step, FileJournal.markOut, FileJournal.Appends]
    split
    · rename_i reached
      exact .inr ⟨fun h => h.2 reached, .nothing waiting⟩
    · rename_i further
      exact one (mark_fits (by decide)) _ (and_iff_left further)
  | markActive atMs => exact one (mark_fits (by decide)) _ Iff.rfl
  | write =>
    simp only [FileJournal.step, FileJournal.write, FileJournal.Appends]
    cases next : j.toWriter with
    | nil => exact .inr ⟨fun h => h rfl, .nothing waiting⟩
    | cons e rest =>
      rw [next] at waiting
      obtain ⟨first, others⟩ := List.forall_mem_cons.mp waiting
      refine .inl ⟨List.cons_ne_nil _ _, e.redacted, ?_, rfl, ?_, others, rfl, rfl, rfl⟩
      · rw [RecordFormat.log_singleton]
        rfl
      · exact List.forall_mem_singleton.mpr first.redacted

theorem close_appended {j : FileJournal n len} (waiting : ∀ e ∈ j.toWriter, e.Fits) :
    Appended j j.close (j.toWriter.map Record.redacted) := by
  rw [close_eq]
  refine ⟨rfl, rfl, List.forall_mem_map.mpr fun e mem => (waiting e mem).redacted, ?_, rfl, rfl, rfl⟩
  rintro e ⟨⟩

namespace Store

/-- What a file holds, whether it is open or not. -/
def Holds : Store n len → Prop
  | .down file complete =>
    (file = [] ∧ complete = []) ∨ ∃ format tail, FileHolds format file complete tail
  | .up j before => (∀ e ∈ j.toWriter, e.Fits) ∧ j.corrupt = 0 ∧
    ∃ tail, tail.length = j.torn ∧ FileHolds j.format j.file (before ++ j.written) tail

/-- No record is appended behind a torn one. -/
def Clean : Store n len → Act → Prop
  | .up j _, .op o => j.torn = 0 ∨ ¬ j.Appends o
  | .up j _, .close => j.torn = 0 ∨ j.toWriter = []
  | .up j _, .crash _ k => j.torn = 0 ∨ k = 0
  | _, _ => True

/-- What a run whose steps are clean comes to. -/
inductive CleanRun (s₀ : Store n len) : Store n len → Prop
  | start : CleanRun s₀ s₀
  | step {s s' : Store n len} {a : Act} (run : CleanRun s₀ s) (clean : s.Clean a)
      (h : s.step a = some s') : CleanRun s₀ s'

/-- Every record that is wholly in the file is read back, and none is taken for a damaged one. -/
def Recovers : Store n len → Prop
  | .down file complete => ∀ how,
    let j : FileJournal n len := .open_ file how
    (⟨j.mem, j.lastActive⟩ : Recovered n len) = complete.foldl Recovered.apply .none ∧ j.corrupt = 0
  | .up j _ => j.corrupt = 0

/-- The beginning of a header reads as the beginning of a record. -/
theorem holds_front {k : ℕ} (short : k < headerV1.length) :
    (down (headerV1.take k) [] : Store n len).Holds := by
  cases k with
  | zero => exact .inl ⟨rfl, rfl⟩
  | succ k =>
    refine .inr ⟨.v0, headerV1.take (k + 1), rfl, by rintro e ⟨⟩, ?_, fun _ => ⟨?_, ?_⟩⟩
    · refine ⟨⟨.ofNat (ofLe (headerV1.take 4)), []⟩, show 0 < u32Size by decide, ?_, ?_⟩
      · have : headerV1.take (k + 1) <+: headerV1.take 4 :=
          List.take_prefix_take_left (by change k + 1 < 5 at short; omega)
        exact this.trans (by decide)
      · refine fun same => absurd (congrArg List.length same) ?_
        change k + 1 < 5 at short
        rw [List.length_take]
        show min (k + 1) 5 ≠ 8
        omega
    · simp [headerV1]
    · refine fun same => absurd (congrArg List.length same) ?_
      rw [List.length_take, List.length_take]
      omega

theorem Holds.appended {j j' : FileJournal n len} {before more : List Record}
    (h : (up j before).Holds) (app : Appended j j' more) (clean : j.torn = 0 ∨ more = []) :
    (up j' before).Holds := by
  obtain ⟨-, sound, tail, torn, holds⟩ := h
  refine ⟨app.waiting, by rw [app.corrupt, sound], tail, by rw [app.torn, torn], ?_⟩
  rw [app.format, app.file, app.written]
  rcases clean with whole | rfl
  · obtain rfl : tail = [] := List.length_eq_zero_iff.mp (torn.trans whole)
    have := holds.extend app.fits (torn_nil _)
    rwa [List.append_nil, List.append_assoc] at this
  · rwa [RecordFormat.log_nil, List.append_nil, List.append_nil]

theorem Holds.leave {j : FileJournal n len} {before : List Record} (h : (up j before).Holds) :
    (down j.file (before ++ j.written) : Store n len).Holds := by
  obtain ⟨-, -, tail, -, holds⟩ := h
  exact .inr ⟨j.format, tail, holds⟩

/-- What is left of a file when the process dies while it appends a record. -/
theorem Holds.crashed {j : FileJournal n len} {before : List Record} {o : FileJournal.Op} {k : ℕ}
    (h : (up j before).Holds) (clean : j.torn = 0 ∨ k = 0)
    (part : k = 0 ∨ j.file.length + k < (j.step o).file.length) :
    (down ((j.step o).file.take (j.file.length + k)) (before ++ j.written) : Store n len).Holds := by
  have old := h.leave
  obtain ⟨waiting, -, tail, torn, holds⟩ := h
  rcases step_appended o waiting with ⟨-, e, app⟩ | ⟨-, app⟩
  · rw [app.file, RecordFormat.log_singleton] at part ⊢
    rw [List.take_length_add_append]
    rcases clean with whole | rfl
    · obtain rfl : tail = [] := List.length_eq_zero_iff.mp (torn.trans whole)
      have short : k < (e.onDisk j.format).length := by
        rcases part with rfl | part
        · rw [e.onDisk_length, recordHeader, recordSeq]
          omega
        · rw [List.length_append] at part
          exact Nat.lt_of_add_lt_add_left part
      have front : (fileFormat j.format).Torn ((e.onDisk j.format).take k) := by
        refine ⟨e, app.fits e (List.mem_singleton_self e), List.take_prefix _ _, fun same => ?_⟩
        have := congrArg List.length same
        rw [List.length_take, Nat.min_eq_left short.le] at this
        exact short.ne this
      have := holds.extend (List.forall_mem_nil _) front
      rw [RecordFormat.log_nil, List.nil_append, List.append_nil] at this
      exact .inr ⟨_, _, this⟩
    · rwa [List.take_zero, List.append_nil]
  · rw [app.file, RecordFormat.log_nil, List.append_nil] at part ⊢
    obtain rfl : k = 0 := by omega
    rwa [Nat.add_zero, List.take_length]

/-- What a clean step keeps. -/
theorem holds_step {s s' : Store n len} {a : Act} (h : s.Holds) (clean : s.Clean a)
    (took : s.step a = some s') : s'.Holds := by
  cases s with
  | down file complete =>
    cases a with
    | open_ how =>
      cases took
      rcases h with ⟨rfl, rfl⟩ | ⟨format, tail, holds⟩
      · rw [open_nil, open_holds holds_header]
        exact ⟨by rintro e ⟨⟩, rfl, [], rfl, holds_header⟩
      · rw [open_holds holds]
        refine ⟨by rintro e ⟨⟩, rfl, tail, rfl, ?_⟩
        rwa [List.append_nil]
    | crashOpening k =>
      simp only [step] at took
      split at took
      · rename_i fresh
        cases took
        obtain ⟨empty, short⟩ := fresh
        have nothing : complete = [] := by
          rcases h with ⟨-, rfl⟩ | ⟨format, tail, holds⟩
          · rfl
          · exact absurd (List.isEmpty_iff.mp empty) holds.ne_nil
        rw [nothing]
        exact holds_front short
      · cases took
    | op o => cases took
    | close => cases took
    | crash o k => cases took
  | up j before =>
    cases a with
    | open_ how => cases took
    | crashOpening k => cases took
    | op o =>
      cases took
      rcases step_appended o h.1 with ⟨appends, e, app⟩ | ⟨-, app⟩
      · exact h.appended app (.inl (clean.resolve_right (not_not_intro appends)))
      · exact h.appended app (.inr rfl)
    | close =>
      cases took
      have closed : (up j.close before).Holds := h.appended (close_appended h.1)
        (clean.imp_right fun empty => by rw [empty, List.map_nil])
      exact closed.leave
    | crash o k =>
      simp only [step] at took
      split at took
      · rename_i part
        cases took
        exact h.crashed clean part
      · cases took

theorem Holds.recovers {s : Store n len} (h : s.Holds) : s.Recovers := by
  cases s with
  | up j before => exact h.2.1
  | down file complete =>
    intro how
    rcases h with ⟨rfl, rfl⟩ | ⟨format, tail, holds⟩
    · rw [open_nil, open_holds holds_header]
      exact ⟨rfl, rfl⟩
    · rw [open_holds holds]
      exact ⟨rfl, rfl⟩

/-- **No record is lost over any number of crashes**, while none is appended behind a torn one. -/
theorem recovers_clean {file : Bytes} {complete : List Record} {s : Store n len}
    (holds : (down file complete : Store n len).Holds) (run : CleanRun (.down file complete) s) :
    s.Recovers := by
  have : s.Holds := by
    induction run with
    | start => exact holds
    | step run clean h ih => exact holds_step ih clean h
  exact this.recovers

/-- A message is written, and the process dies three bytes into the next record. -/
theorem recovers_clean_torn :
    (down (headerV1 ++ Record.onDisk .v1 ⟨1, [0x41]⟩ ++ [2, 0, 0]) [⟨1, [0x41]⟩] :
      Store 4 64).Recovers := by
  refine recovers_clean (.inl ⟨rfl, rfl⟩) ?_
  have opened : CleanRun (down [] [] : Store 4 64) (.up (.open_ [] .fsync) []) :=
    .step (a := .open_ .fsync) .start trivial rfl
  have put : CleanRun (down [] [] : Store 4 64)
      (.up (FileJournal.step (.open_ [] .fsync) (.put 1 [0x41])) []) :=
    .step (a := .op (.put 1 [0x41])) opened (.inl (by decide +kernel)) rfl
  refine .step (a := .crash (.markIn 2) 3) put (.inl (by decide +kernel)) ?_
  rw [Store.step, if_pos (by decide +kernel)]
  exact congrArg (fun file => some (down file _)) (by decide +kernel)

/-- A message appended behind a torn record is not read back. -/
theorem recovers_not_behind_torn :
    ∃ file, (down [] [] : Store 4 64).runs [.open_ .fsync, .crash (.markIn 1) 3, .open_ .fsync,
        .op (.put 1 [0x41]), .close] = some (.down file [⟨1, [0x41]⟩]) ∧
      ((FileJournal.open_ file .fsync : FileJournal 4 64).get 1,
        (FileJournal.open_ file .fsync : FileJournal 4 64).highestOut) = (none, none) ∧
      ¬ (down file [⟨1, [0x41]⟩] : Store 4 64).Recovers := by
  refine ⟨_, rfl, by decide +kernel, fun recovers => ?_⟩
  have read := congrArg (fun r => r.mem.get 1) (recovers .fsync).1
  revert read
  decide +kernel

end Store

end

end Fixbolt
