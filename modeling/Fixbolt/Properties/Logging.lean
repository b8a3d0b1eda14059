import Fixbolt.Engine.MessageLog
import Fixbolt.Properties.Timestamps
import Mathlib.Data.List.ReduceOption

/-!
# What the message log says of what it was given

* `unescape_escapeInto`: every byte string is read back from its escape, which is one line;
* `line_oneLine`: a record's line is one line, when its year has a digit's thousands and it does not
  open a connection with a line break in its peer's address;
* `Sound`: what was handed over is written, waiting or counted;
* `log_accounts`: so it is along every run in which no write fails with records still waiting, and
  nothing is handed to a ring that nobody empties.
-/

namespace Fixbolt

/-! ### Escaping -/

/-- The escape of one byte. -/
def escapeOf (b : UInt8) : Bytes :=
  if b = BACKSLASH then [BACKSLASH, BACKSLASH]
  else if b = LF then [BACKSLASH, 0x6E]
  else if b = CR then [BACKSLASH, 0x72]
  else [b]

theorem escapeInto_eq (bytes out : Bytes) : escapeInto bytes out = out ++ bytes.flatMap escapeOf := by
  induction bytes generalizing out with
  | nil => simp [escapeInto]
  | cons b rest ih =>
    have next : escapeInto (b :: rest) out = escapeInto rest (out ++ escapeOf b) := by
      unfold escapeOf escapeInto
      rw [List.foldl_cons]
      split_ifs <;> rfl
    rw [next, ih, List.flatMap_cons, List.append_assoc]

/-- The escape of one byte is read back in front of anything. -/
theorem unescape_escapeOf (b : UInt8) (rest : Bytes) :
    unescape (escapeOf b ++ rest) = b :: unescape rest := by
  by_cases backslash : b = BACKSLASH
  · subst backslash
    rfl
  by_cases lf : b = LF
  · subst lf
    rfl
  by_cases cr : b = CR
  · subst cr
    rfl
  rw [escapeOf, if_neg backslash, if_neg lf, if_neg cr]
  cases rest with
  | nil => rfl
  | cons c rest =>
    show unescape (b :: c :: rest) = _
    rw [unescape, if_neg backslash]

theorem unescape_escapeInto (bytes : Bytes) : unescape (escapeInto bytes []) = bytes := by
  rw [escapeInto_eq, List.nil_append]
  induction bytes with
  | nil => rfl
  | cons b rest ih => rw [List.flatMap_cons, unescape_escapeOf, ih]

theorem mem_escapeOf {b c : UInt8} (mem : c ∈ escapeOf b) : c ≠ LF ∧ c ≠ CR := by
  unfold escapeOf at mem
  split_ifs at mem with backslash lf cr
  · rw [List.mem_pair, or_self] at mem
    subst mem
    decide
  · rcases List.mem_pair.mp mem with rfl | rfl <;> decide
  · rcases List.mem_pair.mp mem with rfl | rfl <;> decide
  · rw [List.mem_singleton] at mem
    subst mem
    exact ⟨lf, cr⟩

theorem mem_escape {bytes : Bytes} {c : UInt8} (mem : c ∈ escapeInto bytes []) : c ≠ LF ∧ c ≠ CR := by
  rw [escapeInto_eq, List.nil_append] at mem
  obtain ⟨b, -, of_b⟩ := List.mem_flatMap.mp mem
  exact mem_escapeOf of_b

/-! ### What is in a line -/

/-- Only a line break makes one, when a text is made of any bytes. -/
theorem mem_fromUtf8Lossy {fuel : ℕ} {bytes : Bytes} (mem : LF ∈ fromUtf8Lossy fuel bytes) :
    LF ∈ bytes := by
  have standIn : LF ∉ replacement := by decide
  induction fuel generalizing bytes with
  | zero => simp [fromUtf8Lossy] at mem
  | succ fuel ih =>
    cases bytes with
    | nil => simp [fromUtf8Lossy] at mem
    | cons b rest =>
      rw [fromUtf8Lossy] at mem
      split at mem
      · rcases List.mem_append.mp mem with inside | later
        · exact absurd inside standIn
        · exact List.mem_cons_of_mem _ (ih later)
      · rcases List.mem_cons.mp mem with here | later
        · exact here ▸ List.mem_cons_self
        · exact List.mem_cons_of_mem _ (ih later)
      · rcases List.mem_append.mp mem with inside | later
        · split at inside
          · rcases List.mem_cons.mp inside with here | taken
            · exact here ▸ List.mem_cons_self
            · exact List.mem_cons_of_mem _ (List.mem_of_mem_take taken)
          · exact absurd inside standIn
        · exact List.mem_cons_of_mem _ (List.mem_of_mem_drop (ih later))

theorem digitByte_ne_LF {d : ℕ} (small : d < 10) : digitByte d ≠ LF := by
  interval_cases d <;> decide

theorem LF_notMem_digitLoop (slots n : ℕ) {acc : Bytes} (h : LF ∉ acc) : LF ∉ digitLoop slots n acc := by
  induction slots generalizing n acc with
  | zero => exact h
  | succ slots ih =>
    have more : LF ∉ digitByte (n % 10) :: acc := by
      rw [List.mem_cons, not_or]
      exact ⟨(digitByte_ne_LF (Nat.mod_lt n (by decide))).symm, h⟩
    rw [digitLoop]
    split
    · exact more
    · exact ih _ more

theorem asciiDigit_ne_LF {d : ℕ} (small : d < 10) : asciiDigit d ≠ LF := digitByte_ne_LF small

theorem LF_notMem_write2 {v : ℕ} (small : v < 100) : LF ∉ write2 v := by
  have tens := asciiDigit_ne_LF (d := v / 10) (by omega)
  have ones := asciiDigit_ne_LF (d := v % 10) (by omega)
  simp [write2, tens.symm, ones.symm]

theorem LF_notMem_fractionDigits (width v : ℕ) : LF ∉ fractionDigits width v := by
  induction width generalizing v with
  | zero => simp [fractionDigits]
  | succ width ih =>
    have last := asciiDigit_ne_LF (d := v % 10) (by omega)
    simp [fractionDigits, ih, last.symm]

/-- The thousands of a year are one byte, a line break for some years far off. -/
theorem asciiDigit_eq_LF (d : ℕ) : asciiDigit d = LF ↔ d % 256 = 218 := by
  have shift : asciiDigit d = LF ↔ d.toUInt8 = 218 := by
    unfold asciiDigit ZERO LF
    constructor
    · intro h
      have := congrArg (· - 48) h
      simpa using this
    · intro h
      rw [h]
      rfl
  rw [shift, ← UInt8.toNat_inj]
  exact Iff.rfl

/-- The year a stamp shows. -/
def stampYear (millis : ℕ) : ℕ := (civilFromDays (millis / 1000 / 60 / 1440)).1

theorem LF_mem_stamp (p : Precision) (millis sub : ℕ) :
    LF ∈ formatTimestamp p millis sub ↔ stampYear millis / 1000 % 256 = 218 := by
  obtain ⟨d, hd⟩ : ∃ d, d = Date.ofOrdinal (daysYearZeroToEpoch + millis / 1000 / 60 / 1440) :=
    ⟨_, rfl⟩
  have date := civilFromDays_eq (millis / 1000 / 60 / 1440)
  rw [← hd] at date
  have month := LF_notMem_write2 (v := d.month) (by have := d.month_le; omega)
  have day := LF_notMem_write2 (v := d.day) (by
    have := d.day_le.trans (monthLength_le _ _)
    omega)
  have hour := LF_notMem_write2 (v := millis / 1000 / 60 % 1440 / 60) (by omega)
  have minute := LF_notMem_write2 (v := millis / 1000 / 60 % 1440 % 60) (by omega)
  have second := LF_notMem_write2 (v := millis / 1000 % 60) (by omega)
  have fraction := LF_notMem_fractionDigits p.fractionalDigits (fractionAt p (millis % 1000) sub)
  have year : LF ∈ write4 d.year ↔ d.year / 1000 % 256 = 218 := by
    have hundreds := asciiDigit_ne_LF (d := d.year / 100 % 10) (by omega)
    have tens := asciiDigit_ne_LF (d := d.year / 10 % 10) (by omega)
    have ones := asciiDigit_ne_LF (d := d.year % 10) (by omega)
    simp only [write4, List.mem_cons, List.not_mem_nil, or_false, hundreds.symm, tens.symm, ones.symm]
    rw [eq_comm, asciiDigit_eq_LF]
  have marks : LF ≠ 0x2D ∧ LF ≠ 0x3A ∧ LF ≠ 0x2E := by decide
  simp only [formatTimestamp, date, stampYear, List.mem_append, List.mem_singleton, month, day, hour,
    minute, second, fraction, year, marks, or_false]

/-- A text of one line, with the break that ends it. -/
def OneLine (line : Bytes) : Prop := ∃ text, line = text ++ [LF] ∧ LF ∉ text

/-- A beginning of a line that leaves the break out breaks no line. -/
theorem OneLine.take {line : Bytes} (one : OneLine line) (k : ℕ) :
    LF ∉ line.take (min k (line.length - 1)) := by
  obtain ⟨text, rfl, clean⟩ := one
  intro mem
  have inside : (text ++ [LF]).take (min k ((text ++ [LF]).length - 1)) = text.take k := by
    simp [List.take_append]
  rw [inside] at mem
  exact clean (List.mem_of_mem_take mem)

namespace FileLog

theorem LF_notMem_pushNum (n : ℕ) : LF ∉ pushNum n := LF_notMem_digitLoop 20 n (by simp)

/-- Does the record's line break nowhere but at its end? -/
def Unbroken (r : LogRecord) : Prop :=
  stampYear (unixMillis r.atMs) / 1000 % 256 ≠ 218 ∧
    (r.dir = .open_ → LF ∉ r.bytes)

namespace Pen

/-- Does the writer remember no peer with a line break? -/
def Clean (pen : Pen) : Prop := ∀ key peer, pen.peers key = some peer → LF ∉ peer

theorem clean_new : new.Clean := by simp [new, Clean]

variable {pen : Pen} {r : LogRecord}

theorem stamp_clean (pen : Pen) (unbroken : Unbroken r) :
    LF ∉ (pen.clock.format (unixMillis r.atMs) 0).2 := by
  have u64 : unixMillis r.atMs < 2 ^ 64 := Nat.lt_of_le_of_lt (Nat.sub_le _ _) r.atMs.toNat_lt
  rw [TimestampCache.format_eq _ u64, LF_mem_stamp]
  exact unbroken.1

/-- A connection that opens is one line, and its peer is remembered as one. -/
theorem Clean.opening (clean : pen.Clean) (unbroken : Unbroken r) (opens : r.dir = .open_) :
    (pen.line r).1.Clean ∧ OneLine (pen.line r).2 := by
  have peer : LF ∉ fromUtf8Lossy r.bytes.length r.bytes :=
    fun mem => unbroken.2 opens (mem_fromUtf8Lossy mem)
  have stamp := pen.stamp_clean unbroken
  have shard := LF_notMem_pushNum r.shard.toNat
  have conn := LF_notMem_pushNum r.conn.toNat
  have words : LF ∉ ascii "# conn=" ∧ LF ∉ ascii " shard=" ∧ LF ∉ ascii " peer=" ∧
      LF ∉ ascii " opened at " := by decide
  simp only [Pen.line, opens, if_true]
  generalize fromUtf8Lossy r.bytes.length r.bytes = text at peer
  refine ⟨fun key text' known => ?_, _, rfl, ?_⟩
  · dsimp only at known
    by_cases here : key = (r.shard, r.conn)
    · rw [here, Function.update_self, Option.some_inj] at known
      exact known ▸ peer
    · rw [Function.update_of_ne here] at known
      exact clean key text' known
  · simp only [List.mem_append, words, conn, shard, peer, stamp, or_self, not_false_iff]

theorem line_peers (pen : Pen) (passes : r.dir ≠ .open_) : (pen.line r).1.peers = pen.peers := by
  simp only [Pen.line, passes, if_false]

/-- A message is one line. -/
theorem Clean.message (clean : pen.Clean) (unbroken : Unbroken r) (passes : r.dir ≠ .open_) :
    OneLine (pen.line r).2 := by
  have stamp := pen.stamp_clean unbroken
  have shard := LF_notMem_pushNum r.shard.toNat
  have conn := LF_notMem_pushNum r.conn.toNat
  have label : LF ∉ r.dir.label := by cases r.dir <;> decide
  have words : LF ∉ ascii " " ∧ LF ∉ ascii " shard=" ∧ LF ∉ ascii " conn=" ∧
      LF ∉ ascii "peer=" := by decide
  have payload : LF ∉ (mask r.bytes).1.flatMap escapeOf := by
    intro mem
    rw [← List.nil_append (List.flatMap _ _), ← escapeInto_eq] at mem
    exact (mem_escape mem).1 rfl
  simp only [Pen.line, passes, if_false, escapeInto_eq]
  refine ⟨_, rfl, ?_⟩
  cases known : pen.peers (r.shard, r.conn) with
  | none => simp only [List.mem_append, words, label, conn, shard, payload, stamp, or_self,
      not_false_iff]
  | some peer => simp only [List.mem_append, words, label, conn, shard, payload, stamp,
      clean _ _ known, or_self, not_false_iff]

theorem Clean.line (clean : pen.Clean) (unbroken : Unbroken r) :
    (pen.line r).1.Clean ∧ OneLine (pen.line r).2 := by
  by_cases opens : r.dir = .open_
  · exact clean.opening unbroken opens
  · refine ⟨fun key peer known => ?_, clean.message unbroken opens⟩
    rw [pen.line_peers opens] at known
    exact clean key peer known

theorem lines_concat (pen : Pen) (rs : List LogRecord) (r : LogRecord) :
    pen.lines (rs ++ [r]) = pen.lines rs ++ [((pen.after rs).line r).2] := by
  induction rs generalizing pen with
  | nil => rfl
  | cons first rs ih =>
    show _ :: (pen.line first).1.lines (rs ++ [r]) = _
    rw [ih]
    rfl

theorem after_concat (pen : Pen) (rs : List LogRecord) (r : LogRecord) :
    pen.after (rs ++ [r]) = ((pen.after rs).line r).1 := by
  rw [after, List.foldl_append]
  rfl

end Pen

/-! ### Records through the ring -/

theorem encode_length (r : LogRecord) : (encode r).length = REC_HEADER + r.bytes.length := by
  simp [encode, REC_HEADER]
  omega

theorem encode_ne_STOP (r : LogRecord) : encode r ≠ [STOP] := by
  intro h
  have length := congrArg List.length h
  rw [encode_length] at length
  exact absurd length (by simp [REC_HEADER]; omega)

theorem fromTag_tag (dir : Direction) : Direction.fromTag dir.tag = some dir := by
  cases dir <;> rfl

/-- A record that was pushed is read back. -/
theorem decode_encode (r : LogRecord) : decode (encode r) = some r := by
  obtain ⟨dir, atMs, shard, conn, bytes⟩ := r
  have long : ¬ (encode ⟨dir, atMs, shard, conn, bytes⟩).length < REC_HEADER := by
    rw [encode_length]
    omega
  have instant := ofLe_toLe (k := 8) (n := atMs.toNat) atMs.toNat_lt
  have shards := ofLe_toLe (k := 2) (n := shard.toNat) shard.toNat_lt
  have conns := ofLe_toLe (k := 8) (n := conn.toNat) conn.toNat_lt
  have length := toLe_length 8 atMs.toNat
  have length' := toLe_length 2 shard.toNat
  have length'' := toLe_length 8 conn.toNat
  rw [decode, if_neg long, encode]
  generalize toLe 8 atMs.toNat = a at *
  generalize toLe 2 shard.toNat = b at *
  generalize toLe 8 conn.toNat = c at *
  have from9 : (a ++ (b ++ (c ++ bytes))).drop 8 = b ++ (c ++ bytes) := List.drop_left' length
  have from11 : (a ++ (b ++ (c ++ bytes))).drop 10 = c ++ bytes := by
    rw [← List.append_assoc]
    exact List.drop_left' (by simp [length, length'])
  have from19 : (a ++ (b ++ (c ++ bytes))).drop 18 = bytes := by
    rw [← List.append_assoc, ← List.append_assoc]
    exact List.drop_left' (by simp [length, length', length''])
  simp only [List.append_assoc, List.headD_cons, fromTag_tag, Option.map_some, REC_HEADER,
    List.drop_succ_cons, List.drop_zero, from9, from11, from19, List.take_left' length,
    List.take_left' length', List.take_left' length'', instant, shards, conns]
  simp

/-! ### What was handed over -/

/-- What the engine still has to count. -/
def LoggerPc.owes : LoggerPc → ℕ
  | .counting => 1
  | _ => 0

/-- Has `close` pushed its stop? -/
def LoggerPc.stops : LoggerPc → Prop
  | .joining | .closed => True
  | _ => False

/-- The record the writer has in hand, none for one that was longer than its buffer. -/
def ScribePc.inHand : ScribePc → List (Option LogRecord)
  | .handling _ popped => if popped = [STOP] then [] else [decode popped]
  | _ => []

/-- What the writer remembers. -/
def ScribePc.pen? : ScribePc → Option Pen
  | .looping pen | .handling pen _ => some pen
  | .stopped => none

/-- Has the writer stopped, or read that it has to? -/
def ScribePc.ends : ScribePc → Prop
  | .looping _ => False
  | .handling _ popped => popped = [STOP]
  | .stopped => True

/-- Has everything that was handed over become a line, or been counted, when the writer has stopped? -/
def Accounted (l : FileLog) : Prop :=
  ∃ written torn, written.Sublist l.handed ∧ l.file = (Pen.new.lines written).flatten ++ torn ∧
    (∀ line ∈ Pen.new.lines written, OneLine line) ∧ LF ∉ torn ∧
    (l.writer = .stopped → l.engine ≠ .counting → written.length + l.lost = l.handed.length)

/-- What was handed over is written, in the writer's hands, waiting in the ring, or counted. -/
structure Sound (l : FileLog) (written waiting : List LogRecord) (torn : Bytes) (stops : ℕ) : Prop where
  queued : l.ring.pending = waiting.map encode ++ List.replicate stops [STOP]
  order : (written ++ l.writer.inHand.reduceOption ++ waiting).Sublist l.handed
  count : written.length + l.writer.inHand.length + waiting.length + l.lost + l.engine.owes =
    l.handed.length
  file : l.file = (Pen.new.lines written).flatten ++ torn
  lines : ∀ line ∈ Pen.new.lines written, OneLine line
  clean : (Pen.new.after written).Clean
  tail : LF ∉ torn
  pen : ∀ pen, l.writer.pen? = some pen → pen = Pen.new.after written ∧ torn = []
  stopping : 0 < stops → l.engine.stops
  ended : l.writer.ends → waiting = []
  told : l.writer.ends → l.writer ≠ .stopped → l.engine.stops

variable {l l' : FileLog} {written waiting : List LogRecord} {torn : Bytes} {stops : ℕ}
  {error : Option ℕ}

theorem sound_opened (capacity : ℕ) : (opened capacity).Sound [] [] [] 0 where
  queued := rfl
  order := List.Sublist.refl _
  count := rfl
  file := rfl
  lines := by simp [Pen.lines]
  clean := Pen.clean_new
  tail := by simp
  pen := by rintro _ ⟨⟩; exact ⟨rfl, rfl⟩
  stopping := by simp
  ended := fun h => h.elim
  told := fun h => h.elim

/-- When the writer has stopped and the engine has counted, nothing is left between them. -/
theorem Sound.accounted (h : l.Sound written waiting torn stops) : l.Accounted := by
  refine ⟨written, torn, ?_, h.file, h.lines, h.tail, fun stopped counted => ?_⟩
  · exact (List.sublist_append_left _ _).trans ((List.sublist_append_left _ _).trans h.order)
  · have none_waits : waiting = [] := h.ended (by rw [stopped]; trivial)
    have owes : l.engine.owes = 0 := by
      cases e : l.engine <;> first | rfl | exact absurd e counted
    have count := h.count
    rw [none_waits, stopped, owes] at count
    simpa [ScribePc.inHand] using count

/-- Does no write fail with records still waiting, and is nothing handed to a ring that nobody
empties any more? -/
def Met (l : FileLog) : Act → Prop
  | .record r => l.engine ≠ .closed ∧ (l.writer = .stopped → l.room (encode r) = false)
  | .writer error => ∀ r, l.writer.inHand = [some r] →
      Unbroken r ∧ (error ≠ none → ∀ b ∈ l.ring.pending, b = [STOP])
  | _ => True

theorem Sound.record {r : LogRecord} (h : l.Sound written waiting torn stops)
    (met : l.Met (.record r)) (took : l.step (.record r) = some l') :
    ∃ waiting, l'.Sound written waiting torn stops := by
  have between : l.engine = .between := by
    cases e : l.engine with
    | between => rfl
    | closed => exact absurd e met.1
    | counting | stopping | joining => simp [step, e] at took
  have running : ¬ l.engine.stops := by
    rw [between]
    exact id
  have none_stops : stops = 0 := Nat.eq_zero_of_not_pos fun pos => running (h.stopping pos)
  have longer : (l.handed ++ [r]).length = l.handed.length + 1 := List.length_append
  have count := h.count
  simp only [step, between] at took
  split at took
  · rename_i room
    cases took
    -- A writer that ends would have been told to by the engine, or have left no room.
    have going : ¬ l.writer.ends := by
      intro ends
      by_cases stopped : l.writer = .stopped
      · rw [met.2 stopped] at room
        exact absurd room (by decide)
      · exact running (h.told ends stopped)
    refine ⟨waiting ++ [r], ?_, ?_, ?_, h.file, h.lines, h.clean, h.tail, h.pen,
      fun pos => absurd (h.stopping pos) running, fun ends => absurd ends going,
      fun ends => absurd ends going⟩
    · rw [Fifo.pending_push, h.queued, none_stops]
      simp
    · rw [← List.append_assoc]
      exact h.order.append (List.Sublist.refl _)
    · rw [between] at count
      rw [longer, List.length_append, List.length_singleton]
      dsimp only
      omega
  · cases took
    refine ⟨waiting, h.queued, h.order.trans (List.sublist_append_left _ _), ?_, h.file, h.lines,
      h.clean, h.tail, h.pen, fun pos => absurd (h.stopping pos) running, h.ended,
      fun ends going => absurd (h.told ends going) running⟩
    rw [between] at count
    rw [longer]
    exact congrArg (· + 1) count

theorem Sound.close (h : l.Sound written waiting torn stops) (took : l.step .close = some l') :
    l'.Sound written waiting torn stops := by
  cases e : l.engine with
  | between =>
    simp only [step, e, Option.some_inj] at took
    have running : ¬ l.engine.stops := by
      rw [e]
      exact id
    have count := h.count
    rw [e] at count
    subst took
    exact ⟨h.queued, h.order, count, h.file, h.lines, h.clean, h.tail, h.pen,
      fun pos => absurd (h.stopping pos) running, h.ended,
      fun ends going => absurd (h.told ends going) running⟩
  | closed =>
    simp only [step, e, Option.some_inj] at took
    exact took ▸ h
  | counting | stopping | joining => simp [step, e] at took

theorem Sound.engine (h : l.Sound written waiting torn stops) (took : l.step .engine = some l') :
    ∃ stops, l'.Sound written waiting torn stops := by
  have count := h.count
  have took : l.engineStep = some l' := took
  cases e : l.engine with
  | counting =>
    simp only [engineStep, e, Option.some_inj] at took
    have running : ¬ l.engine.stops := by
      rw [e]
      exact id
    rw [e] at count
    subst took
    exact ⟨stops, h.queued, h.order, by simpa [LoggerPc.owes, Nat.add_assoc] using count, h.file,
      h.lines, h.clean, h.tail, h.pen, fun pos => absurd (h.stopping pos) running, h.ended,
      fun ends going => absurd (h.told ends going) running⟩
  | stopping =>
    simp only [engineStep, e] at took
    split at took
    · rw [e] at count
      cases took
      refine ⟨stops + 1, ?_, h.order, count, h.file, h.lines, h.clean, h.tail, h.pen,
        fun _ => trivial, h.ended, fun _ _ => trivial⟩
      rw [Fifo.pending_push, h.queued, List.append_assoc, List.replicate_succ']
    · cases took
      exact ⟨stops, h⟩
  | joining =>
    simp only [engineStep, e] at took
    split at took
    · rw [e] at count
      cases took
      exact ⟨stops, h.queued, h.order, count, h.file, h.lines, h.clean, h.tail, h.pen,
        fun _ => trivial, h.ended, fun _ _ => trivial⟩
    · cases took
  | between | closed => simp [engineStep, e] at took

/-- What the writer pops is the first record that waits, or a stop behind them all. -/
theorem Sound.popped (h : l.Sound written waiting torn stops) {bytes : Bytes} {ring : Fifo Bytes}
    (pop : l.ring.pop? = some (bytes, ring)) :
    (∃ r rest, waiting = r :: rest ∧ bytes = encode r ∧
        ring.pending = rest.map encode ++ List.replicate stops [STOP]) ∨
      (∃ k, waiting = [] ∧ stops = k + 1 ∧ bytes = [STOP] ∧ ring.pending = List.replicate k [STOP]) := by
  obtain ⟨-, -, pending⟩ := Fifo.pop?_some pop
  rw [h.queued] at pending
  cases waiting with
  | cons r rest =>
    obtain ⟨rfl, behind⟩ := List.cons.inj pending
    exact .inl ⟨r, rest, rfl, rfl, behind.symm⟩
  | nil =>
    cases stops with
    | zero => cases pending
    | succ k =>
      obtain ⟨rfl, behind⟩ := List.cons.inj pending
      exact .inr ⟨k, rfl, rfl, rfl, behind.symm⟩

theorem Sound.looped (h : l.Sound written waiting torn stops) {pen : Pen}
    (looping : l.writer = .looping pen) (took : l.writerStep error = some l') :
    ∃ waiting stops, l'.Sound written waiting torn stops := by
  have order := h.order
  have count := h.count
  obtain ⟨remembers, whole⟩ := h.pen pen (by rw [looping]; rfl)
  simp only [writerStep, looping] at took
  split at took
  · rename_i bytes ring pop
    cases took
    rw [looping] at order count
    rcases h.popped pop with ⟨r, rest, rfl, rfl, behind⟩ | ⟨k, rfl, rfl, rfl, behind⟩
    · have short : ∀ popped, popped = (if (encode r).length ≤ WRITER_BUF then encode r else []) →
          popped ≠ [STOP] ∧ (decode popped = some r ∨ decode popped = none) := by
        rintro popped rfl
        split
        · exact ⟨encode_ne_STOP r, .inl (decode_encode r)⟩
        · exact ⟨by decide, .inr rfl⟩
      obtain ⟨no_stop, reads⟩ := short _ rfl
      refine ⟨rest, stops, behind, ?_, ?_, h.file, h.lines, h.clean, h.tail, ?_, h.stopping,
        fun ends => absurd ends no_stop, fun ends => absurd ends no_stop⟩
      · have whole_order : (written ++ r :: rest).Sublist l.handed := by
          simpa [ScribePc.inHand] using order
        simp only [ScribePc.inHand, if_neg no_stop]
        rcases reads with reads | reads <;> rw [reads]
        · simpa using whole_order
        · refine List.Sublist.trans ?_ whole_order
          simp
      · simp only [ScribePc.inHand, if_neg no_stop, List.length_nil, List.length_cons] at count ⊢
        omega
      · rintro _ ⟨⟩
        exact ⟨remembers, whole⟩
    · have told := h.stopping (Nat.succ_pos k)
      refine ⟨[], k, behind, ?_, ?_, h.file, h.lines, h.clean, h.tail, ?_, fun _ => told, fun _ => rfl,
        fun _ _ => told⟩
      · simpa [ScribePc.inHand, WRITER_BUF, REC_HEADER] using order
      · simpa [ScribePc.inHand, WRITER_BUF, REC_HEADER] using count
      · rintro _ ⟨⟩
        exact ⟨remembers, whole⟩
  · cases took
    exact ⟨waiting, stops, h⟩

/-- The writer has one more line in its file. -/
theorem Sound.lines_concat (h : l.Sound written waiting torn stops) {r : LogRecord}
    (unbroken : Unbroken r) :
    (Pen.new.after (written ++ [r])).Clean ∧
      ∀ line ∈ Pen.new.lines (written ++ [r]), OneLine line := by
  obtain ⟨clean, one⟩ := h.clean.line unbroken
  rw [Pen.after_concat, Pen.lines_concat]
  refine ⟨clean, fun line mem => ?_⟩
  rcases List.mem_append.mp mem with before | last
  · exact h.lines line before
  · rw [List.mem_singleton] at last
    exact last ▸ one

theorem Sound.handled (h : l.Sound written waiting torn stops) {pen : Pen} {popped : Bytes}
    (handling : l.writer = .handling pen popped) (met : l.Met (.writer error))
    (took : l.writerStep error = some l') :
    ∃ written torn, l'.Sound written waiting torn stops := by
  have order := h.order
  have count := h.count
  have told := h.told
  have ended := h.ended
  obtain ⟨rfl, rfl⟩ := h.pen pen (by rw [handling]; rfl)
  rw [handling] at order count told ended
  simp only [writerStep, handling] at took
  split_ifs at took with stop
  · cases took
    simp only [ScribePc.inHand, if_pos stop] at order count
    exact ⟨written, [], h.queued, order, count, h.file, h.lines, h.clean, h.tail,
      by rintro _ ⟨⟩, h.stopping, fun _ => ended stop, fun _ going => absurd rfl going⟩
  · have inHand : l.writer.inHand = [decode popped] := by
      rw [handling]
      exact if_neg stop
    simp only [ScribePc.inHand, if_neg stop] at order count
    cases read : decode popped with
    | none =>
      rw [read] at took order count
      cases took
      refine ⟨written, [], h.queued, order, ?_, h.file, h.lines, h.clean, h.tail, ?_, h.stopping,
        False.elim, False.elim⟩
      · simp only [ScribePc.inHand, List.length_nil, List.length_singleton] at count ⊢
        omega
      · rintro _ ⟨⟩
        exact ⟨rfl, rfl⟩
    | some r =>
      rw [read] at took order count inHand
      obtain ⟨unbroken, rest_empty⟩ := met r inHand
      obtain ⟨clean, lines⟩ := h.lines_concat unbroken
      have line := (h.clean.line unbroken).2
      have file := h.file
      simp only [List.length_singleton] at count
      cases error with
      | none =>
        cases took
        refine ⟨written ++ [r], [], h.queued, ?_, ?_, ?_, lines, clean, h.tail, ?_, h.stopping,
          False.elim, False.elim⟩
        · simpa [ScribePc.inHand] using order
        · simp only [ScribePc.inHand, List.length_append, List.length_singleton, List.length_nil]
          omega
        · rw [Pen.lines_concat]
          simp [file]
        · rintro _ ⟨⟩
          exact ⟨(Pen.after_concat _ _ _).symm, rfl⟩
      | some k =>
        cases took
        -- Nothing may wait that the writer leaves behind.
        have none_waits : waiting = [] := by
          have stops_only := rest_empty (by simp)
          rw [h.queued] at stops_only
          cases waiting with
          | nil => rfl
          | cons first rest =>
            exact absurd (stops_only (encode first) (by simp)) (encode_ne_STOP first)
        subst none_waits
        refine ⟨written, _, h.queued, ?_, ?_, ?_, h.lines, h.clean, line.take k, by rintro _ ⟨⟩,
          h.stopping, fun _ => rfl, fun _ going => absurd rfl going⟩
        · refine List.Sublist.trans ?_ order
          simp [ScribePc.inHand]
        · simp only [ScribePc.inHand, List.length_nil] at count ⊢
          omega
        · simp [file]

theorem Sound.step {a : Act} (h : l.Sound written waiting torn stops) (met : l.Met a)
    (took : l.step a = some l') : ∃ written waiting torn stops, l'.Sound written waiting torn stops := by
  cases a with
  | record r =>
    obtain ⟨waiting, h⟩ := h.record met took
    exact ⟨_, waiting, _, _, h⟩
  | close => exact ⟨_, _, _, _, h.close took⟩
  | engine =>
    obtain ⟨stops, h⟩ := h.engine took
    exact ⟨_, _, _, stops, h⟩
  | writer error =>
    cases writer : l.writer with
    | looping pen =>
      obtain ⟨waiting, stops, h⟩ := h.looped writer took
      exact ⟨_, waiting, _, stops, h⟩
    | handling pen popped =>
      obtain ⟨written, torn, h⟩ := h.handled writer met took
      exact ⟨written, _, torn, _, h⟩
    | stopped =>
      have took : l.writerStep error = some l' := took
      simp [writerStep, writer] at took

/-- Does every step of a run meet the condition? -/
def MetAlong (l : FileLog) : List Act → Prop
  | [] => True
  | a :: as => l.Met a ∧ ∀ l', l.step a = some l' → l'.MetAlong as

theorem Sound.runs {as : List Act} (h : l.Sound written waiting torn stops) (met : l.MetAlong as)
    (run : l.runs as = some l') : ∃ written waiting torn stops, l'.Sound written waiting torn stops := by
  induction as generalizing l written waiting torn stops with
  | nil =>
    cases run
    exact ⟨_, _, _, _, h⟩
  | cons a as ih =>
    obtain ⟨next, took, later⟩ := Option.bind_eq_some_iff.mp run
    obtain ⟨_, _, _, _, h⟩ := h.step met.1 took
    exact ih h (met.2 next took) later

/-- **The log can be read back**: every byte string is what its escape says, on one line, and along
every run in which no write fails with records still waiting, nothing is handed to a ring that nobody
empties and no record's own line breaks, the lines are those of the records written, one for each in
order, and when the writer has stopped every other record is counted once. -/
theorem log_accounts (bytes : Bytes) :
    (unescape (escapeInto bytes []) = bytes ∧ LF ∉ escapeInto bytes [] ∧
      CR ∉ escapeInto bytes []) ∧
    ∀ capacity as l, (opened capacity).MetAlong as → (opened capacity).runs as = some l →
      l.Accounted := by
  refine ⟨⟨unescape_escapeInto bytes, ?_, ?_⟩, fun capacity as l met run => ?_⟩
  · exact fun mem => (mem_escape mem).1 rfl
  · exact fun mem => (mem_escape mem).2 rfl
  · obtain ⟨_, _, _, _, sound⟩ := (sound_opened capacity).runs met run
    exact sound.accounted

/-- A message of two bytes, in the year 2026. -/
def small : LogRecord := ⟨.in_, 63900000000000, 0, 7, [0x41, LF]⟩

/-- One that no ring of 64 bytes has room for. -/
def large : LogRecord := ⟨.out, 63900000000000, 0, 7, List.replicate 64 0x42⟩

theorem unbroken_small : Unbroken small := by
  constructor <;> decide

/-- One message is written and one is counted. -/
theorem log_accounts_two : ∃ l, (opened 64).runs [.record small, .writer none, .writer none,
    .record large, .engine] = some l ∧ l.Accounted ∧ l.lost = 1 := by
  have met : (opened 64).MetAlong [.record small, .writer none, .writer none, .record large,
      .engine] := by
    refine ⟨⟨by simp [opened], by simp [opened]⟩, ?_⟩
    rintro _ ⟨⟩
    refine ⟨by rintro r ⟨⟩, ?_⟩
    rintro _ ⟨⟩
    refine ⟨?_, ?_⟩
    · rintro r ⟨⟩
      exact ⟨unbroken_small, by simp⟩
    rintro _ ⟨⟩
    refine ⟨⟨by simp [opened], by simp⟩, ?_⟩
    rintro _ ⟨⟩
    exact ⟨trivial, fun _ _ => trivial⟩
  have lost : ((opened 64).runs [.record small, .writer none, .writer none, .record large,
      .engine]).map FileLog.lost = some 1 := by decide
  obtain ⟨l, run, one⟩ := Option.map_eq_some_iff.mp lost
  exact ⟨l, run, (log_accounts []).2 64 _ l met run, one⟩

/-- A disk fails with a record waiting, and nobody counts that one. -/
theorem left_in_the_ring : ¬ ∀ capacity as l, (opened capacity).runs as = some l → l.Accounted := by
  intro claim
  obtain ⟨written, torn, -, file, one, -, count⟩ := claim 64
    [.record small, .record small, .writer none, .writer (some 0)] _ rfl
  have none_written : written = [] := by
    cases written with
    | nil => rfl
    | cons r rest =>
      obtain ⟨text, line, -⟩ := one _ List.mem_cons_self
      have empty : (Pen.new.lines (r :: rest)).flatten ++ torn = [] := file.symm
      rw [Pen.lines, line] at empty
      simp at empty
  have total := count rfl (by decide)
  subst none_written
  exact absurd total (by decide)

end FileLog

end Fixbolt
