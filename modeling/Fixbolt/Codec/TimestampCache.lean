import Fixbolt.Codec.Timestamp

/-!
# The cache in front of the stamp

A `TimestampCache` is the buffer that stamps are written into and the minute its first fifteen
bytes were built for. `format` rebuilds those bytes when the minute is another one, patches the
rest and lends the buffer out; calls are taken one after another by `run`.

* `TimestampCache.run_eq`: whatever was formatted before, a call renders its instant.
-/

namespace Fixbolt

/-- The `.sss` width. -/
def TIMESTAMP_LEN : ℕ := 21

/-- The widest stamp. -/
def TIMESTAMP_MAX_LEN : ℕ := 27

namespace Precision

/-- The bytes a stamp takes. -/
def bytes (p : Precision) : ℕ := 18 + p.fractionalDigits

theorem bytes_le (p : Precision) : p.bytes ≤ TIMESTAMP_MAX_LEN := by cases p <;> decide

end Precision

/-- Write `bs` over what is in the buffer from `pos` on. -/
def overwrite (buf : Bytes) (pos : ℕ) (bs : Bytes) : Bytes :=
  buf.take pos ++ bs ++ buf.drop (pos + bs.length)

theorem overwrite_length {buf bs : Bytes} {pos : ℕ} (fits : pos + bs.length ≤ buf.length) :
    (overwrite buf pos bs).length = buf.length := by
  simp only [overwrite, List.length_append, List.length_take, List.length_drop]
  omega

/-- A buffer of the cache's size that begins with some bytes. -/
structure Begins (buf pre : Bytes) : Prop where
  size : buf.length = TIMESTAMP_MAX_LEN
  take : buf.take pre.length = pre

/-- Bytes written behind those a buffer begins with. -/
theorem Begins.overwrite {buf pre : Bytes} {pos : ℕ} (h : Begins buf pre) (bs : Bytes)
    (place : pre.length = pos) (room : pos + bs.length ≤ TIMESTAMP_MAX_LEN) :
    Begins (overwrite buf pos bs) (pre ++ bs) := by
  subst place
  have fits : pre.length + bs.length ≤ buf.length := by rwa [h.size]
  constructor
  · rw [overwrite_length fits, h.size]
  · rw [Fixbolt.overwrite, h.take, List.take_left]

theorem Begins.of_append {buf pre bs : Bytes} (h : Begins buf (pre ++ bs)) : Begins buf pre := by
  refine ⟨h.size, ?_⟩
  have := congrArg (List.take pre.length) h.take
  rwa [List.take_take, List.take_left, List.length_append,
    Nat.min_eq_left (Nat.le_add_right _ _)] at this

/-- `u64::MAX`: no minute was built for yet. -/
def noMinute : ℕ := 18446744073709551615

/-- The fifteen bytes a minute since the epoch is written as. -/
def minutePrefix (minute : ℕ) : Bytes :=
  let (y, m, d) := civilFromDays (minute / 1440)
  let minsOfDay := minute % 1440
  write4 y ++ write2 m ++ write2 d ++ [0x2D] ++ write2 (minsOfDay / 60) ++ [0x3A] ++
    write2 (minsOfDay % 60) ++ [0x3A]

/-- Caches the minute prefix of a stamp. -/
structure TimestampCache where
  buf : Bytes
  /-- The minute the first fifteen bytes were built for. -/
  minute : ℕ
  precision : Precision
  size : buf.length = TIMESTAMP_MAX_LEN
  built : minute ≠ noMinute → Begins buf (minutePrefix minute)

namespace TimestampCache

/-- An empty cache. -/
def withPrecision (p : Precision) : TimestampCache :=
  ⟨List.replicate TIMESTAMP_MAX_LEN ZERO, noMinute, p, List.length_replicate, fun h => absurd rfl h⟩

/-- The buffer with the prefix of a minute, a part at a time. -/
def rebuildPrefix (buf : Bytes) (minute : ℕ) : Bytes :=
  let (y, m, d) := civilFromDays (minute / 1440)
  let minsOfDay := minute % 1440
  let buf := overwrite buf 0 (write4 y)
  let buf := overwrite buf 4 (write2 m)
  let buf := overwrite buf 6 (write2 d)
  let buf := overwrite buf 8 [0x2D]
  let buf := overwrite buf 9 (write2 (minsOfDay / 60))
  let buf := overwrite buf 11 [0x3A]
  let buf := overwrite buf 12 (write2 (minsOfDay % 60))
  overwrite buf 14 [0x3A]

theorem rebuildPrefix_begins {buf : Bytes} (size : buf.length = TIMESTAMP_MAX_LEN) (minute : ℕ) :
    Begins (rebuildPrefix buf minute) (minutePrefix minute) := by
  have empty : Begins buf [] := ⟨size, rfl⟩
  have year := empty.overwrite (write4 (civilFromDays (minute / 1440)).1) rfl
    (Nat.le_of_ble_eq_true rfl)
  have month := year.overwrite (write2 (civilFromDays (minute / 1440)).2.1) rfl
    (Nat.le_of_ble_eq_true rfl)
  have day := month.overwrite (write2 (civilFromDays (minute / 1440)).2.2) rfl
    (Nat.le_of_ble_eq_true rfl)
  have dash := day.overwrite [0x2D] rfl (Nat.le_of_ble_eq_true rfl)
  have hour := dash.overwrite (write2 (minute % 1440 / 60)) rfl (Nat.le_of_ble_eq_true rfl)
  have colon := hour.overwrite [0x3A] rfl (Nat.le_of_ble_eq_true rfl)
  have minute := colon.overwrite (write2 (minute % 1440 % 60)) rfl (Nat.le_of_ble_eq_true rfl)
  exact minute.overwrite [0x3A] rfl (Nat.le_of_ble_eq_true rfl)

/-- The bytes after the prefix: the second, the point and the fraction. -/
def patch (p : Precision) (millis subMsNanos : ℕ) : Bytes :=
  let s := millis / 1000 % 60
  let ms := millis % 1000
  let nanos := if 1000000 ≤ subMsNanos then 999999 else subMsNanos
  match p with
  | .millis =>
    -- The default width is written straight out.
    [asciiDigit (s / 10), asciiDigit (s % 10), 0x2E,
      asciiDigit (ms / 100), asciiDigit (ms / 10 % 10), asciiDigit (ms % 10)]
  | .micros =>
    [asciiDigit (s / 10), asciiDigit (s % 10), 0x2E] ++ fractionDigits 6 (ms * 1000 + nanos / 1000)
  | .nanos =>
    [asciiDigit (s / 10), asciiDigit (s % 10), 0x2E] ++ fractionDigits 9 (ms * 1000000 + nanos)

theorem patch_length (p : Precision) (millis sub : ℕ) :
    15 + (patch p millis sub).length = p.bytes := by
  cases p with
  | millis => rfl
  | micros => simp [patch, fractionDigits_length, Precision.bytes, Precision.fractionalDigits]
  | nanos => simp [patch, fractionDigits_length, Precision.bytes, Precision.fractionalDigits]

/-- The buffer of a cache, rebuilt for another minute. -/
def forMinute (c : TimestampCache) (minute : ℕ) : Bytes :=
  if minute ≠ c.minute then rebuildPrefix c.buf minute else c.buf

theorem forMinute_size (c : TimestampCache) (minute : ℕ) :
    (c.forMinute minute).length = TIMESTAMP_MAX_LEN := by
  unfold forMinute
  split
  · exact (rebuildPrefix_begins c.size minute).size
  · exact c.size

/-- The buffer begins with the minute it was asked for: it was built for it now or before. -/
theorem forMinute_begins (c : TimestampCache) {minute : ℕ} (real : minute ≠ noMinute) :
    Begins (c.forMinute minute) (minutePrefix minute) := by
  unfold forMinute
  split
  · exact rebuildPrefix_begins c.size minute
  · rename_i same
    obtain rfl : minute = c.minute := not_not.mp same
    exact c.built real

theorem patched_room (c : TimestampCache) (minute millis sub : ℕ) :
    15 + (patch c.precision millis sub).length ≤ (c.forMinute minute).length := by
  rw [patch_length, forMinute_size]
  exact c.precision.bytes_le

/-- A minute's buffer with the rest of a stamp begins with the stamp. -/
theorem patched_begins (c : TimestampCache) (millis sub : ℕ) {minute : ℕ}
    (real : minute ≠ noMinute) :
    Begins (overwrite (c.forMinute minute) 15 (patch c.precision millis sub))
      (minutePrefix minute ++ patch c.precision millis sub) := by
  refine (c.forMinute_begins real).overwrite _ rfl ?_
  rw [patch_length]
  exact c.precision.bytes_le

/-- Render an instant: the cache after the call, and the bytes it lends out. -/
def format (c : TimestampCache) (millis subMsNanos : ℕ) : TimestampCache × Bytes :=
  let minute := millis / 1000 / 60
  let buf := overwrite (c.forMinute minute) 15 (patch c.precision millis subMsNanos)
  ({ buf, minute
     precision := c.precision
     size := (overwrite_length (c.patched_room minute millis subMsNanos)).trans
       (c.forMinute_size minute)
     built := fun real => (c.patched_begins millis subMsNanos real).of_append },
   buf.take c.precision.bytes)

/-- The bytes that calls lend out, one after another. -/
def run (c : TimestampCache) : List (ℕ × ℕ) → List Bytes
  | [] => []
  | (millis, sub) :: calls => (c.format millis sub).2 :: run (c.format millis sub).1 calls

/-- A stamp is its minute's prefix and the rest. -/
theorem formatTimestamp_eq (p : Precision) (millis sub : ℕ) :
    formatTimestamp p millis sub = minutePrefix (millis / 1000 / 60) ++ patch p millis sub := by
  cases p with
  | millis =>
    have hundreds : millis % 1000 / 10 / 10 % 10 = millis % 1000 / 100 := by omega
    simp [formatTimestamp, minutePrefix, patch, write2, Precision.fractionalDigits, fractionAt,
      fractionDigits, hundreds]
  | micros =>
    simp [formatTimestamp, minutePrefix, patch, write2, Precision.fractionalDigits, fractionAt]
  | nanos =>
    simp [formatTimestamp, minutePrefix, patch, write2, Precision.fractionalDigits, fractionAt]

/-- One call renders its instant. -/
theorem format_eq (c : TimestampCache) {millis sub : ℕ} (u64 : millis < 2 ^ 64) :
    (c.format millis sub).2 = formatTimestamp c.precision millis sub := by
  have real : millis / 1000 / 60 ≠ noMinute := by
    unfold noMinute at *
    omega
  have begins := (c.patched_begins millis sub real).take
  have length : (minutePrefix (millis / 1000 / 60) ++ patch c.precision millis sub).length =
      c.precision.bytes := by
    rw [List.length_append, ← patch_length c.precision millis sub]
    rfl
  rw [length, ← formatTimestamp_eq] at begins
  exact begins

/-- **A cache renders every instant as if nothing had been rendered before**, in whatever order
they come. -/
theorem run_eq (c : TimestampCache) {calls : List (ℕ × ℕ)} (u64 : ∀ call ∈ calls, call.1 < 2 ^ 64) :
    c.run calls = calls.map fun call => formatTimestamp c.precision call.1 call.2 := by
  induction calls generalizing c with
  | nil => rfl
  | cons call calls ih =>
    obtain ⟨first, later⟩ := List.forall_mem_cons.mp u64
    rw [run, c.format_eq first, ih _ later]
    rfl

end TimestampCache

end Fixbolt
