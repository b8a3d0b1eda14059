import Fixbolt.Codec.Framed
import Fixbolt.Lib.Streaming

/-!
# The parser is a streaming parser

What the parser says of a buffer is settled by the bytes it looked at: of a part of a message it asks
for more, a message is taken the same way whatever follows it, and an error stays that error.

* `parseInto_streaming`: the parser as a streaming reader, for every dictionary and capacity;
* `parseInto_streams`: what that says of the bytes of a message, and where its index points;
* `index_loses_place`: an index whose offsets or whose count wrap around does not point at the
  fields.
-/

namespace Fixbolt

variable {D : Dictionary} {N : ℕ} {b b' : Bytes} {v : Validation} {k : ℕ}

/-- What a parse says, as the verdict of a reader. -/
def ParseResult.verdict (r : ParseResult) :
    Verdict (List FieldEntry) (ParseError × List FieldEntry) :=
  match r.outcome with
  | .ok (.complete n) => .done n r.index
  | .ok .incomplete => .more
  | .error e => .failed (e, r.index)

/-! ### What each reader looked at -/

theorem findSoh_agree {from_ soh : ℕ} (agree : AgreeOn k b b') (h : findSoh b from_ = some soh)
    (le : soh < k) : findSoh b' from_ = some soh := by
  obtain ⟨value, rest, eq, none, rfl⟩ := findSoh_eq_some_iff.mp h
  obtain ⟨rest', eq'⟩ := @AgreeOn.drop_eq _ _ from_ _ _ (value ++ [SOH]) rest agree
    (by simpa using eq) (by simp; omega)
  exact findSoh_eq_some_iff.mpr ⟨value, rest', by simpa using eq', none, rfl⟩

theorem readTag_agree {pos : ℕ} {found : ℕ × ℕ} (agree : AgreeOn k b b')
    (h : readTag b pos = .ok (some found)) (le : found.2 ≤ k) :
    readTag b' pos = .ok (some found) := by
  obtain ⟨tag, valStart⟩ := found
  obtain ⟨text, rest, eq, reads, digits, rfl⟩ := readTag_eq_some_iff.mp h
  obtain ⟨rest', eq'⟩ := @AgreeOn.drop_eq _ _ pos _ _ (text ++ [EQ]) rest agree
    (by simpa using eq) (by simp; omega)
  exact readTag_eq_some_iff.mpr ⟨text, rest', by simpa using eq', reads, digits, rfl⟩

theorem readTag_error_agree {pos : ℕ} {e : ParseError} (agree : AgreeOn k b b')
    (h : readTag b pos = .error e) (le : b.length ≤ k) : readTag b' pos = .error e := by
  obtain ⟨more, rfl⟩ := agree.isPrefix le
  unfold readTag at h ⊢
  by_cases inside : pos ≤ b.length
  · rw [List.drop_append_of_le_length inside]
    exact readTagLoop_error_append h more
  · rw [List.drop_eq_nil_of_le (by omega)] at h
    cases h

theorem slice_agree {at_ len : ℕ} (agree : AgreeOn k b b') (le : at_ + len ≤ k)
    (inside : at_ + len ≤ b.length) : slice b' at_ len = slice b at_ len := by
  have cut := (agree.mono le).take_eq
  have inside' : at_ + len ≤ b'.length := by
    have := congrArg List.length cut
    simp only [List.length_take] at this
    omega
  unfold slice
  rw [if_pos inside, if_pos inside']
  have same (xs : Bytes) : (xs.drop at_).take len = (xs.take (at_ + len)).drop at_ := by
    rw [List.drop_take, Nat.add_sub_cancel_left]
  rw [same b, same b', cut]

theorem expectFrameTag_agree {pos : ℕ} {tag : UInt8} (agree : AgreeOn k b b')
    (h : expectFrameTag b pos tag = none) (le : pos + 2 ≤ k) :
    expectFrameTag b' pos tag = none := by
  obtain ⟨rest, eq⟩ := expectFrameTag_eq_none_iff.mp h
  exact expectFrameTag_eq_none_iff.mpr (agree.drop_eq eq (by simpa using le))

theorem expectFrameTag_error_agree {pos : ℕ} {tag : UInt8} {e : ParseError}
    (agree : AgreeOn k b b') (h : expectFrameTag b pos tag = some (.error e))
    (le : b.length ≤ k) : expectFrameTag b' pos tag = some (.error e) := by
  obtain ⟨more, rfl⟩ := agree.isPrefix le
  unfold expectFrameTag at h ⊢
  cases first : b[pos]? with
  | none => simp [first] at h
  | some c =>
    have first' : (b ++ more)[pos]? = some c := by
      rw [List.getElem?_append_left (List.getElem?_eq_some_iff.mp first).1, first]
    simp only [first, first'] at h ⊢
    split
    · rename_i ne
      rwa [if_pos ne] at h
    · rename_i eq
      rw [if_neg eq] at h
      cases second : b[pos + 1]? with
      | none => simp [second] at h
      | some d =>
        have second' : (b ++ more)[pos + 1]? = some d := by
          rw [List.getElem?_append_left (List.getElem?_eq_some_iff.mp second).1, second]
        simp only [second, second'] at h ⊢
        exact h

/-- The entries so far point in front of the cursor. -/
def Behind (pos : ℕ) (idx : List FieldEntry) : Prop := ∀ e ∈ idx, e.offset + e.len ≤ pos

theorem Behind.last {pos : ℕ} {idx : List FieldEntry} {e : FieldEntry} (h : Behind pos idx)
    (last : idx.getLast? = some e) : e.offset + e.len ≤ pos :=
  h e (List.mem_of_getLast? last)

theorem Behind.push {pos tag offset len : ℕ} {idx idx' : List FieldEntry} (h : Behind pos idx)
    (le : pos ≤ offset) (pushed : pushField N idx tag offset len = .ok idx') :
    Behind (offset + len) idx' := by
  obtain ⟨-, -, rfl⟩ := pushField_ok pushed
  intro e he
  split at he
  · cases he
  · obtain he | he := List.mem_append.mp he
    · have := h e he
      omega
    · obtain rfl := List.mem_singleton.mp he
      -- the offset may have wrapped around, which takes it back
      have : wrapU32 offset ≤ offset := Nat.mod_le _ _
      show wrapU32 offset + len ≤ offset + len
      omega

theorem valueLength_agree {trailerAt pos tag valStart len : ℕ} {idx : List FieldEntry}
    (agree : AgreeOn k b b') (behind : Behind pos idx) (le : pos ≤ valStart)
    (h : valueLength D b trailerAt idx tag valStart = .ok len) (near : valStart + len < k) :
    valueLength D b' trailerAt idx tag valStart = .ok len := by
  obtain ⟨value, rest, eq, rfl, stated⟩ := valueLength_eq_ok_iff.mp h
  obtain ⟨rest', eq'⟩ := @AgreeOn.drop_eq _ _ valStart _ _ (value ++ [SOH]) rest agree
    (by simpa using eq) (by simp; omega)
  refine valueLength_eq_ok_iff.mpr ⟨value, rest', by simpa using eq', rfl, ?_⟩
  cases isData : D.dataLengthTag tag with
  | none => rwa [isData] at stated
  | some lenTag =>
    rw [isData] at stated
    obtain ⟨inside, e, last, same, stated⟩ := stated
    have := behind.last last
    have size := congrArg List.length eq
    simp only [List.length_drop, List.length_append, List.length_cons] at size
    refine ⟨inside, e, last, same, ?_⟩
    rw [slice_agree agree (by omega) (by omega)]
    exact stated

theorem valueLength_error_agree {trailerAt pos tag valStart : ℕ} {idx : List FieldEntry}
    {e : ParseError} (agree : AgreeOn k b b') (behind : Behind pos idx) (inside : pos ≤ b.length)
    (h : valueLength D b trailerAt idx tag valStart = .error (.error e)) (le : b.length ≤ k) :
    valueLength D b' trailerAt idx tag valStart = .error (.error e) := by
  unfold valueLength at h ⊢
  cases isData : D.dataLengthTag tag with
  | none =>
    simp only [isData] at h
    split at h <;> cases h
  | some lenTag =>
    simp only [isData] at h ⊢
    cases last : idx.getLast? with
    | none => rwa [last] at h
    | some prev =>
      have := behind.last last
      simp only [last] at h ⊢
      rw [slice_agree agree (by omega) (by omega)]
      split
      · rename_i other
        rwa [if_pos other] at h
      rename_i same
      rw [if_neg same] at h
      cases stated : (slice b prev.offset prev.len).bind asU32? with
      | none => rwa [stated] at h
      | some n =>
        simp only [stated] at h ⊢
        split
        · rename_i outside
          rwa [if_pos outside] at h
        rename_i within
        rw [if_neg within] at h
        cases at_ : b[valStart + n]? with
        | none => simp [at_] at h
        | some c =>
          have lt := (List.getElem?_eq_some_iff.mp at_).1
          simp only [at_, ← agree _ (Nat.lt_of_lt_of_le lt le)] at h ⊢
          exact h

/-! ### Where a message ends -/

theorem findSoh_bounds {from_ soh : ℕ} (h : findSoh b from_ = some soh) :
    from_ ≤ soh ∧ soh < b.length := by
  obtain ⟨value, rest, eq, -, rfl⟩ := findSoh_eq_some_iff.mp h
  have size := congrArg List.length eq
  simp only [List.length_drop, List.length_append, List.length_cons] at size
  omega

theorem readTag_bounds {pos tag valStart : ℕ} (h : readTag b pos = .ok (some (tag, valStart))) :
    pos < valStart ∧ valStart ≤ b.length := by
  obtain ⟨text, rest, eq, -, -, rfl⟩ := readTag_eq_some_iff.mp h
  have size := congrArg List.length eq
  simp only [List.length_drop, List.length_append, List.length_cons] at size
  omega

theorem valueLength_bounds {trailerAt tag valStart len : ℕ} {idx : List FieldEntry}
    (h : valueLength D b trailerAt idx tag valStart = .ok len) : valStart + len < b.length := by
  obtain ⟨value, rest, eq, rfl, -⟩ := valueLength_eq_ok_iff.mp h
  have size := congrArg List.length eq
  simp only [List.length_drop, List.length_append, List.length_cons] at size
  omega

theorem parseTrailer_bounds {trailerAt pos valStart n : ℕ} {idx idx' : List FieldEntry}
    (h : parseTrailer N b v trailerAt pos valStart idx = ⟨idx', .ok (.complete n)⟩) :
    valStart < n ∧ n ≤ b.length := by
  cases found : findSoh b valStart with
  | none => simp [parseTrailer, found] at h
  | some soh =>
    obtain ⟨value, rest, eq, none, rfl⟩ := findSoh_eq_some_iff.mp found
    obtain ⟨-, rfl, -⟩ := (parseTrailer_eq_complete_iff eq none).mp h
    have := findSoh_bounds found
    omega

/-- What the field loop takes ends behind the cursor and inside the buffer. -/
theorem parseFields_bounds {trailerAt fuel pos n : ℕ} {idx idx' : List FieldEntry}
    (h : parseFields D N b v trailerAt fuel pos idx = ⟨idx', .ok (.complete n)⟩) :
    pos < n ∧ n ≤ b.length := by
  induction fuel generalizing pos idx with
  | zero => cases h
  | succ fuel ih =>
    unfold parseFields at h
    split at h
    · cases h
    split at h
    · cases h
    · cases h
    rename_i tag valStart read
    have at_ := readTag_bounds read
    split at h
    · have := parseTrailer_bounds h
      omega
    split at h
    · rename_i stop ends
      obtain ⟨-, rfl⟩ := (ParseResult.mk.injEq _ _ _ _).mp h
      exact absurd ends valueLength_ne_complete
    rename_i len ends
    split at h
    · cases h
    have := ih h
    omega

/-! ### What the parser looked at -/

/-- The first `k` bytes settle a parse. -/
def ParseResult.SettledBy (k len : ℕ) (r : ParseResult) : Prop := r.verdict.SettledBy k len

theorem ParseResult.settledBy_mk {len : ℕ} {idx : List FieldEntry}
    {o : Except ParseError Parsed} :
    (⟨idx, o⟩ : ParseResult).SettledBy k len ↔
      match o with
      | .ok (.complete n) => n ≤ k
      | .ok .incomplete => False
      | .error _ => len ≤ k := by
  unfold ParseResult.SettledBy ParseResult.verdict
  cases o with
  | error e => exact Iff.rfl
  | ok p => cases p <;> exact Iff.rfl

theorem parseTrailer_agree {trailerAt pos valStart : ℕ} {idx : List FieldEntry}
    (agree : AgreeOn k b b') (le : pos ≤ valStart)
    (h : (parseTrailer N b v trailerAt pos valStart idx).SettledBy k b.length) :
    parseTrailer N b' v trailerAt pos valStart idx =
      parseTrailer N b v trailerAt pos valStart idx := by
  cases found : findSoh b valStart with
  | none => simp [parseTrailer, found, ParseResult.settledBy_mk] at h
  | some soh =>
    have bounds := findSoh_bounds found
    have lt : soh < k := by
      simp only [parseTrailer, found] at h
      repeat' split at h
      all_goals
        have := ParseResult.settledBy_mk.mp h
        simp only at this
        omega
    have value : (b'.drop valStart).take (soh - valStart) =
        (b.drop valStart).take (soh - valStart) := agree.take_drop_eq (by omega)
    have before : b'.take pos = b.take pos := ((agree.mono (by omega)).take_eq).symm
    unfold parseTrailer
    rw [found, findSoh_agree agree found lt]
    simp only [value, before]

/-- A place that the rest of a parse is behind was looked at. -/
theorem ParseResult.SettledBy.le {len place : ℕ} {r : ParseResult} (h : r.SettledBy k len)
    (inside : place ≤ len)
    (done : ∀ idx n, r = ⟨idx, .ok (.complete n)⟩ → place ≤ n) : place ≤ k := by
  obtain ⟨idx, o⟩ := r
  rw [ParseResult.settledBy_mk] at h
  cases o with
  | error e => exact inside.trans h
  | ok p =>
    cases p with
    | complete n => exact (done idx n rfl).trans h
    | incomplete => exact absurd h id

/-- One turn of the field loop, on a tag that can be read. -/
theorem parseFields_succ {trailerAt fuel pos tag valStart : ℕ} {idx : List FieldEntry}
    (read : readTag b pos = .ok (some (tag, valStart))) :
    parseFields D N b v trailerAt (fuel + 1) pos idx =
      if tag = 10 then parseTrailer N b v trailerAt pos valStart idx
      else match valueLength D b trailerAt idx tag valStart with
        | .error stop => ⟨idx, stop⟩
        | .ok len =>
          match pushField N idx tag valStart len with
          | .error e => ⟨idx, .error e⟩
          | .ok idx' => parseFields D N b v trailerAt fuel (valStart + len + 1) idx' := by
  have bounds := readTag_bounds read
  have inside : ¬ b.length ≤ pos := by omega
  by_cases trailer : tag = 10
  · simp only [parseFields, if_neg inside, read, if_pos trailer]
  · cases length : valueLength D b trailerAt idx tag valStart with
    | error stop => simp only [parseFields, if_neg inside, read, if_neg trailer, length]
    | ok len =>
      cases pushed : pushField N idx tag valStart len with
      | error e => simp only [parseFields, if_neg inside, read, if_neg trailer, length, pushed]
      | ok idx' => simp only [parseFields, if_neg inside, read, if_neg trailer, length, pushed]

theorem parseFields_agree {trailerAt fuel fuel' pos : ℕ} {idx : List FieldEntry}
    (agree : AgreeOn k b b') (behind : Behind pos idx) (inside : pos ≤ b.length)
    (enough : b'.length ≤ pos + fuel')
    (h : (parseFields D N b v trailerAt fuel pos idx).SettledBy k b.length) :
    parseFields D N b' v trailerAt fuel' pos idx = parseFields D N b v trailerAt fuel pos idx := by
  induction fuel generalizing fuel' pos idx with
  | zero => exact absurd h (by simp [parseFields, ParseResult.settledBy_mk])
  | succ fuel ih =>
    cases read : readTag b pos with
    | error e =>
      rw [parseFields] at h ⊢
      split at h
      · simp [ParseResult.settledBy_mk] at h
      rename_i more
      rw [if_neg more]
      simp only [read, ParseResult.settledBy_mk] at h
      have lt' : pos < b'.length := by
        have := agree pos (by omega)
        rw [List.getElem?_eq_getElem (by omega)] at this
        exact (List.getElem?_eq_some_iff.mp this.symm).1
      obtain ⟨fuel', rfl⟩ : ∃ m, fuel' = m + 1 := ⟨fuel' - 1, by omega⟩
      rw [parseFields, if_neg (by omega), read, readTag_error_agree agree read h]
    | ok found =>
      cases found with
      | none =>
        rw [parseFields] at h
        split at h <;> simp [read, ParseResult.settledBy_mk] at h
      | some found =>
        obtain ⟨tag, valStart⟩ := found
        have bounds := readTag_bounds read
        have le : valStart ≤ k := by
          refine h.le bounds.2 fun idx' n eq => ?_
          rw [parseFields_succ read] at eq
          split at eq
          · exact (parseTrailer_bounds eq).1.le
          split at eq
          · rename_i stop ends
            obtain ⟨-, rfl⟩ := (ParseResult.mk.injEq _ _ _ _).mp eq
            exact absurd ends valueLength_ne_complete
          split at eq
          · cases eq
          · have := (parseFields_bounds eq).1
            omega
        have read' := readTag_agree agree read le
        have bounds' := readTag_bounds read'
        obtain ⟨fuel', rfl⟩ : ∃ m, fuel' = m + 1 := ⟨fuel' - 1, by omega⟩
        rw [parseFields_succ read] at h ⊢
        rw [parseFields_succ read']
        split
        · rename_i last
          rw [if_pos last] at h
          exact parseTrailer_agree agree (by omega) h
        rename_i inner
        rw [if_neg inner] at h
        cases ends : valueLength D b trailerAt idx tag valStart with
        | error stop =>
          simp only [ends, ParseResult.settledBy_mk] at h
          cases stop with
          | error e => rw [valueLength_error_agree agree behind inside ends h]
          | ok p =>
            cases p with
            | complete n => exact absurd ends valueLength_ne_complete
            | incomplete => exact absurd h id
        | ok len =>
          have near := valueLength_bounds ends
          simp only [ends] at h ⊢
          have lt : valStart + len < k := by
            refine Nat.lt_of_succ_le (@ParseResult.SettledBy.le _ _ (valStart + len + 1) _ h near fun idx' n eq => ?_)
            split at eq
            · cases eq
            · exact (parseFields_bounds eq).1.le
          rw [valueLength_agree agree behind (by omega) ends lt]
          cases pushed : pushField N idx tag valStart len with
          | error e => simp only [pushed]
          | ok idx' =>
            simp only [pushed] at h ⊢
            have behind' : Behind (valStart + len + 1) idx' := fun e he =>
              (behind.push (by omega) pushed e he).trans (Nat.le_succ _)
            exact ih behind' (by omega) (by omega) h

theorem parseBody_agree {soh : ℕ} {idx : List FieldEntry} (agree : AgreeOn k b b')
    (behind : Behind soh idx) (h : (parseBody D N b v soh idx).SettledBy k b.length) :
    parseBody D N b' v soh idx = parseBody D N b v soh idx := by
  unfold parseBody at h ⊢
  cases first : expectFrameTag b (soh + 1) 0x39 with
  | some stop =>
    simp only [first, ParseResult.settledBy_mk] at h
    cases stop with
    | error e => rw [expectFrameTag_error_agree agree first h]
    | ok p =>
      cases p with
      | complete n => exact absurd first expectFrameTag_ne_complete
      | incomplete => exact absurd h id
  | none =>
    simp only [first] at h ⊢
    cases found : findSoh b (soh + 3) with
    | none => simp [found, ParseResult.settledBy_mk] at h
    | some soh₂ =>
      have bounds := findSoh_bounds found
      simp only [found] at h ⊢
      have lt : soh₂ < k := by
        refine Nat.lt_of_succ_le (@ParseResult.SettledBy.le _ _ (soh₂ + 1) _ h bounds.2 fun idx' n eq => ?_)
        repeat' split at eq
        all_goals first | cases eq | skip
        exact (parseFields_bounds eq).1.le
      have value : (b'.drop (soh + 3)).take (soh₂ - (soh + 3)) =
          (b.drop (soh + 3)).take (soh₂ - (soh + 3)) := agree.take_drop_eq (by omega)
      simp only [expectFrameTag_agree agree first (by omega), findSoh_agree agree found lt, value]
      cases stated : asU32? ((b.drop (soh + 3)).take (soh₂ - (soh + 3))) with
      | none => simp only
      | some declared =>
        simp only [stated] at h ⊢
        cases pushed : pushField N idx 9 (soh + 3) (soh₂ - (soh + 3)) with
        | error e => simp only
        | ok idx' =>
          simp only [pushed] at h ⊢
          have behind' : Behind (soh₂ + 1) idx' := fun e he =>
            ((behind.push (by omega) pushed) e he).trans (by omega)
          exact parseFields_agree agree behind' (by omega) (by omega) h

/-- What is taken from `9=` on ends behind it and inside the buffer. -/
theorem parseBody_bounds {soh n : ℕ} {idx idx' : List FieldEntry}
    (h : parseBody D N b v soh idx = ⟨idx', .ok (.complete n)⟩) : soh < n ∧ n ≤ b.length := by
  unfold parseBody at h
  split at h
  · rename_i stop first
    obtain ⟨-, rfl⟩ := (ParseResult.mk.injEq _ _ _ _).mp h
    exact absurd first expectFrameTag_ne_complete
  simp only at h
  split at h
  · cases h
  rename_i soh₂ found
  have := findSoh_bounds found
  split at h
  · cases h
  split at h
  · cases h
  have := parseFields_bounds h
  omega

theorem parseInto_agree (agree : AgreeOn k b b') (h : (parseInto D N b v).SettledBy k b.length) :
    parseInto D N b' v = parseInto D N b v := by
  unfold parseInto at h ⊢
  cases first : expectFrameTag b 0 0x38 with
  | some stop =>
    simp only [first, ParseResult.settledBy_mk] at h
    cases stop with
    | error e => rw [expectFrameTag_error_agree agree first h]
    | ok p =>
      cases p with
      | complete n => exact absurd first expectFrameTag_ne_complete
      | incomplete => exact absurd h id
  | none =>
    simp only [first] at h ⊢
    cases found : findSoh b 2 with
    | none => simp [found, ParseResult.settledBy_mk] at h
    | some soh =>
      have bounds := findSoh_bounds found
      simp only [found] at h ⊢
      have lt : soh < k := by
        refine Nat.lt_of_succ_le (@ParseResult.SettledBy.le _ _ (soh + 1) _ h bounds.2 fun idx' n eq => ?_)
        split at eq
        · cases eq
        · exact (parseBody_bounds eq).1
      simp only [expectFrameTag_agree agree first (by omega), findSoh_agree agree found lt]
      cases pushed : pushField N [] 8 2 (soh - 2) with
      | error e => simp only
      | ok idx =>
        simp only [pushed] at h ⊢
        have none : Behind 2 [] := fun e he => by cases he
        have behind : Behind soh idx := fun e he =>
          ((none.push le_rfl pushed) e he).trans (by omega)
        exact parseBody_agree agree behind h

/-- What is taken ends inside the buffer. -/
theorem parseInto_bounds {n : ℕ} {idx : List FieldEntry}
    (h : parseInto D N b v = ⟨idx, .ok (.complete n)⟩) : n ≤ b.length := by
  unfold parseInto at h
  split at h
  · rename_i stop first
    obtain ⟨-, rfl⟩ := (ParseResult.mk.injEq _ _ _ _).mp h
    exact absurd first expectFrameTag_ne_complete
  split at h
  · cases h
  split at h
  · cases h
  · exact (parseBody_bounds h).2

/-! ### The parser -/

theorem ParseResult.eq_of_verdict {r : ParseResult} {n : ℕ} {idx : List FieldEntry} :
    r.verdict = .done n idx ↔ r = ⟨idx, .ok (.complete n)⟩ := by
  obtain ⟨idx', o⟩ := r
  unfold ParseResult.verdict
  cases o with
  | error e => simp
  | ok p => cases p <;> simp [and_comm]

theorem ParseResult.more_iff {r : ParseResult} : r.verdict = .more ↔ r.outcome = .ok .incomplete := by
  obtain ⟨idx, o⟩ := r
  unfold ParseResult.verdict
  cases o with
  | error e => simp
  | ok p => cases p <;> simp

/-- **The parser is a streaming reader**, for every dictionary, capacity and choice of checks. -/
theorem parseInto_streaming : Streaming fun b => (parseInto D N b v).verdict where
  within h := parseInto_bounds (ParseResult.eq_of_verdict.mp h)
  settled agree h := by rw [parseInto_agree agree h]

/-! ### Where the index points -/

/-- The entries lie end to end from `pos` to `stop`: the text of a tag and its `=`, the value, and
the separator in front of the next tag. -/
def EndToEnd (b : Bytes) : ℕ → List FieldEntry → ℕ → Prop
  | pos, [], stop => pos = stop
  | pos, e :: es, stop =>
    (∃ text, asU32? text = some e.tag ∧ slice b pos (text.length + 1) = some (text ++ [EQ]) ∧
      e.offset = pos + text.length + 1) ∧
    b[e.offset + e.len]? = some SOH ∧ EndToEnd b (e.offset + e.len + 1) es stop

/-- The entries tile the first `n` bytes, from `8=` and `9=` to `10=`. -/
def TilesMessage (b : Bytes) (idx : List FieldEntry) (n : ℕ) : Prop :=
  EndToEnd b 0 idx n ∧ (idx[0]?.map (·.tag)) = some 8 ∧ (idx[1]?.map (·.tag)) = some 9 ∧
    (idx.getLast?.map (·.tag)) = some 10

theorem endToEnd_entriesAt {pos : ℕ} {fields : List WireField} {rest : Bytes}
    (h : b.drop pos = spell fields ++ rest) :
    EndToEnd b pos (entriesAt pos fields) (pos + (spell fields).length) := by
  induction fields generalizing pos with
  | nil => rfl
  | cons f fields ih =>
    rw [spell_cons, List.append_assoc] at h
    have value := (reads_at h).2
    have next : pos + f.text.length + 1 + f.value.length + 1 = pos + f.bytes.length := by
      rw [f.bytes_length]
      omega
    have tag : b.drop pos = (f.text ++ [EQ]) ++ (f.value ++ SOH :: (spell fields ++ rest)) := by
      rw [h]
      simp [WireField.bytes]
    have sep : b[pos + f.text.length + 1 + f.value.length]? = some SOH :=
      getElem?_eq_some_iff_drop.mpr ⟨_, _, value, rfl⟩
    have inside := (List.getElem?_eq_some_iff.mp sep).1
    refine ⟨⟨f.text, f.reads, ?_, rfl⟩, sep, ?_⟩
    · have := (slice_of_drop tag).resolve_right (by omega)
      rwa [List.length_append, List.length_singleton] at this
    · show EndToEnd b (pos + f.text.length + 1 + f.value.length + 1) _ _
      rw [next, spell_cons, List.length_append, ← Nat.add_assoc]
      exact ih (drop_of_drop h)

theorem tilesMessage_of_complete {idx : List FieldEntry} {n : ℕ} (cap : N ≤ u16Max)
    (near : n ≤ u32Size) (h : parseInto D N b v = ⟨idx, .ok (.complete n)⟩) :
    TilesMessage b idx n := by
  have front : parseInto D N (b.take n) v = ⟨idx, .ok (.complete n)⟩ := by
    have := parseInto_streaming.front (ParseResult.eq_of_verdict.mpr h) []
    rw [List.append_nil] at this
    exact ParseResult.eq_of_verdict.mp this
  have small : (b.take n).length ≤ u32Size := by
    rw [List.length_take]
    omega
  obtain ⟨m, rest, eq, rfl, rfl⟩ := parseInto_sound cap small front
  have whole : b.drop 0 = spell m.fields ++ (rest ++ b.drop m.bytes.length) := by
    rw [List.drop_zero, ← List.append_assoc, ← FramedMessage.bytes, ← eq, List.take_append_drop]
  have ends := endToEnd_entriesAt whole
  rw [Nat.zero_add] at ends
  refine ⟨ends, ?_, ?_, ?_⟩
  · simp [FramedMessage.fields, entriesAt, WireField.entry, m.begin_tag]
  · simp [FramedMessage.fields, entriesAt, WireField.entry, m.bodyLength_tag]
  · have split : m.fields = (m.begin_ :: m.bodyLength :: m.body) ++ [m.trailer] := rfl
    rw [split, entriesAt_append, List.getLast?_append]
    simp [entriesAt, WireField.entry, m.trailer_tag]

/-- **The parser is a streaming parser.** Of a part of a message it asks for more, a message is
taken the same way whatever follows it, an error stays the same error, and the index points at the
fields of the message, laid end to end, while its offsets and its count fit their types. -/
theorem parseInto_streams (D : Dictionary) (N : ℕ) (b : Bytes) (v : Validation) :
    (∀ idx n, parseInto D N b v = ⟨idx, .ok (.complete n)⟩ →
      (∀ k < n, (parseInto D N (b.take k) v).outcome = .ok .incomplete) ∧
      (∀ more, parseInto D N (b.take n ++ more) v = ⟨idx, .ok (.complete n)⟩) ∧
      (N ≤ u16Max → n ≤ u32Size → TilesMessage b idx n)) ∧
    ∀ idx e, parseInto D N b v = ⟨idx, .error e⟩ →
      ∀ more, parseInto D N (b ++ more) v = ⟨idx, .error e⟩ := by
  refine ⟨fun idx n h => ⟨fun k lt => ?_, fun more => ?_, fun cap near => ?_⟩,
    fun idx e h more => ?_⟩
  · exact ParseResult.more_iff.mp (parseInto_streaming.short (ParseResult.eq_of_verdict.mpr h) lt)
  · have said := parseInto_streaming.front (ParseResult.eq_of_verdict.mpr h) more
    exact ParseResult.eq_of_verdict.mp said
  · exact tilesMessage_of_complete cap near h
  · rw [← h]
    refine parseInto_agree (AgreeOn.append b more) ?_
    rw [h, ParseResult.settledBy_mk]

/-! ### An index that wraps around

Two messages of empty fields, read with no checks: one has a tag with leading zeros enough to take
the offsets past a `u32`, the other has fields enough to take the count past a `u16`. -/

/-- The `8=` and `9=` in front. -/
def emptyFront : Bytes := [0x38, EQ, SOH, 0x39, EQ, ZERO, SOH]

/-- An empty `10=` field. -/
def emptyTrailer : Bytes := [0x31, ZERO, EQ, SOH]

/-- A message whose one body tag, a 1, is written with `k` leading zeros. -/
def padded (k : ℕ) : Bytes :=
  emptyFront ++ (List.replicate k ZERO ++ [0x31, EQ, SOH] ++ emptyTrailer)

/-- A message of `k` empty body fields. -/
def crowded (k : ℕ) : Bytes :=
  emptyFront ++ ((List.replicate k [0x31, EQ, SOH]).flatten ++ emptyTrailer)

section Wraps

variable {trailerAt fuel pos tag : ℕ} {idx idx' : List FieldEntry} {text rest : Bytes}

theorem parseFields_empty (at_ : b.drop pos = text ++ EQ :: SOH :: rest)
    (reads : asU32? text = some tag) (digits : wrapU32 text.length ≠ 0) (inner : tag ≠ 10)
    (pushed : pushField N idx tag (pos + text.length + 1) 0 = .ok idx') :
    parseFields noDict N b v trailerAt (fuel + 1) pos idx =
      parseFields noDict N b v trailerAt fuel (pos + text.length + 2) idx' := by
  have read := readTag_eq_some_iff.mpr ⟨text, SOH :: rest, at_, reads, digits, rfl⟩
  have value : b.drop (pos + text.length + 1) = [] ++ SOH :: rest := by
    rw [Nat.add_assoc, show text.length + 1 = (text ++ [EQ]).length by simp]
    exact drop_of_drop (by simpa using at_)
  have ends : valueLength noDict b trailerAt idx tag (pos + text.length + 1) = .ok 0 :=
    valueLength_eq_ok_iff.mpr ⟨[], rest, value, rfl, List.not_mem_nil⟩
  rw [parseFields_succ read, if_neg inner, ends]
  simp only [pushed]

theorem parseFields_last (at_ : b.drop pos = emptyTrailer)
    (pushed : pushField N idx 10 (pos + 3) 0 = .ok idx') :
    parseFields noDict N b .none trailerAt (fuel + 1) pos idx =
      ⟨idx', .ok (.complete (pos + 4))⟩ := by
  have read : readTag b pos = .ok (some (10, pos + 3)) :=
    readTag_eq_some_iff.mpr ⟨[0x31, ZERO], [SOH], at_, by decide, by decide, rfl⟩
  have value : b.drop (pos + 3) = [] ++ SOH :: [] :=
    @drop_of_drop _ _ [0x31, ZERO, EQ] _ at_
  rw [parseFields_succ read, if_pos rfl]
  exact (parseTrailer_eq_complete_iff value List.not_mem_nil).mpr
    ⟨pushed, rfl, (fun on => by cases on), (fun on => by cases on)⟩

theorem parseInto_emptyFront (room : 2 ≤ N) :
    parseInto noDict N (emptyFront ++ rest) .none =
      parseFields noDict N (emptyFront ++ rest) .none 7 rest.length 7 [⟨8, 2, 0⟩, ⟨9, 5, 1⟩] := by
  have first : expectFrameTag (emptyFront ++ rest) 0 0x38 = none := rfl
  have second : expectFrameTag (emptyFront ++ rest) 3 0x39 = none := rfl
  have found₁ : findSoh (emptyFront ++ rest) 2 = some 2 := rfl
  have found₂ : findSoh (emptyFront ++ rest) 5 = some 6 := rfl
  have push₁ : pushField N [] 8 2 0 = .ok [⟨8, 2, 0⟩] :=
    pushField_eq (by decide) (by simp; omega) (by decide) (by decide)
  have push₂ : pushField N [⟨8, 2, 0⟩] 9 5 1 = .ok [⟨8, 2, 0⟩, ⟨9, 5, 1⟩] :=
    pushField_eq (by decide) (by simp; omega) (by decide) (by decide)
  have stated : asU32? ((((emptyFront ++ rest).drop 5)).take (6 - 5)) = some 0 := rfl
  have size : (emptyFront ++ rest).length - 7 = rest.length := by
    rw [List.length_append]
    exact Nat.add_sub_cancel_left _ _
  unfold parseInto
  rw [first, found₁]
  simp only [Nat.sub_self, push₁]
  unfold parseBody
  rw [second]
  simp only [found₂, stated, push₂, size]

theorem asU32Loop_zeros (k : ℕ) (xs : Bytes) :
    asU32Loop (List.replicate k ZERO ++ xs) (some 0) = asU32Loop xs (some 0) := by
  induction k with
  | zero => rfl
  | succ k ih => exact ih

end Wraps

/-- The parser's index of a padded message. -/
theorem parseInto_padded {k : ℕ} (digits : wrapU32 (k + 1) ≠ 0) :
    parseInto noDict 4 (padded k) .none =
      ⟨[⟨8, 2, 0⟩, ⟨9, 5, 1⟩, ⟨1, wrapU32 (k + 9), 0⟩, ⟨10, wrapU32 (k + 13), 0⟩],
        .ok (.complete (k + 14))⟩ := by
  have at₁ : (padded k).drop 7 = (List.replicate k ZERO ++ [0x31]) ++ EQ :: SOH :: emptyTrailer := by
    simp [padded, emptyFront]
  have size : (List.replicate k ZERO ++ [(0x31 : UInt8)]).length = k + 1 := by simp
  have at₂ : (padded k).drop (k + 10) = emptyTrailer := by
    have := @drop_of_drop _ _ ((List.replicate k ZERO ++ [0x31]) ++ [EQ, SOH])
      emptyTrailer (by simpa using at₁)
    rw [← this]
    congr 1
    simp
    omega
  have reads : asU32? (List.replicate k ZERO ++ [0x31]) = some 1 :=
    asU32?_eq_some_iff.mpr ⟨by simp, (asU32Loop_zeros k _).trans rfl⟩
  have push₁ : pushField 4 [⟨8, 2, 0⟩, ⟨9, 5, 1⟩] 1
      (7 + (List.replicate k ZERO ++ [(0x31 : UInt8)]).length + 1) 0 =
      .ok [⟨8, 2, 0⟩, ⟨9, 5, 1⟩, ⟨1, wrapU32 (k + 9), 0⟩] := by
    rw [pushField_wrap (by decide) (by decide) (by decide), size,
      show 7 + (k + 1) + 1 = k + 9 by omega]
    rfl
  have push₂ : pushField 4 [⟨8, 2, 0⟩, ⟨9, 5, 1⟩, ⟨1, wrapU32 (k + 9), 0⟩] 10 (k + 10 + 3) 0 =
      .ok [⟨8, 2, 0⟩, ⟨9, 5, 1⟩, ⟨1, wrapU32 (k + 9), 0⟩, ⟨10, wrapU32 (k + 13), 0⟩] :=
    pushField_wrap (by decide) (by simp) (by simp [u16Max])
  have fuel : (List.replicate k ZERO ++ [0x31, EQ, SOH] ++ emptyTrailer).length = k + 5 + 1 + 1 := by
    simp [emptyTrailer]
  rw [padded, parseInto_emptyFront (by decide), ← padded, fuel,
    parseFields_empty at₁ reads (by rwa [size]) (by decide) push₁, size,
    show 7 + (k + 1) + 2 = k + 10 by omega, parseFields_last at₂ push₂]

theorem parseFields_crowded {trailerAt fuel pos j : ℕ} {idx : List FieldEntry}
    (at_ : b.drop pos = (List.replicate j [0x31, EQ, SOH]).flatten ++ emptyTrailer)
    (count : idx.length + j = u16Max) (enough : j < fuel) :
    parseFields noDict 65536 b .none trailerAt fuel pos idx =
      ⟨[], .ok (.complete (pos + 3 * j + 4))⟩ := by
  induction j generalizing fuel pos idx with
  | zero =>
    obtain ⟨fuel, rfl⟩ : ∃ m, fuel = m + 1 := ⟨fuel - 1, by omega⟩
    have full : idx.length = u16Max := count
    refine parseFields_last at_ ?_
    unfold pushField
    rw [if_neg (by decide), if_neg (by rw [full]; decide), if_pos full]
  | succ j ih =>
    obtain ⟨fuel, rfl⟩ : ∃ m, fuel = m + 1 := ⟨fuel - 1, by omega⟩
    have small : u16Max = 65535 := rfl
    have here : b.drop pos = [0x31] ++ EQ :: SOH ::
        ((List.replicate j [0x31, EQ, SOH]).flatten ++ emptyTrailer) := at_
    have push := @pushField_wrap 65536 idx 1
      (pos + [(0x31 : UInt8)].length + 1) 0 (by decide) (by omega) (by omega)
    have next := @drop_of_drop _ _ [0x31, EQ, SOH] _ here
    rw [parseFields_empty here (by decide) (by decide) (by decide) push]
    rw [show pos + [(0x31 : UInt8)].length + 2 = pos + [(0x31 : UInt8), EQ, SOH].length from rfl,
      ih next (by rw [List.length_append, List.length_singleton]; omega) (by omega)]
    rw [show pos + [(0x31 : UInt8), EQ, SOH].length + 3 * j + 4 = pos + 3 * (j + 1) + 4 by
      simp only [List.length_cons, List.length_nil]; omega]

theorem length_bodies (k : ℕ) : (List.replicate k [(0x31 : UInt8), EQ, SOH]).flatten.length = 3 * k := by
  induction k with
  | zero => rfl
  | succ k ih =>
    rw [List.replicate_succ, List.flatten_cons, List.length_append, ih]
    simp only [List.length_cons, List.length_nil]
    omega

/-- The parser's index of a crowded message. -/
theorem parseInto_crowded :
    parseInto noDict 65536 (crowded 65533) .none = ⟨[], .ok (.complete 196610)⟩ := by
  have size : ((List.replicate 65533 [(0x31 : UInt8), EQ, SOH]).flatten ++ emptyTrailer).length =
      196603 := by
    rw [List.length_append, length_bodies]
    rfl
  have at_ : (crowded 65533).drop 7 =
      (List.replicate 65533 [(0x31 : UInt8), EQ, SOH]).flatten ++ emptyTrailer := by
    rw [crowded, show (7 : ℕ) = emptyFront.length from rfl, List.drop_left]
  rw [crowded, parseInto_emptyFront (by decide), ← crowded, size]
  exact @parseFields_crowded _ _ 196603 _ _ [⟨8, 2, 0⟩, ⟨9, 5, 1⟩] at_ (by decide)
    (by decide)

/-- The index of a message of more than 4 GiB, and that of one of 65536 fields, do not point at the
fields. -/
theorem index_loses_place :
    (∃ idx n, parseInto noDict 4 (padded 4294967292) .none = ⟨idx, .ok (.complete n)⟩ ∧
      ¬ TilesMessage (padded 4294967292) idx n) ∧
    ∃ idx n, parseInto noDict 65536 (crowded 65533) .none = ⟨idx, .ok (.complete n)⟩ ∧
      ¬ TilesMessage (crowded 65533) idx n := by
  constructor
  · refine ⟨_, _, parseInto_padded (by decide), fun tiles => ?_⟩
    obtain ⟨-, -, -, -, ⟨⟨text, -, -, place⟩, -⟩⟩ := tiles.1
    have : wrapU32 (4294967292 + 9) = 5 + 1 + 1 + text.length + 1 := place
    simp only [wrapU32, u32Size] at this
    omega
  · refine ⟨_, _, parseInto_crowded, fun tiles => ?_⟩
    cases tiles.2.1

end Fixbolt
