import Fixbolt.Codec.Wire

/-!
# Messages a parser takes whole

A `FramedMessage` is a list of fields that lie end to end as the parser wants them: `8=`, `9=`, a
body and a `10=`, with every DATA value right behind the field that states its length.

* `parseInto_sound`: what the parser takes is such a message, and its index is where the fields lie;
* `parseInto_complete`: the parser takes every such message, whatever follows it.
-/

namespace Fixbolt

variable {D : Dictionary} {N : ℕ} {buf : Bytes} {v : Validation}

/-- May `f` stand right behind `prev`, so that it ends where a reader takes it to end? A DATA value
is as long as the field in front of it says, any other value ends at the first separator. -/
def Leads (D : Dictionary) (prev f : ℕ × Bytes) : Prop :=
  match D.dataLengthTag f.1 with
  | some lenTag => prev.1 = lenTag ∧ asU32? prev.2 = some f.2.length
  | none => SOH ∉ f.2

/-- `Leads` for fields as the wire has them. -/
def WireField.Leads (D : Dictionary) (prev f : WireField) : Prop := Fixbolt.Leads D prev.pair f.pair

/-- A message that a parser with the checks `v` takes whole. -/
structure FramedMessage (D : Dictionary) (v : Validation) where
  begin_ : WireField
  bodyLength : WireField
  body : List WireField
  trailer : WireField
  begin_text : begin_.text = [0x38]
  begin_value : SOH ∉ begin_.value
  bodyLength_text : bodyLength.text = [0x39]
  bodyLength_value : SOH ∉ bodyLength.value
  declared : ∃ n, asU32? bodyLength.value = some n ∧ (v.bodyLength → n = (spell body).length)
  chain : List.IsChain (WireField.Leads D) (bodyLength :: body)
  inner : ∀ f ∈ body, f.tag ≠ 10
  trailer_tag : trailer.tag = 10
  trailer_value : SOH ∉ trailer.value
  sum : v.checkSum → trailer.value.length = 3 ∧ asU32? trailer.value =
    some (checksum (begin_.bytes ++ bodyLength.bytes ++ spell body)).toNat
  short : ∀ f ∈ begin_ :: bodyLength :: (body ++ [trailer]), f.value.length ≤ u16Max

namespace FramedMessage

/-- The fields in wire order. -/
def fields (m : FramedMessage D v) : List WireField :=
  m.begin_ :: m.bodyLength :: (m.body ++ [m.trailer])

/-- The bytes of the message. -/
def bytes (m : FramedMessage D v) : Bytes := spell m.fields

theorem begin_tag (m : FramedMessage D v) : m.begin_.tag = 8 := by
  have := m.begin_.reads
  rw [m.begin_text] at this
  exact (Option.some.inj this).symm

theorem bodyLength_tag (m : FramedMessage D v) : m.bodyLength.tag = 9 := by
  have := m.bodyLength.reads
  rw [m.bodyLength_text] at this
  exact (Option.some.inj this).symm

end FramedMessage

/-! ### What one field is -/

theorem pushField_wrap {idx : List FieldEntry} {tag offset len : ℕ} (short : len ≤ u16Max)
    (room : idx.length < N) (count : idx.length < u16Max) :
    pushField N idx tag offset len = .ok (idx ++ [⟨tag, wrapU32 offset, len⟩]) := by
  unfold pushField
  rw [if_neg (by omega), if_neg (by omega), if_neg (by omega)]

theorem pushField_eq {idx : List FieldEntry} {tag offset len : ℕ} (short : len ≤ u16Max)
    (room : idx.length < N) (count : idx.length < u16Max) (near : offset < u32Size) :
    pushField N idx tag offset len = .ok (idx ++ [⟨tag, offset, len⟩]) := by
  rw [pushField_wrap short room count, wrapU32, Nat.mod_eq_of_lt near]

theorem pushField_some {idx idx' : List FieldEntry} {tag offset len : ℕ} (cap : N ≤ u16Max)
    (near : offset < u32Size) (h : pushField N idx tag offset len = .ok idx') :
    len ≤ u16Max ∧ idx' = idx ++ [⟨tag, offset, len⟩] := by
  obtain ⟨short, room, rfl⟩ := pushField_ok h
  rw [if_neg (by omega), wrapU32, Nat.mod_eq_of_lt near]
  exact ⟨short, rfl⟩

theorem slice_of_drop {at_ : ℕ} {value rest : Bytes} (h : buf.drop at_ = value ++ rest) :
    slice buf at_ value.length = some value ∨ buf.length < at_ := by
  by_cases le : at_ ≤ buf.length
  · left
    have len := congrArg List.length h
    rw [List.length_drop, List.length_append] at len
    unfold slice
    rw [if_pos (by omega), h, List.take_left]
  · exact .inr (by omega)

theorem drop_of_drop {at_ : ℕ} {front rest : Bytes} (h : buf.drop at_ = front ++ rest) :
    buf.drop (at_ + front.length) = rest := by
  rw [← List.drop_drop, h, List.drop_left]

theorem getElem?_eq_some_iff_drop {at_ n : ℕ} {b : UInt8} :
    buf[at_ + n]? = some b ↔
      ∃ value rest, buf.drop at_ = value ++ b :: rest ∧ value.length = n := by
  rw [← List.getElem?_drop]
  constructor
  · intro h
    obtain ⟨lt, rfl⟩ := List.getElem?_eq_some_iff.mp h
    refine ⟨(buf.drop at_).take n, (buf.drop at_).drop (n + 1), ?_, ?_⟩
    · rw [List.getElem_cons_drop, List.take_append_drop]
    · rw [List.length_take]
      omega
  · rintro ⟨value, rest, eq, rfl⟩
    simp [eq]

theorem valueLength_ne_complete {trailerAt : ℕ} {idx : List FieldEntry} {tag valStart n : ℕ} :
    valueLength D buf trailerAt idx tag valStart ≠ .error (.ok (.complete n)) := by
  unfold valueLength
  repeat' split
  all_goals simp

/-- How long a value is, when the reader can tell. -/
theorem valueLength_eq_ok_iff {trailerAt : ℕ} {idx : List FieldEntry} {tag valStart len : ℕ} :
    valueLength D buf trailerAt idx tag valStart = .ok len ↔
      ∃ value rest, buf.drop valStart = value ++ SOH :: rest ∧ len = value.length ∧
        match D.dataLengthTag tag with
        | some lenTag => valStart + len ≤ trailerAt ∧ ∃ prev, idx.getLast? = some prev ∧
            prev.tag = lenTag ∧ (slice buf prev.offset prev.len).bind asU32? = some len
        | none => SOH ∉ value := by
  unfold valueLength
  cases isData : D.dataLengthTag tag with
  | none =>
    constructor
    · intro h
      cases found : findSoh buf valStart with
      | none => simp [found] at h
      | some soh =>
        simp only [found, Except.ok.injEq] at h
        obtain ⟨value, rest, eq, none, rfl⟩ := findSoh_eq_some_iff.mp found
        exact ⟨value, rest, eq, by omega, none⟩
    · rintro ⟨value, rest, eq, rfl, none⟩
      have found := findSoh_eq_some_iff.mpr ⟨value, rest, eq, none, rfl⟩
      simp [found]
  | some lenTag =>
    constructor
    · intro h
      cases last : idx.getLast? with
      | none => simp [last] at h
      | some prev =>
        simp only [last] at h
        split at h
        · cases h
        rename_i same
        cases stated : (slice buf prev.offset prev.len).bind asU32? with
        | none => simp [stated] at h
        | some n =>
          simp only [stated] at h
          split at h
          · cases h
          rename_i inside
          cases at_ : buf[valStart + n]? with
          | none => simp [at_] at h
          | some b =>
            simp only [at_] at h
            split at h
            · rename_i isSoh
              cases h
              subst isSoh
              obtain ⟨value, rest, eq, rfl⟩ := getElem?_eq_some_iff_drop.mp at_
              exact ⟨value, rest, eq, rfl, by omega, prev, rfl, by simpa using same, stated⟩
            · cases h
    · rintro ⟨value, rest, eq, rfl, inside, prev, last, rfl, stated⟩
      have at_ : buf[valStart + value.length]? = some SOH :=
        getElem?_eq_some_iff_drop.mpr ⟨value, rest, eq, rfl⟩
      have inside : ¬ trailerAt < valStart + value.length := by omega
      simp [last, stated, inside, at_]

/-! ### What the parser takes -/

/-- The fields from `pos` to the end of a message, behind the field `prev`. -/
structure Closes (D : Dictionary) (v : Validation) (buf : Bytes) (trailerAt pos : ℕ)
    (prev : WireField) (body : List WireField) (trailer : WireField) : Prop where
  here : ∃ rest, buf.drop pos = spell (body ++ [trailer]) ++ rest
  chain : List.IsChain (WireField.Leads D) (prev :: body)
  inner : ∀ f ∈ body, f.tag ≠ 10
  short : ∀ f ∈ body ++ [trailer], f.value.length ≤ u16Max
  trailer_tag : trailer.tag = 10
  trailer_value : SOH ∉ trailer.value
  declared : v.bodyLength → pos + (spell body).length = trailerAt
  sum : v.checkSum → trailer.value.length = 3 ∧
    asU32? trailer.value = some (checksum (buf.take (pos + (spell body).length))).toNat

theorem near_of_drop {at_ : ℕ} {b : UInt8} {value rest : Bytes} (small : buf.length ≤ u32Size)
    (h : buf.drop at_ = value ++ b :: rest) : at_ + value.length < u32Size := by
  have len := congrArg List.length h
  simp only [List.length_drop, List.length_append, List.length_cons] at len
  omega

/-- What the parser does with a `10=` field that has its separator. -/
theorem parseTrailer_eq_complete_iff {trailerAt pos at_ n : ℕ} {idx idx' : List FieldEntry}
    {value rest : Bytes} (eq : buf.drop at_ = value ++ SOH :: rest) (none : SOH ∉ value) :
    parseTrailer N buf v trailerAt pos at_ idx = ⟨idx', .ok (.complete n)⟩ ↔
      pushField N idx 10 at_ value.length = .ok idx' ∧ n = at_ + value.length + 1 ∧
        (v.bodyLength → pos = trailerAt) ∧
        (v.checkSum → value.length = 3 ∧ asU32? value = some (checksum (buf.take pos)).toNat) := by
  have found := findSoh_eq_some_iff.mpr ⟨value, rest, eq, none, rfl⟩
  have taken : (buf.drop at_).take value.length = value := by rw [eq, List.take_left]
  unfold parseTrailer
  simp only [found, Nat.add_sub_cancel_left, taken]
  cases pushed : pushField N idx 10 at_ value.length with
  | error e => simp
  | ok idx₁ =>
    simp only [Except.ok.injEq]
    by_cases body : (v.bodyLength && pos != trailerAt) = true
    · rw [if_pos body]
      have : v.bodyLength = true ∧ pos ≠ trailerAt := by simpa using body
      simp [this]
    · rw [if_neg body]
      have body : v.bodyLength = true → pos = trailerAt := by simpa using body
      by_cases on : v.checkSum = true
      · rw [if_pos on]
        by_cases three : value.length = 3
        · rw [if_neg (by simpa using three)]
          cases reads : asU32? value with
          | none => simp [on]
          | some want =>
            by_cases same : want = (checksum (buf.take pos)).toNat
            · simpa [on, same, three] using
                fun _ => ⟨fun e => ⟨e.symm, body⟩, fun e => e.1.symm⟩
            · simp [on, same]
        · rw [if_pos three]
          simp [on, three]
      · rw [if_neg on]
        simpa [on] using fun _ => ⟨fun e => ⟨e.symm, body⟩, fun e => e.1.symm⟩

theorem parseTrailer_sound {trailerAt pos n : ℕ} {prev : WireField} {idx idx' : List FieldEntry}
    {text rest : Bytes} (cap : N ≤ u16Max) (small : buf.length ≤ u32Size)
    (at_ : buf.drop pos = text ++ EQ :: rest) (reads : asU32? text = some 10)
    (digits : wrapU32 text.length ≠ 0)
    (h : parseTrailer N buf v trailerAt pos (pos + text.length + 1) idx =
      ⟨idx', .ok (.complete n)⟩) :
    ∃ trailer, Closes D v buf trailerAt pos prev [] trailer ∧
      idx' = idx ++ [trailer.entry pos] ∧ n = pos + trailer.bytes.length := by
  have behind : buf.drop (pos + text.length + 1) = rest := by
    rw [Nat.add_assoc, show text.length + 1 = (text ++ [EQ]).length by simp]
    exact drop_of_drop (by simpa using at_)
  cases found : findSoh buf (pos + text.length + 1) with
  | none => simp [parseTrailer, found] at h
  | some soh =>
    obtain ⟨value, rest', eq, none, rfl⟩ := findSoh_eq_some_iff.mp found
    obtain ⟨pushed, rfl, body, sum⟩ := (parseTrailer_eq_complete_iff eq none).mp h
    have near := near_of_drop small eq
    obtain ⟨short, rfl⟩ := pushField_some cap (by omega) pushed
    refine ⟨⟨text, value, 10, reads, digits⟩, ?_, rfl, ?_⟩
    · exact
        { here := ⟨rest', by rw [at_, ← behind, eq]; simp [WireField.bytes]⟩
          chain := .singleton _
          inner := by simp
          short := by simpa using short
          trailer_tag := rfl
          trailer_value := none
          declared := body
          sum := sum }
    · simp only [WireField.bytes_length]
      omega

/-- One more field in front of the fields that close a message. -/
theorem Closes.cons {trailerAt pos : ℕ} {prev f trailer : WireField} {body : List WireField}
    (h : Closes D v buf trailerAt (pos + f.bytes.length) f body trailer)
    (at_ : ∃ rest, buf.drop pos = f.bytes ++ rest) (leads : prev.Leads D f)
    (inner : f.tag ≠ 10) (short : f.value.length ≤ u16Max) :
    Closes D v buf trailerAt pos prev (f :: body) trailer := by
  obtain ⟨rest, at_⟩ := at_
  have length : pos + (spell (f :: body)).length = pos + f.bytes.length + (spell body).length := by
    rw [spell_cons, List.length_append, Nat.add_assoc]
  exact
    { here := by
        obtain ⟨rest', here⟩ := h.here
        rw [drop_of_drop at_] at here
        exact ⟨rest', by rw [at_, here, List.cons_append, spell_cons, List.append_assoc]⟩
      chain := List.isChain_cons_cons.mpr ⟨leads, h.chain⟩
      inner := List.forall_mem_cons.mpr ⟨inner, h.inner⟩
      short := List.forall_mem_cons.mpr ⟨short, h.short⟩
      trailer_tag := h.trailer_tag
      trailer_value := h.trailer_value
      declared := by rw [length]; exact h.declared
      sum := by rw [length]; exact h.sum }

/-- The entry in front of the cursor is that of the field `prev`. -/
def Stands (buf : Bytes) (idx : List FieldEntry) (prev : WireField) : Prop :=
  ∃ e, idx.getLast? = some e ∧ e.tag = prev.tag ∧ slice buf e.offset e.len = some prev.value

theorem stands_append {pos : ℕ} {idx : List FieldEntry} {f : WireField} {rest : Bytes}
    (at_ : buf.drop pos = f.bytes ++ rest) : Stands buf (idx ++ [f.entry pos]) f := by
  refine ⟨f.entry pos, by simp, rfl, ?_⟩
  have value : buf.drop (pos + f.text.length + 1) = f.value ++ (SOH :: rest) := by
    rw [Nat.add_assoc, show f.text.length + 1 = (f.text ++ [EQ]).length by simp]
    exact drop_of_drop (by simpa [WireField.bytes] using at_)
  have some := getElem?_eq_some_iff_drop.mpr ⟨_, _, value, rfl⟩
  obtain ⟨inside, -⟩ := List.getElem?_eq_some_iff.mp some
  exact (slice_of_drop value).resolve_right (by omega)

/-- A value that ends where the reader says makes a field that ends behind the one in front. -/
theorem leads_of_valueLength {idx : List FieldEntry} {prev f : WireField} {trailerAt at_ : ℕ}
    (stands : Stands buf idx prev)
    (h : match D.dataLengthTag f.tag with
      | some lenTag => at_ + f.value.length ≤ trailerAt ∧ ∃ e, idx.getLast? = some e ∧
          e.tag = lenTag ∧ (slice buf e.offset e.len).bind asU32? = some f.value.length
      | none => SOH ∉ f.value) : prev.Leads D f := by
  unfold WireField.Leads Leads WireField.pair
  cases isData : D.dataLengthTag f.tag with
  | none => rwa [isData] at h
  | some lenTag =>
    rw [isData] at h
    obtain ⟨-, e, last, rfl, stated⟩ := h
    obtain ⟨e', last', tag, value⟩ := stands
    obtain rfl : e' = e := Option.some.inj (last'.symm.trans last)
    rw [value] at stated
    exact ⟨tag.symm, stated⟩

/-- **What the field loop takes closes a message.** -/
theorem parseFields_sound (cap : N ≤ u16Max) (small : buf.length ≤ u32Size) {trailerAt fuel pos n : ℕ}
    {prev : WireField} {idx idx' : List FieldEntry} (stands : Stands buf idx prev)
    (h : parseFields D N buf v trailerAt fuel pos idx = ⟨idx', .ok (.complete n)⟩) :
    ∃ body trailer, Closes D v buf trailerAt pos prev body trailer ∧
      idx' = idx ++ entriesAt pos (body ++ [trailer]) ∧
      n = pos + (spell (body ++ [trailer])).length := by
  induction fuel generalizing pos idx prev with
  | zero => cases h
  | succ fuel ih =>
    unfold parseFields at h
    split at h
    · cases h
    cases read : readTag buf pos with
    | error e => simp [read] at h
    | ok found =>
      cases found with
      | none => simp [read] at h
      | some found =>
        obtain ⟨tag, valStart⟩ := found
        simp only [read] at h
        obtain ⟨text, rest, at_, reads, digits, rfl⟩ := readTag_eq_some_iff.mp read
        split at h
        · rename_i last
          subst last
          obtain ⟨trailer, closes, rfl, rfl⟩ := parseTrailer_sound cap small at_ reads digits h
          exact ⟨[], trailer, closes, by simp [entriesAt], by simp⟩
        rename_i inner
        cases ends : valueLength D buf trailerAt idx tag (pos + text.length + 1) with
        | error stop =>
          simp only [ends, ParseResult.mk.injEq] at h
          exact absurd (h.2 ▸ ends) valueLength_ne_complete
        | ok len =>
          simp only [ends] at h
          obtain ⟨value, rest', eq, rfl, stated⟩ := valueLength_eq_ok_iff.mp ends
          have near := near_of_drop small eq
          let f : WireField := ⟨text, value, tag, reads, digits⟩
          have here : buf.drop pos = f.bytes ++ rest' := by
            have behind : buf.drop (pos + (text ++ [EQ]).length) = rest :=
              drop_of_drop (by simpa using at_)
            rw [List.length_append, List.length_singleton, ← Nat.add_assoc, eq] at behind
            rw [at_, ← behind]
            simp [f, WireField.bytes]
          cases pushed : pushField N idx tag (pos + text.length + 1) value.length with
          | error e => simp [pushed] at h
          | ok idx₁ =>
            obtain ⟨short, rfl⟩ := pushField_some cap (by omega) pushed
            simp only [pushed] at h
            have next : pos + text.length + 1 + value.length + 1 = pos + f.bytes.length := by
              rw [f.bytes_length]
              simp only [f]
              omega
            rw [next] at h
            obtain ⟨body, trailer, closes, rfl, rfl⟩ := @ih _ f _ (stands_append here) h
            refine ⟨f :: body, trailer, closes.cons ⟨rest', here⟩ ?_ inner short, ?_, ?_⟩
            · exact leads_of_valueLength (f := f) stands stated
            · simp [entriesAt, f, WireField.entry]
            · simp [Nat.add_assoc]

theorem expectFrameTag_eq_none_iff {pos : ℕ} {tag : UInt8} :
    expectFrameTag buf pos tag = none ↔ ∃ rest, buf.drop pos = [tag, EQ] ++ rest := by
  unfold expectFrameTag
  constructor
  · intro h
    cases first : buf[pos]? with
    | none => simp [first] at h
    | some b =>
      cases second : buf[pos + 1]? with
      | none =>
        simp only [first, second] at h
        split at h <;> cases h
      | some c =>
        simp only [first, second, ne_eq, ite_not] at h
        split at h
        · rename_i isTag
          split at h
          · rename_i isEq
            obtain ⟨lt, rfl⟩ := List.getElem?_eq_some_iff.mp first
            obtain ⟨lt', rfl⟩ := List.getElem?_eq_some_iff.mp second
            refine ⟨buf.drop (pos + 2), ?_⟩
            rw [List.drop_eq_getElem_cons lt, List.drop_eq_getElem_cons lt', isTag, isEq]
            rfl
          · cases h
        · cases h
  · rintro ⟨rest, eq⟩
    have first : buf[pos]? = some tag := by
      rw [← Nat.add_zero pos, ← List.getElem?_drop, eq]
      rfl
    have second : buf[pos + 1]? = some EQ := by
      rw [← List.getElem?_drop, eq]
      rfl
    simp [first, second]

theorem expectFrameTag_ne_complete {pos n : ℕ} {tag : UInt8} :
    expectFrameTag buf pos tag ≠ some (.ok (.complete n)) := by
  unfold expectFrameTag
  repeat' split
  all_goals simp

/-- A field whose one-digit tag the parser looked for, and whose value ends at a separator. -/
theorem frameField_at {pos soh : ℕ} {tag : UInt8} {rest : Bytes}
    (at_ : buf.drop pos = [tag, EQ] ++ rest) (found : findSoh buf (pos + 2) = some soh)
    (reads : asU32? [tag] = some (tag.toNat - 0x30)) :
    ∃ f : WireField, f.text = [tag] ∧ f.tag = tag.toNat - 0x30 ∧ SOH ∉ f.value ∧
      soh = pos + 2 + f.value.length ∧ ∃ rest', buf.drop pos = f.bytes ++ rest' := by
  obtain ⟨value, rest', eq, none, rfl⟩ := findSoh_eq_some_iff.mp found
  refine ⟨⟨[tag], value, tag.toNat - 0x30, reads, Nat.one_ne_zero⟩, rfl, rfl, none, rfl, rest', ?_⟩
  have behind := drop_of_drop at_
  rw [show pos + [tag, EQ].length = pos + 2 from rfl, eq] at behind
  rw [at_, ← behind]
  simp [WireField.bytes]

/-- What the parser takes from `9=` on. -/
theorem parseBody_sound {idx idx' : List FieldEntry} {soh n : ℕ} (cap : N ≤ u16Max)
    (small : buf.length ≤ u32Size)
    (h : parseBody D N buf v soh idx = ⟨idx', .ok (.complete n)⟩) :
    ∃ (bodyLength trailer : WireField) (body : List WireField) (declared : ℕ),
      bodyLength.text = [0x39] ∧ SOH ∉ bodyLength.value ∧ bodyLength.value.length ≤ u16Max ∧
      asU32? bodyLength.value = some declared ∧
      (∃ rest, buf.drop (soh + 1) = bodyLength.bytes ++ rest) ∧
      Closes D v buf (soh + 1 + bodyLength.bytes.length + declared)
        (soh + 1 + bodyLength.bytes.length) bodyLength body trailer ∧
      idx' = idx ++ entriesAt (soh + 1) (bodyLength :: (body ++ [trailer])) ∧
      n = soh + 1 + (spell (bodyLength :: (body ++ [trailer]))).length := by
  unfold parseBody at h
  cases second : expectFrameTag buf (soh + 1) 0x39 with
  | some stop =>
    simp only [second, ParseResult.mk.injEq] at h
    exact absurd (h.2 ▸ second) expectFrameTag_ne_complete
  | none =>
    obtain ⟨rest, at_⟩ := expectFrameTag_eq_none_iff.mp second
    simp only [second] at h
    cases found : findSoh buf (soh + 3) with
    | none => simp [found] at h
    | some soh₂ =>
      simp only [found] at h
      obtain ⟨bodyLength, text, tag, value, rfl, rest, at_⟩ :=
        @frameField_at _ _ soh₂ _ _ at_ found (by decide)
      have length : bodyLength.bytes.length = bodyLength.value.length + 3 := by
        rw [bodyLength.bytes_length, text, List.length_singleton]
        omega
      have behind : buf.drop (soh + 3) = bodyLength.value ++ SOH :: rest := by
        have : bodyLength.bytes ++ rest = [0x39, EQ] ++ (bodyLength.value ++ SOH :: rest) := by
          simp [WireField.bytes, text]
        exact drop_of_drop (at_.trans this)
      have near := near_of_drop small behind
      have width : soh + 1 + 2 + bodyLength.value.length - (soh + 3) = bodyLength.value.length := by
        omega
      rw [width, behind, List.take_left] at h
      cases stated : asU32? bodyLength.value with
      | none => simp [stated] at h
      | some declared =>
        simp only [stated] at h
        cases pushed : pushField N idx 9 (soh + 3) bodyLength.value.length with
        | error e => simp [pushed] at h
        | ok idx₁ =>
          obtain ⟨short, rfl⟩ := pushField_some cap (by omega) pushed
          simp only [pushed] at h
          have entry : (⟨9, soh + 3, bodyLength.value.length⟩ : FieldEntry) =
              bodyLength.entry (soh + 1) := by
            simp [WireField.entry, text, tag]
          have next : soh + 1 + 2 + bodyLength.value.length + 1 =
              soh + 1 + bodyLength.bytes.length := by omega
          rw [entry, next] at h
          obtain ⟨body, trailer, closes, rfl, rfl⟩ :=
            parseFields_sound cap small (stands_append at_) h
          refine ⟨bodyLength, trailer, body, declared, text, value, short, stated, ⟨rest, at_⟩,
            closes, ?_, ?_⟩
          · simp [entriesAt]
          · simp [Nat.add_assoc]

/-- **What the parser takes is a framed message**, and its index is where the fields lie. -/
theorem parseInto_sound {idx : List FieldEntry} {n : ℕ} (cap : N ≤ u16Max)
    (small : buf.length ≤ u32Size) (h : parseInto D N buf v = ⟨idx, .ok (.complete n)⟩) :
    ∃ m : FramedMessage D v, ∃ rest, buf = m.bytes ++ rest ∧ idx = entriesAt 0 m.fields ∧
      n = m.bytes.length := by
  unfold parseInto at h
  cases first : expectFrameTag buf 0 0x38 with
  | some stop =>
    simp only [first, ParseResult.mk.injEq] at h
    exact absurd (h.2 ▸ first) expectFrameTag_ne_complete
  | none =>
    obtain ⟨rest, at_⟩ := expectFrameTag_eq_none_iff.mp first
    simp only [first] at h
    cases found : findSoh buf 2 with
    | none => simp [found] at h
    | some soh =>
      simp only [found] at h
      obtain ⟨begin_, text, tag, value, rfl, rest, at_⟩ :=
        @frameField_at _ 0 _ _ _ at_ found (by decide)
      rw [List.drop_zero] at at_
      have length : 0 + 2 + begin_.value.length + 1 = begin_.bytes.length := by
        rw [begin_.bytes_length, text, List.length_singleton]
        omega
      rw [show 0 + 2 + begin_.value.length - 2 = begin_.value.length by omega] at h
      cases pushed : pushField N [] 8 2 begin_.value.length with
      | error e => simp [pushed] at h
      | ok idx₁ =>
        obtain ⟨short, rfl⟩ := pushField_some cap (by decide) pushed
        simp only [pushed] at h
        obtain ⟨bodyLength, trailer, body, declared, text₂, value₂, short₂, stated, ⟨rest₂, at₂⟩,
          closes, rfl, rfl⟩ := parseBody_sound cap small h
        rw [length] at closes at₂
        obtain ⟨rest₃, here⟩ := closes.here
        have fields : buf = spell (begin_ :: bodyLength :: (body ++ [trailer])) ++ rest₃ := by
          rw [drop_of_drop at₂] at here
          have behind := @drop_of_drop _ 0 _ _ (by simpa using at_)
          rw [Nat.zero_add, at₂] at behind
          rw [at_, ← behind, here]
          simp
        refine ⟨
          { begin_, bodyLength, body, trailer
            begin_text := text
            begin_value := value
            bodyLength_text := text₂
            bodyLength_value := value₂
            declared := ⟨declared, stated, fun on => ?_⟩
            chain := closes.chain
            inner := closes.inner
            trailer_tag := closes.trailer_tag
            trailer_value := closes.trailer_value
            sum := fun on => ?_
            short := List.forall_mem_cons.mpr ⟨short,
              List.forall_mem_cons.mpr ⟨short₂, closes.short⟩⟩ }, rest₃, fields, ?_, ?_⟩
        · have := closes.declared on
          omega
        · have front : buf.take (begin_.bytes.length + bodyLength.bytes.length +
              (spell body).length) = begin_.bytes ++ bodyLength.bytes ++ spell body := by
            rw [fields, ← List.length_append, ← List.length_append]
            have : spell (begin_ :: bodyLength :: (body ++ [trailer])) =
                begin_.bytes ++ bodyLength.bytes ++ spell body ++ trailer.bytes := by simp
            rw [this, List.append_assoc _ trailer.bytes, List.take_left]
          have := closes.sum on
          rwa [front] at this
        · have entry : (⟨8, 2, begin_.value.length⟩ : FieldEntry) = begin_.entry 0 := by
            simp [WireField.entry, text, tag]
          rw [entry, length]
          simp [FramedMessage.fields, entriesAt]
        · rw [length]
          simp [FramedMessage.fields, FramedMessage.bytes]

/-! ### Every framed message is taken -/

theorem Closes.tail {trailerAt pos : ℕ} {prev f trailer : WireField} {body : List WireField}
    (h : Closes D v buf trailerAt pos prev (f :: body) trailer) :
    Closes D v buf trailerAt (pos + f.bytes.length) f body trailer := by
  have length : pos + (spell (f :: body)).length = pos + f.bytes.length + (spell body).length := by
    rw [spell_cons, List.length_append, Nat.add_assoc]
  exact
    { here := by
        obtain ⟨rest, here⟩ := h.here
        rw [List.cons_append, spell_cons, List.append_assoc] at here
        exact ⟨rest, drop_of_drop here⟩
      chain := (List.isChain_cons_cons.mp h.chain).2
      inner := (List.forall_mem_cons.mp h.inner).2
      short := (List.forall_mem_cons.mp h.short).2
      trailer_tag := h.trailer_tag
      trailer_value := h.trailer_value
      declared := by rw [← length]; exact h.declared
      sum := by rw [← length]; exact h.sum }

/-- What stands at a field: its tag, and behind it its value. -/
theorem reads_at {pos : ℕ} {f : WireField} {rest : Bytes} (at_ : buf.drop pos = f.bytes ++ rest) :
    readTag buf pos = .ok (some (f.tag, pos + f.text.length + 1)) ∧
      buf.drop (pos + f.text.length + 1) = f.value ++ SOH :: rest := by
  constructor
  · refine readTag_eq_some_iff.mpr ⟨f.text, f.value ++ SOH :: rest, ?_, f.reads, f.digits, rfl⟩
    rw [at_]
    simp [WireField.bytes]
  · rw [Nat.add_assoc, show f.text.length + 1 = (f.text ++ [EQ]).length by simp]
    exact drop_of_drop (by simpa [WireField.bytes] using at_)

theorem valueLength_of_leads {trailerAt at_ : ℕ} {idx : List FieldEntry} {prev f : WireField}
    {rest : Bytes} (stands : Stands buf idx prev) (leads : prev.Leads D f)
    (value : buf.drop at_ = f.value ++ SOH :: rest) (inside : at_ + f.value.length ≤ trailerAt) :
    valueLength D buf trailerAt idx f.tag at_ = .ok f.value.length := by
  refine valueLength_eq_ok_iff.mpr ⟨f.value, rest, value, rfl, ?_⟩
  unfold WireField.Leads Leads WireField.pair at leads
  cases isData : D.dataLengthTag f.tag with
  | none => rwa [isData] at leads
  | some lenTag =>
    rw [isData] at leads
    obtain ⟨e, last, tag, stated⟩ := stands
    exact ⟨inside, e, last, tag.trans leads.1, by rw [stated]; exact leads.2⟩

/-- **The field loop takes what closes a message.** -/
theorem parseFields_complete {trailerAt pos fuel : ℕ} {prev trailer : WireField}
    {body : List WireField} {idx : List FieldEntry}
    (closes : Closes D v buf trailerAt pos prev body trailer) (stands : Stands buf idx prev)
    (bound : pos + (spell body).length ≤ trailerAt) (enough : body.length < fuel)
    (room : idx.length + body.length < N) (count : idx.length + body.length < u16Max)
    (near : pos + (spell (body ++ [trailer])).length ≤ u32Size) :
    parseFields D N buf v trailerAt fuel pos idx =
      ⟨idx ++ entriesAt pos (body ++ [trailer]),
        .ok (.complete (pos + (spell (body ++ [trailer])).length))⟩ := by
  induction body generalizing pos fuel prev idx with
  | nil =>
    obtain ⟨fuel, rfl⟩ : ∃ k, fuel = k + 1 := ⟨fuel - 1, by simp at enough; omega⟩
    obtain ⟨rest, here⟩ := closes.here
    simp only [List.nil_append, spell_cons, spell_nil, List.append_nil] at here near
    obtain ⟨read, value⟩ := reads_at here
    have inside : ¬ buf.length ≤ pos := by
      intro le
      rw [List.drop_eq_nil_of_le le] at here
      have := congrArg List.length here
      simp [WireField.bytes] at this
    have short := closes.short trailer (by simp)
    have length := trailer.bytes_length
    rw [parseFields, if_neg inside, read]
    simp only [closes.trailer_tag, if_true]
    refine (parseTrailer_eq_complete_iff value closes.trailer_value).mpr ⟨?_, ?_, ?_, ?_⟩
    · rw [pushField_eq short (by simpa using room) (by simpa using count) (by omega)]
      simp [entriesAt, WireField.entry, closes.trailer_tag]
    · simp only [List.nil_append, spell_cons, spell_nil, List.append_nil]
      omega
    · simpa using closes.declared
    · simpa using closes.sum
  | cons f body ih =>
    obtain ⟨fuel, rfl⟩ : ∃ k, fuel = k + 1 := ⟨fuel - 1, by simp at enough; omega⟩
    obtain ⟨rest, here⟩ := closes.here
    rw [List.cons_append, spell_cons, List.append_assoc] at here
    obtain ⟨read, value⟩ := reads_at here
    have inside : ¬ buf.length ≤ pos := by
      intro le
      rw [List.drop_eq_nil_of_le le] at here
      have := congrArg List.length here
      simp [WireField.bytes] at this
    have short := closes.short f (by simp)
    have inner : f.tag ≠ 10 := closes.inner f (by simp)
    have leads := (List.isChain_cons_cons.mp closes.chain).1
    have length := f.bytes_length
    have next : pos + f.text.length + 1 + f.value.length + 1 = pos + f.bytes.length := by omega
    simp only [List.cons_append, spell_cons, List.length_append] at bound near
    rw [List.length_cons] at enough room count
    have ends := @valueLength_of_leads _ _ trailerAt _ _ _ _ _ stands leads value (by omega)
    rw [parseFields, if_neg inside, read]
    simp only [inner, if_false, ends]
    rw [pushField_eq short (by omega) (by omega) (by omega)]
    simp only [next]
    have entry : (⟨f.tag, pos + f.text.length + 1, f.value.length⟩ : FieldEntry) = f.entry pos := rfl
    rw [entry, ih closes.tail (stands_append here) (by omega) (by omega) _ _ _]
    · simp [entriesAt, Nat.add_assoc]
    · simp only [List.length_append, List.length_singleton]
      omega
    · simp only [List.length_append, List.length_singleton]
      omega
    · simp only [spell_append, List.length_append]
      simp only [spell_append, List.length_append] at near
      omega

theorem expectFrameTag_at {pos : ℕ} {tag : UInt8} {f : WireField} {rest : Bytes}
    (text : f.text = [tag]) (at_ : buf.drop pos = f.bytes ++ rest) :
    expectFrameTag buf pos tag = none := by
  refine expectFrameTag_eq_none_iff.mpr ⟨f.value ++ SOH :: rest, ?_⟩
  rw [at_]
  simp [WireField.bytes, text]

/-- **The parser takes every framed message**, whatever follows it. -/
theorem parseInto_complete (m : FramedMessage D .all) (more : Bytes)
    (room : m.fields.length ≤ N) (count : m.fields.length ≤ u16Max)
    (near : m.bytes.length ≤ u32Size) :
    parseInto D N (m.bytes ++ more) .all =
      ⟨entriesAt 0 m.fields, .ok (.complete m.bytes.length)⟩ := by
  set buf := m.bytes ++ more with whole
  have length₁ : m.begin_.bytes.length = m.begin_.value.length + 3 := by
    rw [m.begin_.bytes_length, m.begin_text, List.length_singleton]
    omega
  have length₂ : m.bodyLength.bytes.length = m.bodyLength.value.length + 3 := by
    rw [m.bodyLength.bytes_length, m.bodyLength_text, List.length_singleton]
    omega
  have total : m.bytes.length = m.begin_.bytes.length + m.bodyLength.bytes.length +
      (spell (m.body ++ [m.trailer])).length := by
    simp [FramedMessage.bytes, FramedMessage.fields, Nat.add_assoc]
  have many : m.fields.length = m.body.length + 3 := by
    simp [FramedMessage.fields]
  have at₁ : buf.drop 0 = m.begin_.bytes ++ (m.bodyLength.bytes ++
      (spell (m.body ++ [m.trailer]) ++ more)) := by
    simp [whole, FramedMessage.bytes, FramedMessage.fields]
  have at₂ := drop_of_drop at₁
  have at₃ := drop_of_drop at₂
  rw [Nat.zero_add] at at₂ at₃
  have value₁ := (reads_at at₁).2
  have value₂ := (reads_at at₂).2
  have place₂ : m.begin_.bytes.length + m.bodyLength.text.length + 1 =
      m.begin_.bytes.length + 2 := by
    rw [m.bodyLength_text, List.length_singleton]
  rw [m.begin_text, List.length_singleton] at value₁
  rw [place₂] at value₂
  have found₁ : findSoh buf 2 = some (2 + m.begin_.value.length) :=
    findSoh_eq_some_iff.mpr ⟨_, _, value₁, m.begin_value, rfl⟩
  have found₂ := findSoh_eq_some_iff.mpr ⟨_, _, value₂, m.bodyLength_value, rfl⟩
  obtain ⟨short₁, short₂, short⟩ : m.begin_.value.length ≤ u16Max ∧
      m.bodyLength.value.length ≤ u16Max ∧ ∀ f ∈ m.body ++ [m.trailer], f.value.length ≤ u16Max := by
    simpa using m.short
  obtain ⟨declared, stated, same⟩ := m.declared
  have same := same rfl
  have front : buf.take (m.begin_.bytes.length + m.bodyLength.bytes.length +
      (spell m.body).length) = m.begin_.bytes ++ m.bodyLength.bytes ++ spell m.body := by
    have split : buf = (m.begin_.bytes ++ m.bodyLength.bytes ++ spell m.body) ++
        (m.trailer.bytes ++ more) := by
      simp [whole, FramedMessage.bytes, FramedMessage.fields]
    rw [split, ← List.length_append, ← List.length_append, List.take_left]
  have closes : Closes D .all buf (m.begin_.bytes.length + m.bodyLength.bytes.length + declared)
      (m.begin_.bytes.length + m.bodyLength.bytes.length) m.bodyLength m.body m.trailer :=
    { here := ⟨more, at₃⟩
      chain := m.chain
      inner := m.inner
      short := short
      trailer_tag := m.trailer_tag
      trailer_value := m.trailer_value
      declared := fun _ => by omega
      sum := fun on => by rw [front]; exact m.sum on }
  have size : buf.length = m.bytes.length + more.length := by rw [whole, List.length_append]
  have below := length_le_spell (m.body ++ [m.trailer])
  rw [List.length_append, List.length_singleton] at below
  have taken := @parseFields_complete _ N _ _ _ _
    (buf.length - (m.begin_.bytes.length + m.bodyLength.bytes.length)) _ _ _
    ([m.begin_.entry 0] ++ [m.bodyLength.entry m.begin_.bytes.length])
    closes (stands_append at₂) (by omega) (by omega) (by simp; omega) (by simp; omega) (by omega)
  have entry₁ : (⟨8, 2, m.begin_.value.length⟩ : FieldEntry) = m.begin_.entry 0 := by
    simp [WireField.entry, m.begin_text, m.begin_tag]
  have entry₂ : (⟨9, m.begin_.bytes.length + 2, m.bodyLength.value.length⟩ : FieldEntry) =
      m.bodyLength.entry m.begin_.bytes.length := by
    simp [WireField.entry, m.bodyLength_text, m.bodyLength_tag]
  have push₁ := @pushField_eq N [] 8 2 _ short₁
    (by simp; omega) (by decide) (by decide)
  have push₂ := @pushField_eq N [m.begin_.entry 0] 9
    (m.begin_.bytes.length + 2) _ short₂ (by simp; omega) (by simp [u16Max]) (by omega)
  rw [List.nil_append, entry₁] at push₁
  rw [entry₂] at push₂
  unfold parseInto
  rw [expectFrameTag_at m.begin_text at₁, found₁]
  simp only [Nat.add_sub_cancel_left, push₁]
  unfold parseBody
  rw [show 2 + m.begin_.value.length + 1 = m.begin_.bytes.length by omega,
    show 2 + m.begin_.value.length + 3 = m.begin_.bytes.length + 2 by omega,
    expectFrameTag_at m.bodyLength_text at₂]
  simp only [found₂, Nat.add_sub_cancel_left, value₂, List.take_left, stated, push₂]
  rw [show m.begin_.bytes.length + 2 + m.bodyLength.value.length + 1 =
    m.begin_.bytes.length + m.bodyLength.bytes.length by omega, taken, total]
  simp [FramedMessage.fields, entriesAt]

end Fixbolt
