import Fixbolt.Codec.Layout

/-!
# How much room a template takes

A template whose values are bounded tag by tag writes at most the sum of what its declarations may
take, whatever the dictionary makes lengths of.

* `Entry.Fits`: what an entry of a builder lays out is bounded by its tag;
* `fixLengths_fits`: the DATA rule keeps entries so, in any dictionary;
* `build_length`: what the parts of a template write takes at most the sum of the bounds;
* `build_error`: a template with room for its declarations fails for the DATA rule only;
* `encodeWith_fits`: a message that fits is written.
-/

namespace Fixbolt

open TemplateBuilder

variable {D : Dictionary} {P S room : ℕ}

/-! ### Bounds -/

/-- How long the values of a tag are at most. A length of such a value has at most two digits. -/
structure Bounds where
  cap : ℕ → ℕ
  low : ∀ tag, 2 ≤ cap tag
  high : ∀ tag, cap tag < 100

/-- Room for `tag=value` and its separator. -/
def Bounds.cost (c : Bounds) (tag : ℕ) : ℕ := (renderU32 tag).length + 2 + c.cap tag

/-- Values within the bounds of their tags. -/
def Bounds.Holds (c : Bounds) (slots : List (ℕ × Bytes)) : Prop :=
  ∀ f ∈ slots, f.2.length ≤ c.cap f.1

variable {c : Bounds}

theorem renderLoop_length_lt {fuel k n : ℕ} (h : n < 10 ^ k) :
    (renderLoop fuel n []).length ≤ k := by
  induction fuel generalizing k n with
  | zero => exact Nat.zero_le k
  | succ fuel ih =>
    by_cases zero : n = 0
    · subst zero
      exact Nat.zero_le k
    · cases k with
      | zero => omega
      | succ k =>
        have rest := ih (k := k) (n := n / 10) (by
          rw [Nat.div_lt_iff_lt_mul (by decide), ← Nat.pow_succ]
          exact h)
        rw [renderLoop_succ_last fuel zero, List.length_append, List.length_singleton]
        omega

/-- A number below a power of ten has no more digits than that has zeros. -/
theorem renderU32_length_lt {k n : ℕ} (h : n < 10 ^ (k + 1)) : (renderU32 n).length ≤ k + 1 := by
  unfold renderU32
  split
  · exact Nat.le_add_left 1 k
  · exact renderLoop_length_lt h

theorem encodeField_size (tag : ℕ) (v : Bytes) :
    (encodeField tag v).length = (renderU32 tag).length + 2 + v.length := by
  simp only [encodeField, List.length_append, List.length_cons, List.length_nil]
  omega

/-- What an entry lays out is bounded by its tag. -/
def Entry.Fits (c : Bounds) (e : Entry) : Prop :=
  match e.kind with
  | .static => ∃ v, e.bytes = encodeField e.tag v ∧ v.length ≤ c.cap e.tag
  | .slot | .dataLen _ => True
  | .group => False

/-! ### The DATA rule -/

theorem modify_fits {es : List Entry} {j : ℕ} {f : Entry → Entry} (fits : ∀ e ∈ es, e.Fits c)
    (changed : ∀ e ∈ es, es[j]? = some e → (f e).Fits c ∧ (f e).tag = e.tag) :
    (∀ e ∈ es.modify j f, e.Fits c) ∧ (es.modify j f).map (·.tag) = es.map (·.tag) := by
  refine ⟨fun e mem => ?_, ?_⟩
  · obtain ⟨k, at_⟩ := List.mem_iff_getElem?.mp mem
    rw [List.getElem?_modify] at at_
    obtain ⟨x, there, rfl⟩ := Option.map_eq_some_iff.mp at_
    split
    · rename_i same
      exact (changed x (List.mem_of_getElem? there) (same ▸ there)).1
    · exact fits x (List.mem_of_getElem? there)
  · refine List.ext_getElem? fun k => ?_
    rw [List.getElem?_map, List.getElem?_map, List.getElem?_modify]
    cases there : es[k]? with
    | none => rfl
    | some x =>
      simp only [Option.map_some]
      split
      · rename_i same
        exact congrArg some (changed x (List.mem_of_getElem? there) (same ▸ there)).2
      · rfl

theorem fixLength_fits {es es' : List Entry} {used used' i : ℕ} (fits : ∀ e ∈ es, e.Fits c)
    (h : fixLength D S used es i = .ok (used', es')) :
    (∀ e ∈ es', e.Fits c) ∧ es'.map (·.tag) = es.map (·.tag) := by
  unfold fixLength at h
  split at h
  · cases h
    exact ⟨fits, rfl⟩
  · rename_i e there
    split at h
    · cases h
      exact ⟨fits, rfl⟩
    · rename_i lenTag _
      split at h
      · cases h
      · rename_i j found
        have tag : ∀ x, es[j]? = some x → x.tag = lenTag := by
          intro x at_
          obtain ⟨lt, here, -⟩ := List.findIdx?_eq_some_iff_getElem.mp found
          rw [List.getElem?_eq_getElem lt] at at_
          exact Option.some.inj at_ ▸ eq_of_beq here
        split at h
        · rename_i static
          dsimp only at h
          split at h
          · cases h
          · cases h
            refine modify_fits fits fun x _ at_ => ⟨?_, rfl⟩
            -- the length of a bounded value has two digits
            obtain ⟨v, bytes, short⟩ : ∃ v, e.bytes = encodeField e.tag v ∧ v.length ≤ c.cap e.tag := by
              have fit := fits e (List.mem_of_getElem? there)
              rwa [Entry.Fits, static] at fit
            have length : e.bytes.length - (tagPrefixLen e.tag + 1) = v.length := by
              rw [bytes, encodeField_size, tagPrefixLen]
              omega
            refine ⟨renderU32 (e.bytes.length - (tagPrefixLen e.tag + 1)), ?_, ?_⟩
            · rw [← tag x at_]
            · rw [length]
              exact (renderU32_length_lt (k := 1) (Nat.lt_of_le_of_lt short (c.high _))).trans (c.low _)
        · cases h
          exact modify_fits fits fun x _ _ => ⟨trivial, rfl⟩

/-- **The DATA rule keeps entries within their bounds**, whatever it makes lengths of. -/
theorem fixLengths_fits {es es' : List Entry} {used used' : ℕ} (fits : ∀ e ∈ es, e.Fits c)
    (h : fixLengths D S used es = .ok (used', es')) :
    (∀ e ∈ es', e.Fits c) ∧ es'.map (·.tag) = es.map (·.tag) := by
  have all (is : List ℕ) : ∀ acc : ℕ × List Entry, (∀ e ∈ acc.2, e.Fits c) →
      ∀ r, is.foldlM (fun acc i => fixLength D S acc.1 acc.2 i) acc = .ok r →
        (∀ e ∈ r.2, e.Fits c) ∧ r.2.map (·.tag) = acc.2.map (·.tag) := by
    induction is with
    | nil =>
      intro acc fits r h
      cases h
      exact ⟨fits, rfl⟩
    | cons i is ih =>
      intro acc fits r h
      rw [List.foldlM_cons] at h
      cases first : fixLength D S acc.1 acc.2 i with
      | error e => simp [first, bind, Except.bind] at h
      | ok acc' =>
        simp only [first, bind, Except.bind] at h
        obtain ⟨fits', tags⟩ := fixLength_fits fits first
        obtain ⟨fits'', tags'⟩ := ih acc' fits' r h
        exact ⟨fits'', tags'.trans tags⟩
  exact all _ (used, es) fits (used', es') h

/-! ### What is laid out -/

theorem Entry.Fits.spelled {e : Entry} (fits : e.Fits c) : e.Spelled := by
  intro static
  rw [Entry.Fits, static] at fits
  obtain ⟨v, bytes, -⟩ := fits
  exact ⟨v, bytes⟩

theorem slotValue_holds {slots : List (ℕ × Bytes)} {tag : ℕ} {v : Bytes} (holds : c.Holds slots)
    (h : slotValue slots tag = some v) : v.length ≤ c.cap tag := by
  unfold slotValue at h
  obtain ⟨f, found, rfl⟩ := Option.map_eq_some_iff.mp h
  have same : (f.1 == tag) = true := List.find?_some (p := fun s : ℕ × Bytes => s.1 == tag) found
  exact eq_of_beq same ▸ holds f (List.mem_of_find?_eq_some found)

theorem lays_size {e : Entry} {msgType : Bytes} {slots : List (ℕ × Bytes)} (fits : e.Fits c)
    (holds : c.Holds slots) : (wire (e.lays D msgType slots [])).length ≤ c.cost e.tag := by
  have one (v : Bytes) (short : v.length ≤ c.cap e.tag) :
      (wire [(e.tag, v)]).length ≤ c.cost e.tag := by
    rw [wire_cons, wire_nil, List.append_nil, encodeField_size, Bounds.cost]
    exact Nat.add_le_add_left short _
  unfold Entry.lays
  cases kind : e.kind with
  | static =>
    obtain ⟨v, bytes, short⟩ : ∃ v, e.bytes = encodeField e.tag v ∧ v.length ≤ c.cap e.tag := by
      rwa [Entry.Fits, kind] at fits
    refine one _ ?_
    rw [Entry.value, bytes, encodeField_value]
    exact short
  | slot =>
    cases supplied : slotValue slots e.tag with
    | none => exact Nat.zero_le _
    | some v => exact one v (slotValue_holds holds supplied)
  | dataLen d =>
    dsimp only
    cases supplied : slotValue slots d with
    | none => exact Nat.zero_le _
    | some v =>
      have short := slotValue_holds holds supplied
      exact one _ ((renderU32_length_lt (k := 1) (Nat.lt_of_le_of_lt short (c.high _))).trans (c.low _))
  | group =>
    rw [Entry.Fits, kind] at fits
    exact fits.elim

theorem flatMap_lays_size {es : List Entry} {msgType : Bytes} {slots : List (ℕ × Bytes)}
    (fits : ∀ e ∈ es, e.Fits c) (holds : c.Holds slots) :
    (wire (es.flatMap (Entry.lays D msgType slots []))).length ≤ (es.map fun e => c.cost e.tag).sum := by
  induction es with
  | nil => exact Nat.le_refl _
  | cons e es ih =>
    have first : (wire (e.lays D msgType slots [])).length ≤ c.cost e.tag :=
      lays_size (fits e List.mem_cons_self) holds
    have rest := ih fun x hx => fits x (List.mem_cons_of_mem e hx)
    rw [List.flatMap_cons, List.map_cons, List.sum_cons, wire_append, List.length_append]
    omega

/-- **A template takes at most the room of its declarations.** -/
theorem build_length {begin_ : Bytes} {ds : List Decl} {t : Template}
    (h : (declare P S begin_ ds).build D P S = .ok t)
    (fits : ∀ x ∈ ds, x.entry.Fits c) {slots : List (ℕ × Bytes)} (holds : c.Holds slots) :
    t.beginString = begin_ ∧ (t.parts.flatMap (t.partBytes D slots [])).length ≤
      (ds.map fun x => c.cost x.tag).sum := by
  unfold TemplateBuilder.build at h
  cases err : (declare P S begin_ ds).err with
  | some e => simp [err] at h
  | none =>
    obtain ⟨entries, front, -⟩ := declare_ok err
    simp only [err] at h
    split at h
    · cases h
    rw [entries, front] at h
    cases fixed : fixLengths D S (declare P S begin_ ds).used
        (sortEntries D (ds.map Decl.entry)) with
    | error e => simp [fixed, bind, Except.bind] at h
    | ok r =>
      obtain ⟨used, es⟩ := r
      have perm := sortEntries_perm (D := D) (ds.map Decl.entry)
      have sorted : ∀ e ∈ sortEntries D (ds.map Decl.entry), e.Fits c := by
        intro e mem
        obtain ⟨x, hx, rfl⟩ := List.mem_map.mp (perm.mem_iff.mp mem)
        exact fits x hx
      obtain ⟨fits', tags⟩ := fixLengths_fits sorted fixed
      simp only [fixed, bind, Except.bind] at h
      cases laid : es.foldlM (layEntry P S) ⟨begin_.length, [], [], false⟩ with
      | error e => rw [laid] at h; cases h
      | ok l =>
        rw [laid] at h
        simp only at h
        split at h
        · cases h
        split at h
        · cases h
        cases h
        refine ⟨rfl, ?_⟩
        have facts := (@foldlM_layEntry_ok D _ _ ⟨begin_, l.msgType, l.parts⟩ slots [] _ _ _
          (fun e he => (fits' e he).spelled) laid).1
        rw [facts]
        refine (flatMap_lays_size fits' holds).trans (Nat.le_of_eq ?_)
        have costs (xs : List Entry) : (xs.map fun e => c.cost e.tag) = (xs.map (·.tag)).map c.cost := by
          rw [List.map_map]
          rfl
        rw [costs, tags, ← costs, (perm.map _).sum_nat, List.map_map]
        simp only [Function.comp_def, Decl.entry_tag]

/-! ### Builders with room -/

/-- The scratch a declaration takes when it is made. -/
def Decl.literal : Decl → ℕ
  | .field tag value => (encodeField tag value).length
  | .slot _ | .group _ => 0

theorem write_fits {used n : ℕ} (small : S ≤ u16Max) (fits : used + n ≤ S) :
    write S used n = .ok (used + n) := by
  unfold write
  rw [if_neg (by omega), if_neg (by omega)]

theorem writeField_fits {used tag : ℕ} {value : Bytes} (small : S ≤ u16Max)
    (fits : used + (encodeField tag value).length ≤ S) :
    writeField S used tag value = .ok (used + (encodeField tag value).length) := by
  rw [encodeField_size] at fits ⊢
  unfold writeField
  rw [write_fits small (by omega)]
  simp only [bind, Except.bind]
  rw [write_fits small (by omega)]
  dsimp only
  rw [write_fits small (by omega)]
  exact congrArg Except.ok (by omega)

/-- Calls on a builder with room for them all leave no error behind. -/
theorem declare_fits {begin_ : Bytes} {ds : List Decl} (small : S ≤ u16Max)
    (free : ∀ x ∈ ds, reserved x.tag = false) (few : ds.length ≤ P)
    (fits : begin_.length + (ds.map Decl.literal).sum ≤ S) :
    declare P S begin_ ds =
      ⟨begin_, begin_.length + (ds.map Decl.literal).sum, ds.map Decl.entry, none⟩ := by
  induction ds using List.reverseRecOn with
  | nil =>
    show TemplateBuilder.new S begin_ = _
    rw [TemplateBuilder.new, write_fits small (by simpa using fits)]
    simp
  | append_singleton ds x ih =>
    have last : declare P S begin_ (ds ++ [x]) = declareOne P S (declare P S begin_ ds) x := by
      simp [declare, List.foldl_append]
    rw [List.map_append, List.sum_append, List.map_singleton, List.sum_singleton] at fits ⊢
    rw [List.length_append, List.length_singleton] at few
    rw [last, ih (fun y hy => free y (List.mem_append_left _ hy)) (by omega) (by omega)]
    have open_ : reserved x.tag = false := free x (by simp)
    have added (used : ℕ) (e : Entry) : TemplateBuilder.entry P
        ⟨begin_, begin_.length + (ds.map Decl.literal).sum, ds.map Decl.entry, none⟩ used e =
          .ok ⟨begin_, used, ds.map Decl.entry ++ [e], none⟩ := by
      unfold TemplateBuilder.entry
      rw [if_neg (by rw [List.length_map]; omega)]
    cases x with
    | field tag value =>
      have shut : ¬ reserved tag = true := Bool.not_eq_true _ ▸ open_
      rw [Decl.literal] at fits ⊢
      rw [declareOne, TemplateBuilder.field, TemplateBuilder.pushField, if_neg shut,
        writeField_fits small (by dsimp only; omega)]
      simp only [bind, Except.bind, added, orErr, Nat.add_assoc, List.map_append, List.map_cons,
        List.map_nil, Decl.entry]
    | slot tag =>
      have shut : ¬ reserved tag = true := Bool.not_eq_true _ ▸ open_
      rw [declareOne, TemplateBuilder.slot, TemplateBuilder.pushHole, if_neg shut, added, orErr]
      simp [Decl.entry, Decl.literal]
    | group counter =>
      have shut : ¬ reserved counter = true := Bool.not_eq_true _ ▸ open_
      rw [declareOne, TemplateBuilder.group, TemplateBuilder.pushHole, if_neg shut, added, orErr]
      simp [Decl.entry, Decl.literal]

/-- Nothing is wrong but a length that is not declared, and at most `n` bytes of scratch are gone. -/
def LacksLength (n : ℕ) : Except EncodeError (ℕ × List Entry) → Prop
  | .error e => ∃ tag, e = .dataWithoutLength tag
  | .ok r => r.1 ≤ n

/-- A length field that is rewritten takes its tag, two digits and the frame of a field. -/
theorem fixLength_room {es : List Entry} {used i d : ℕ} (small : S ≤ u16Max)
    (fits : ∀ e ∈ es, e.Fits c) (digits : ∀ e ∈ es, (renderU32 e.tag).length ≤ d)
    (room : used + (d + 4) ≤ S) : LacksLength (used + (d + 4)) (fixLength D S used es i) := by
  unfold fixLength
  split
  · exact Nat.le_add_right _ _
  · rename_i e there
    split
    · exact Nat.le_add_right _ _
    · rename_i lenTag _
      split
      · exact ⟨_, rfl⟩
      · rename_i j found
        split
        · rename_i static
          obtain ⟨v, bytes, short⟩ : ∃ v, e.bytes = encodeField e.tag v ∧ v.length ≤ c.cap e.tag := by
            have fit := fits e (List.mem_of_getElem? there)
            rwa [Entry.Fits, static] at fit
          have length : e.bytes.length - (tagPrefixLen e.tag + 1) = v.length := by
            rw [bytes, encodeField_size, tagPrefixLen]
            omega
          have two : (renderU32 v.length).length ≤ 2 :=
            renderU32_length_lt (k := 1) (Nat.lt_of_le_of_lt short (c.high _))
          have tag : (renderU32 lenTag).length ≤ d := by
            obtain ⟨lt, here, -⟩ := List.findIdx?_eq_some_iff_getElem.mp found
            exact eq_of_beq here ▸ digits _ (List.getElem_mem lt)
          have taken : (encodeField lenTag (renderU32 v.length)).length ≤ d + 4 := by
            rw [encodeField_size]
            omega
          dsimp only
          rw [length, writeField_fits small (by omega)]
          exact Nat.add_le_add_left taken used
        · exact Nat.le_add_right _ _

/-- With room, nothing is wrong under the DATA rule but a length that is not declared. -/
theorem fixLengths_room {es : List Entry} {used d : ℕ} (small : S ≤ u16Max)
    (fits : ∀ e ∈ es, e.Fits c) (digits : ∀ e ∈ es, (renderU32 e.tag).length ≤ d)
    (room : used + es.length * (d + 4) ≤ S) {e : EncodeError}
    (h : fixLengths D S used es = .error e) : ∃ tag, e = .dataWithoutLength tag := by
  have all (is : List ℕ) : ∀ acc : ℕ × List Entry, (∀ e ∈ acc.2, e.Fits c) →
      (∀ e ∈ acc.2, (renderU32 e.tag).length ≤ d) → acc.1 + is.length * (d + 4) ≤ S →
      is.foldlM (fun acc i => fixLength D S acc.1 acc.2 i) acc = .error e →
        ∃ tag, e = .dataWithoutLength tag := by
    induction is with
    | nil =>
      intro acc _ _ _ h
      cases h
    | cons i is ih =>
      intro acc fits digits room h
      rw [List.length_cons, Nat.succ_mul] at room
      have roomy : LacksLength (acc.1 + (d + 4)) (fixLength D S acc.1 acc.2 i) :=
        fixLength_room small fits digits (by omega)
      rw [List.foldlM_cons] at h
      cases first : fixLength D S acc.1 acc.2 i with
      | error e' =>
        rw [first] at h roomy
        cases h
        exact roomy
      | ok acc' =>
        rw [first] at h roomy
        obtain ⟨fits', tags⟩ := fixLength_fits fits first
        have taken : acc'.1 ≤ acc.1 + (d + 4) := roomy
        refine ih acc' fits' (fun x hx => ?_) (by omega) h
        obtain ⟨y, hy, same⟩ := List.mem_map.mp
          (tags ▸ List.mem_map_of_mem (f := Entry.tag) hx)
        exact same ▸ digits y hy
  exact all _ (used, es) fits digits (by rwa [List.length_range]) h

/-- Entries with room are laid out. -/
theorem layEntry_fits {l : Layout} {e : Entry} (fits : e.Fits c) (few : l.parts.length < P)
    (room : l.used + c.cost e.tag ≤ S) : ∃ l', layEntry P S l e = .ok l' ∧
      l'.parts.length ≤ l.parts.length + 1 ∧ l'.used ≤ l.used + c.cost e.tag ∧
      l'.hasGroup = l.hasGroup := by
  have hole (part : Part) : appendHole P l.parts part = .ok (l.parts ++ [part]) :=
    if_neg (Nat.not_le.mpr few)
  unfold layEntry
  cases kind : e.kind with
  | static =>
    obtain ⟨v, bytes, short⟩ : ∃ v, e.bytes = encodeField e.tag v ∧ v.length ≤ c.cap e.tag := by
      rwa [Entry.Fits, kind] at fits
    have length : e.bytes.length ≤ c.cost e.tag := by
      rw [bytes, encodeField_size, Bounds.cost]
      omega
    obtain ⟨parts, placed, count⟩ : ∃ parts, appendStatic P l.parts e.bytes = .ok parts ∧
        parts.length ≤ l.parts.length + 1 := by
      unfold appendStatic
      split
      · exact ⟨_, rfl, by simp only [List.length_append, List.length_dropLast, List.length_singleton]; omega⟩
      · rw [if_neg (Nat.not_le.mpr few)]
        exact ⟨_, rfl, by simp⟩
    simp only [if_neg (show ¬ S < l.used + e.bytes.length by omega), placed, bind, Except.bind]
    exact ⟨_, rfl, count, Nat.add_le_add_left length _, rfl⟩
  | slot =>
    simp only [hole, bind, Except.bind]
    exact ⟨_, rfl, by simp, Nat.le_add_right _ _, rfl⟩
  | dataLen d =>
    simp only [hole, bind, Except.bind]
    exact ⟨_, rfl, by simp, Nat.le_add_right _ _, rfl⟩
  | group =>
    rw [Entry.Fits, kind] at fits
    exact fits.elim

theorem foldlM_layEntry_fits {es : List Entry} {l : Layout} (fits : ∀ e ∈ es, e.Fits c)
    (few : l.parts.length + es.length ≤ P)
    (room : l.used + (es.map fun e => c.cost e.tag).sum ≤ S) :
    ∃ l', es.foldlM (layEntry P S) l = .ok l' ∧ l'.parts.length ≤ P ∧
      l'.hasGroup = l.hasGroup := by
  induction es generalizing l with
  | nil => exact ⟨l, rfl, by simpa using few, rfl⟩
  | cons e es ih =>
    rw [List.length_cons] at few
    rw [List.map_cons, List.sum_cons] at room
    obtain ⟨l', placed, count, taken, ungrouped⟩ := layEntry_fits (fits e List.mem_cons_self)
      (show l.parts.length < P by omega) (show l.used + c.cost e.tag ≤ S by omega)
    obtain ⟨l'', rest, bound, ungrouped'⟩ := ih (l := l')
      (fun x hx => fits x (List.mem_cons_of_mem e hx)) (by omega) (by omega)
    rw [List.foldlM_cons, placed]
    exact ⟨l'', rest, bound, ungrouped'.trans ungrouped⟩

/-- **A template with room is built**, unless a DATA field lacks its length. -/
theorem build_error {begin_ : Bytes} {ds : List Decl} {d : ℕ} (small : S ≤ u16Max)
    (few : ds.length ≤ P) (parts : P ≤ 255) (free : ∀ x ∈ ds, reserved x.tag = false)
    (fits : ∀ x ∈ ds, x.entry.Fits c) (digits : ∀ x ∈ ds, (renderU32 x.tag).length ≤ d)
    (scratch : begin_.length + (ds.map Decl.literal).sum + ds.length * (d + 4) ≤ S)
    (room : begin_.length + (ds.map fun x => c.cost x.tag).sum ≤ S) {e : EncodeError}
    (h : (declare P S begin_ ds).build D P S = .error e) : ∃ tag, e = .dataWithoutLength tag := by
  have perm := sortEntries_perm (D := D) (ds.map Decl.entry)
  have sorted {x : Entry} (mem : x ∈ sortEntries D (ds.map Decl.entry)) :
      x.Fits c ∧ (renderU32 x.tag).length ≤ d := by
    obtain ⟨y, hy, rfl⟩ := List.mem_map.mp (perm.mem_iff.mp mem)
    exact ⟨fits y hy, by rw [Decl.entry_tag]; exact digits y hy⟩
  have count : (sortEntries D (ds.map Decl.entry)).length = ds.length := by
    rw [perm.length_eq, List.length_map]
  rw [declare_fits small free few (by omega)] at h
  unfold TemplateBuilder.build at h
  simp only [if_neg (show ¬ S < begin_.length by omega), bind, Except.bind] at h
  cases fixed : fixLengths D S (begin_.length + (ds.map Decl.literal).sum)
      (sortEntries D (ds.map Decl.entry)) with
  | error e' =>
    simp only [fixed] at h
    cases h
    exact fixLengths_room small (fun x mem => (sorted mem).1) (fun x mem => (sorted mem).2)
      (by rw [count]; exact scratch) fixed
  | ok r =>
    obtain ⟨used, es⟩ := r
    obtain ⟨fits', tags⟩ := fixLengths_fits (fun x mem => (sorted mem).1) fixed
    have costs : (es.map fun e => c.cost e.tag).sum = (ds.map fun x => c.cost x.tag).sum := by
      have through (xs : List Entry) : (xs.map fun e => c.cost e.tag) = (xs.map (·.tag)).map c.cost := by
        rw [List.map_map]
        rfl
      rw [through, tags, ← through, (perm.map _).sum_nat, List.map_map]
      simp only [Function.comp_def, Decl.entry_tag]
    have same : es.length = ds.length := by
      rw [← List.length_map (f := Entry.tag), tags, List.length_map, count]
    obtain ⟨l, laid, bound, ungrouped⟩ := foldlM_layEntry_fits
      (l := ⟨begin_.length, [], [], false⟩) fits' (P := P) (S := S)
      (by rw [List.length_nil, same]; omega) (by rw [costs]; exact room)
    simp only [fixed, laid, ungrouped, Bool.false_and, Bool.false_eq_true, if_false,
      if_neg (show ¬ 255 < l.parts.length by omega)] at h
    cases h

/-! ### Messages that fit -/

namespace Template

variable {t : Template} {slots : List (ℕ × Bytes)}

theorem put_fits {w v : Bytes} {tag : ℕ} (fits : (w ++ wire [(tag, v)]).length ≤ room) :
    put room w tag v = .ok (w ++ wire [(tag, v)]) := by
  have one : wire [(tag, v)] = encodeField tag v := by simp
  rw [one] at fits ⊢
  rw [List.length_append] at fits
  unfold put putBytes
  rw [if_neg (by omega)]

theorem putPart_fits {w : Bytes} {part : Part}
    (fits : (w ++ t.partBytes D slots [] part).length ≤ room) :
    t.putPart D room slots [] w part = .ok (w ++ t.partBytes D slots [] part) := by
  cases part with
  | static bytes =>
    have within : ¬ room < w.length + bytes.length := by
      rw [List.length_append, partBytes] at fits
      omega
    exact if_neg within
  | slot tag =>
    simp only [putPart, partBytes] at fits ⊢
    cases supplied : slotValue slots tag with
    | none => simp
    | some v =>
      rw [supplied] at fits
      exact put_fits fits
  | dataLen tag dataTag =>
    simp only [putPart, partBytes] at fits ⊢
    cases supplied : slotValue slots dataTag with
    | none => simp
    | some v =>
      rw [supplied] at fits
      exact put_fits fits
  | group counter => simp [putPart, partBytes, groupFor]

theorem foldlM_putPart_fits {parts : List Part} {w : Bytes}
    (fits : (w ++ parts.flatMap (t.partBytes D slots [])).length ≤ room) :
    parts.foldlM (t.putPart D room slots []) w = .ok (w ++ parts.flatMap (t.partBytes D slots [])) := by
  induction parts generalizing w with
  | nil => simp [pure, Except.pure]
  | cons part parts ih =>
    rw [List.flatMap_cons, ← List.append_assoc] at fits ⊢
    rw [List.foldlM_cons, putPart_fits (by rw [List.length_append] at fits; omega)]
    exact ih fits

/-- **A message that fits is written.** -/
theorem encodeWith_fits (front : t.beginString.length ≤ 32) (small : room ≤ 100000)
    (fits : t.reserve + (t.parts.flatMap (t.partBytes D slots [])).length + 7 ≤ room) :
    ∃ out, t.encodeWith D room slots [] = .ok out := by
  unfold encodeWith
  rw [foldlM_putPart_fits (by simp only [List.nil_append]; omega)]
  simp only [List.nil_append, bind, Except.bind]
  generalize t.parts.flatMap (t.partBytes D slots []) = body at fits ⊢
  have digits : (renderU32 body.length).length ≤ 5 :=
    renderU32_length_lt (k := 4) (by unfold reserve at fits; omega)
  have length : (t.framePrefix body.length).length ≤ prefixSize := by
    simp only [framePrefix, prefixSize, List.length_append, List.length_cons, List.length_nil,
      show (ascii "8=").length = 2 from rfl, show (ascii "9=").length = 2 from rfl]
    omega
  rw [if_neg (by unfold reserve at fits; omega), if_neg (by unfold prefixSize; omega),
    if_neg (by omega), if_neg (by omega), if_neg (by omega)]
  exact ⟨_, rfl⟩

end Template

end Fixbolt
