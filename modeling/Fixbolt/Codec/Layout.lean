import Fixbolt.Codec.Encode
import Mathlib.Data.List.Perm.Basic

/-!
# What a builder lays out

A template is declared field by field. `build` sorts what was declared, ties every length field to
its DATA field and freezes the parts; here is what the frozen parts write, said of the declarations.

* `Decl`, `TemplateBuilder.declare`: one call of a builder, and all of them;
* `sortEntries_perm`, `sortEntries_sorted`: the sort of `build` is one;
* `fixLengths_ok`: what the DATA rule makes of the entries;
* `build_ok`: the parts of a template write what its declarations lay out.
-/

namespace Fixbolt

variable {D : Dictionary} {P S : ℕ}

/-! ### Declarations -/

/-- One call of a builder. -/
inductive Decl where
  | field (tag : ℕ) (value : Bytes)
  | slot (tag : ℕ)
  | group (counter : ℕ)
deriving DecidableEq, Repr

namespace Decl

/-- The tag a declaration is about. -/
def tag : Decl → ℕ
  | field tag _ => tag
  | slot tag => tag
  | group counter => counter

/-- The entry a builder makes of it. -/
def entry : Decl → Entry
  | field tag value => ⟨tag, encodeField tag value, .static⟩
  | slot tag => ⟨tag, [], .slot⟩
  | group counter => ⟨counter, [], .group⟩

@[simp] theorem entry_tag (x : Decl) : x.entry.tag = x.tag := by cases x <;> rfl

end Decl

namespace TemplateBuilder

/-- Make one call. -/
def declareOne (P S : ℕ) (b : TemplateBuilder) : Decl → TemplateBuilder
  | .field tag value => b.field P S tag value
  | .slot tag => b.slot P tag
  | .group counter => b.group P counter

/-- A builder after some calls. -/
def declare (P S : ℕ) (beginString : Bytes) (ds : List Decl) : TemplateBuilder :=
  ds.foldl (declareOne P S) (new S beginString)

end TemplateBuilder

open TemplateBuilder

theorem writeField_ok {used used' tag : ℕ} {value : Bytes}
    (h : writeField S used tag value = .ok used') : value.length ≤ u16Max := by
  unfold writeField at h
  cases first : write S used ((renderU32 tag).length + 1) with
  | error e => simp [first, bind, Except.bind] at h
  | ok n =>
    cases second : write S n value.length with
    | error e => simp [first, second, bind, Except.bind] at h
    | ok m =>
      unfold write at second
      split at second
      · cases second
      · split at second
        · cases second
        · omega

/-- An error that a builder keeps. -/
theorem orErr_ok {b : TemplateBuilder} {r : Except EncodeError TemplateBuilder}
    (h : (b.orErr r).err = none) : ∃ b', r = .ok b' ∧ b.orErr r = b' := by
  cases r with
  | error e => cases h
  | ok b' => exact ⟨b', rfl, rfl⟩

theorem entry_ok {b b' : TemplateBuilder} {used : ℕ} {e : Entry}
    (h : b.entry P used e = .ok b') : b' = { b with used := used, entries := b.entries ++ [e] } := by
  unfold TemplateBuilder.entry at h
  split at h
  · cases h
  · cases h
    rfl

/-- A call that leaves no error behind found none, and added its entry. -/
theorem declareOne_ok {b : TemplateBuilder} {x : Decl} (h : (declareOne P S b x).err = none) :
    b.err = none ∧ (declareOne P S b x).entries = b.entries ++ [x.entry] ∧
      (declareOne P S b x).beginString = b.beginString ∧ reserved x.tag = false ∧
      ∀ t v, x = .field t v → v.length ≤ u16Max := by
  cases x with
  | field tag value =>
    obtain ⟨b', ok, eq⟩ := orErr_ok (r := b.pushField P S tag value) h
    rw [declareOne, TemplateBuilder.field, eq]
    unfold TemplateBuilder.pushField at ok
    split at ok
    · cases ok
    rename_i free
    cases used : writeField S b.used tag value with
    | error e => simp [used, bind, Except.bind] at ok
    | ok n =>
      simp only [used, bind, Except.bind] at ok
      obtain rfl := entry_ok ok
      have err : b.err = none := by
        rw [declareOne, TemplateBuilder.field, eq] at h
        exact h
      refine ⟨err, rfl, rfl, Bool.eq_false_iff.mpr free, fun t v same => ?_⟩
      cases same
      exact writeField_ok used
  | slot tag =>
    obtain ⟨b', ok, eq⟩ := orErr_ok (r := b.pushHole P tag .slot) h
    rw [declareOne, TemplateBuilder.slot, eq] at h ⊢
    unfold TemplateBuilder.pushHole at ok
    split at ok
    · cases ok
    rename_i free
    obtain rfl := entry_ok ok
    exact ⟨h, rfl, rfl, Bool.eq_false_iff.mpr free, fun t v same => by cases same⟩
  | group counter =>
    obtain ⟨b', ok, eq⟩ := orErr_ok (r := b.pushHole P counter .group) h
    rw [declareOne, TemplateBuilder.group, eq] at h ⊢
    unfold TemplateBuilder.pushHole at ok
    split at ok
    · cases ok
    rename_i free
    obtain rfl := entry_ok ok
    exact ⟨h, rfl, rfl, Bool.eq_false_iff.mpr free, fun t v same => by cases same⟩

/-- What calls that leave no error behind have declared. -/
theorem declare_ok {begin_ : Bytes} {ds : List Decl} (h : (declare P S begin_ ds).err = none) :
    (declare P S begin_ ds).entries = ds.map Decl.entry ∧
      (declare P S begin_ ds).beginString = begin_ ∧ ∀ x ∈ ds, reserved x.tag = false ∧
      ∀ t v, x = .field t v → v.length ≤ u16Max := by
  induction ds using List.reverseRecOn with
  | nil =>
    have front : (new S begin_).err = none := h
    show (new S begin_).entries = [] ∧ (new S begin_).beginString = begin_ ∧ _
    unfold new at front ⊢
    cases used : write S 0 begin_.length with
    | error e => rw [used] at front; cases front
    | ok n => exact ⟨rfl, rfl, fun x hx => by cases hx⟩
  | append_singleton ds x ih =>
    have last : declare P S begin_ (ds ++ [x]) = declareOne P S (declare P S begin_ ds) x := by
      simp [declare, List.foldl_append]
    rw [last] at h ⊢
    obtain ⟨err, entries, front, free, short⟩ := declareOne_ok h
    obtain ⟨before, begin_eq, all⟩ := ih err
    refine ⟨by rw [entries, before]; simp, by rw [front, begin_eq], fun y hy => ?_⟩
    obtain hy | hy := List.mem_append.mp hy
    · exact all y hy
    · obtain rfl := List.mem_singleton.mp hy
      exact ⟨free, short⟩

/-! ### The sort -/

theorem insertEntry_perm (e : Entry) (xs : List Entry) :
    (insertEntry D e xs).Perm (e :: xs) := by
  induction xs with
  | nil => exact List.Perm.refl _
  | cons x xs ih =>
    unfold insertEntry
    split
    · exact List.Perm.refl _
    · exact (List.Perm.cons x ih).trans (List.Perm.swap e x xs)

theorem foldl_insertEntry_perm (es sorted : List Entry) :
    (es.foldl (fun sorted e => insertEntry D e sorted) sorted).Perm (sorted ++ es) := by
  induction es generalizing sorted with
  | nil => simp
  | cons e es ih =>
    refine (ih _).trans ?_
    refine ((insertEntry_perm e sorted).append_right es).trans ?_
    exact List.perm_middle.symm

theorem sortEntries_perm (es : List Entry) : (sortEntries D es).Perm es :=
  foldl_insertEntry_perm es []

theorem keyLt_trans {a b c : ℕ × ℕ × ℕ} (h : keyLt a b = true) (h' : keyLt b c = true) :
    keyLt a c = true := by
  simp only [keyLt, Bool.or_eq_true, Bool.and_eq_true, decide_eq_true_eq, beq_iff_eq] at h h' ⊢
  omega

theorem keyLt_total {a b : ℕ × ℕ × ℕ} (h : keyLt a b = false) (h' : keyLt b a = false) :
    a = b := by
  simp only [keyLt, Bool.or_eq_false_iff, Bool.and_eq_false_iff, decide_eq_false_iff_not,
    beq_eq_false_iff_ne] at h h'
  obtain ⟨a₁, a₂, a₃⟩ := a
  obtain ⟨b₁, b₂, b₃⟩ := b
  simp only at h h'
  simp only [Prod.mk.injEq]
  omega

theorem keyLt_irrefl (a : ℕ × ℕ × ℕ) : keyLt a a = false := by
  simp [keyLt]

/-- Entries whose keys do not go down. -/
def Ordered (D : Dictionary) (es : List Entry) : Prop :=
  es.Pairwise fun a b => keyLt (sortKey D b.tag) (sortKey D a.tag) = false

theorem insertEntry_ordered {e : Entry} {xs : List Entry} (h : Ordered D xs) :
    Ordered D (insertEntry D e xs) := by
  induction xs with
  | nil => exact List.pairwise_singleton _ _
  | cons x xs ih =>
    obtain ⟨head, tail⟩ := List.pairwise_cons.mp h
    unfold insertEntry
    split
    · rename_i lt
      refine List.pairwise_cons.mpr ⟨fun y hy => ?_, h⟩
      by_contra below
      rw [Bool.not_eq_false] at below
      obtain rfl | hy := List.mem_cons.mp hy
      · have := keyLt_trans below lt
        rw [keyLt_irrefl] at this
        cases this
      · have := head y hy
        rw [keyLt_trans below lt] at this
        cases this
    · rename_i ge
      refine List.pairwise_cons.mpr ⟨fun y hy => ?_, ih tail⟩
      obtain rfl | hy := List.mem_cons.mp ((insertEntry_perm e xs).mem_iff.mp hy)
      · simpa using ge
      · exact head y hy

theorem sortEntries_ordered (es : List Entry) : Ordered D (sortEntries D es) := by
  have all : ∀ sorted, Ordered D sorted →
      Ordered D (es.foldl (fun sorted e => insertEntry D e sorted) sorted) := by
    induction es with
    | nil => exact fun sorted h => h
    | cons e es ih => exact fun sorted h => ih _ (insertEntry_ordered h)
  exact all [] List.Pairwise.nil

/-! ### The DATA rule -/

/-- The entry whose length a tag states. -/
def lengthOwner (D : Dictionary) (es : List Entry) (tag : ℕ) : Option Entry :=
  es.find? fun d => D.dataLengthTag d.tag == some tag

/-- A length entry tied to its DATA entry. -/
def Entry.tieTo (d x : Entry) : Entry :=
  match d.kind with
  | .static =>
    { x with
      bytes := encodeField x.tag (renderU32 (d.bytes.length - (tagPrefixLen d.tag + 1)))
      kind := .static }
  | _ => { x with kind := .dataLen d.tag }

/-- An entry after the DATA rule has gone over `es`. -/
def tied (D : Dictionary) (es : List Entry) (x : Entry) : Entry :=
  match lengthOwner D es x.tag with
  | some d => d.tieTo x
  | none => x

/-- No entry is the length of two, or a length and DATA, and no length is there twice. -/
structure LengthsClear (D : Dictionary) (es : List Entry) : Prop where
  plain : ∀ d ∈ es, ∀ l, D.dataLengthTag d.tag = some l → D.dataLengthTag l = none
  one : ∀ l, es.Pairwise fun a b =>
    ¬ (D.dataLengthTag a.tag = some l ∧ D.dataLengthTag b.tag = some l)
  single : ∀ d ∈ es, ∀ l, D.dataLengthTag d.tag = some l →
    es.Pairwise fun a b => ¬ (a.tag = l ∧ b.tag = l)

@[simp] theorem Entry.tieTo_tag (d x : Entry) : (d.tieTo x).tag = x.tag := by
  unfold Entry.tieTo
  split <;> rfl

@[simp] theorem tied_tag (es : List Entry) (x : Entry) : (tied D es x).tag = x.tag := by
  unfold tied
  split <;> simp

/-- Changing the first entry of a tag changes every entry of that tag, when there is one. -/
theorem modify_eq_map {l j : ℕ} {f : Entry → Entry} {xs : List Entry}
    (single : xs.Pairwise fun a b => ¬ (a.tag = l ∧ b.tag = l))
    (h : xs.findIdx? (·.tag == l) = some j) :
    xs.modify j f = xs.map fun x => if x.tag = l then f x else x := by
  induction xs generalizing j with
  | nil => cases h
  | cons x xs ih =>
    obtain ⟨head, tail⟩ := List.pairwise_cons.mp single
    rw [List.findIdx?_cons] at h
    by_cases here : x.tag = l
    · obtain rfl : 0 = j := by simpa [here] using h
      have rest : xs.map (fun x => if x.tag = l then f x else x) = xs := by
        refine (List.map_congr_left fun y hy => ?_).trans (List.map_id xs)
        rw [if_neg fun eq => head y hy ⟨here, eq⟩]
        rfl
      simp [here, rest]
    · simp only [here, beq_iff_eq, if_false, Option.map_eq_some_iff] at h
      obtain ⟨k, found, rfl⟩ := h
      rw [List.modify_succ_cons, ih tail found, List.map_cons, if_neg here]

theorem lengthOwner_take_succ {es : List Entry} {i : ℕ} {e : Entry} (at_ : es[i]? = some e)
    (tag : ℕ) : lengthOwner D (es.take (i + 1)) tag =
      (lengthOwner D (es.take i) tag).or
        (if D.dataLengthTag e.tag = some tag then some e else none) := by
  unfold lengthOwner
  rw [List.take_add_one, at_, Option.toList_some, List.find?_append]
  congr 1
  by_cases owns : D.dataLengthTag e.tag = some tag <;> simp [owns]

theorem fixLength_ok {es es' : List Entry} {used used' i : ℕ} {e : Entry}
    (clear : LengthsClear D es) (at_ : es[i]? = some e)
    (h : fixLength D S used (es.map (tied D (es.take i))) i = .ok (used', es')) :
    es' = es.map (tied D (es.take (i + 1))) ∧
      ∀ l, D.dataLengthTag e.tag = some l → l ∈ es.map (·.tag) := by
  have mem : e ∈ es := List.mem_of_getElem? at_
  have at' : (es.map (tied D (es.take i)))[i]? = some (tied D (es.take i) e) := by
    rw [List.getElem?_map, at_]
    rfl
  unfold fixLength at h
  simp only [at', tied_tag] at h
  cases isData : D.dataLengthTag e.tag with
  | none =>
    simp only [isData, Except.ok.injEq, Prod.mk.injEq] at h
    refine ⟨?_, fun l eq => by cases eq⟩
    rw [← h.2]
    refine List.map_congr_left fun x _ => ?_
    unfold tied
    rw [lengthOwner_take_succ at_, isData]
    simp
  | some l =>
    have split : es = es.take i ++ e :: es.drop (i + 1) := by
      obtain ⟨lt, rfl⟩ := List.getElem?_eq_some_iff.mp at_
      rw [List.getElem_cons_drop, List.take_append_drop]
    have noOwner : lengthOwner D (es.take i) e.tag = none := by
      refine List.find?_eq_none.mpr fun d hd => ?_
      have := clear.plain d (List.mem_of_mem_take hd) e.tag
      simpa [isData] using this
    have fresh : lengthOwner D (es.take i) l = none := by
      refine List.find?_eq_none.mpr fun d hd => ?_
      have one := clear.one l
      rw [split] at one
      have := (List.pairwise_append.mp one).2.2 d hd e List.mem_cons_self
      simpa [isData] using this
    have same : tied D (es.take i) e = e := by
      unfold tied
      rw [noOwner]
    have single : (es.map (tied D (es.take i))).Pairwise fun a b => ¬ (a.tag = l ∧ b.tag = l) := by
      simpa [List.pairwise_map] using clear.single e mem l isData
    -- what the step makes of the length entry
    have step (f : Entry → Entry) {j : ℕ} (tie : ∀ x, x.tag = l → f x = e.tieTo x)
        (found : (es.map (tied D (es.take i))).findIdx? (·.tag == l) = some j) :
        (es.map (tied D (es.take i))).modify j f = es.map (tied D (es.take (i + 1))) := by
      rw [modify_eq_map single found, List.map_map]
      refine List.map_congr_left fun x _ => ?_
      simp only [Function.comp_apply, tied_tag]
      unfold tied
      rw [lengthOwner_take_succ at_, isData]
      by_cases eq : x.tag = l
      · rw [if_pos eq, eq, fresh, if_pos rfl]
        exact tie x eq
      · have other : ¬ some l = some x.tag := fun h => eq (Option.some.inj h).symm
        rw [if_neg eq, if_neg other, Option.or_none]
    simp only [isData, same] at h
    cases found : (es.map (tied D (es.take i))).findIdx? (·.tag == l) with
    | none => simp [found] at h
    | some j =>
      have declared : l ∈ es.map (·.tag) := by
        obtain ⟨lt, here, -⟩ := List.findIdx?_eq_some_iff_getElem.mp found
        have mem := List.getElem_mem lt
        rw [List.mem_map] at mem
        obtain ⟨x, hx, eq⟩ := mem
        rw [← eq, tied_tag] at here
        exact List.mem_map.mpr ⟨x, hx, by simpa using here⟩
      refine ⟨?_, fun l' eq => Option.some.inj eq ▸ declared⟩
      simp only [found] at h
      cases kind : e.kind with
      | static =>
        simp only [kind] at h
        split at h
        · cases h
        obtain ⟨-, rfl⟩ := Prod.mk.inj (Except.ok.inj h)
        refine step _ (fun x eq => ?_) found
        unfold Entry.tieTo
        rw [kind, eq]
      | slot =>
        simp only [kind] at h
        obtain ⟨-, rfl⟩ := Prod.mk.inj (Except.ok.inj h)
        refine step _ (fun x eq => ?_) found
        unfold Entry.tieTo
        rw [kind]
      | group =>
        simp only [kind] at h
        obtain ⟨-, rfl⟩ := Prod.mk.inj (Except.ok.inj h)
        refine step _ (fun x eq => ?_) found
        unfold Entry.tieTo
        rw [kind]
      | dataLen d =>
        simp only [kind] at h
        obtain ⟨-, rfl⟩ := Prod.mk.inj (Except.ok.inj h)
        refine step _ (fun x eq => ?_) found
        unfold Entry.tieTo
        rw [kind]

/-- **The DATA rule ties every length to its DATA**, and refuses a DATA field without one. -/
theorem fixLengths_ok {es es' : List Entry} {used used' : ℕ} (clear : LengthsClear D es)
    (h : fixLengths D S used es = .ok (used', es')) :
    es' = es.map (tied D es) ∧
      ∀ e ∈ es, ∀ l, D.dataLengthTag e.tag = some l → l ∈ es.map (·.tag) := by
  have all : ∀ n ≤ es.length, ∀ used' es', (List.range n).foldlM
      (fun acc i => fixLength D S acc.1 acc.2 i) (used, es) = .ok (used', es') →
      es' = es.map (tied D (es.take n)) ∧
        ∀ e ∈ es.take n, ∀ l, D.dataLengthTag e.tag = some l → l ∈ es.map (·.tag) := by
    intro n
    induction n with
    | zero =>
      intro _ used' es' h
      cases h
      refine ⟨((List.map_congr_left fun x _ => ?_).trans (List.map_id es)).symm, by simp⟩
      simp [tied, lengthOwner]
    | succ n ih =>
      intro le used' es' h
      rw [List.range_succ, List.foldlM_append] at h
      cases before : (List.range n).foldlM (fun acc i => fixLength D S acc.1 acc.2 i)
          (used, es) with
      | error e => rw [before] at h; cases h
      | ok acc =>
        obtain ⟨used₁, es₁⟩ := acc
        rw [before] at h
        obtain ⟨rfl, declared⟩ := ih (by omega) used₁ es₁ before
        have at_ : es[n]? = some es[n] := List.getElem?_eq_getElem (by omega)
        have last : fixLength D S used₁ (es.map (tied D (es.take n))) n = .ok (used', es') := by
          cases step : fixLength D S used₁ (es.map (tied D (es.take n))) n with
          | error e => simp [step, bind, Except.bind] at h
          | ok r =>
            simp only [step, List.foldlM_cons, List.foldlM_nil, bind, Except.bind, pure,
              Except.pure] at h
            exact h
        obtain ⟨rfl, here⟩ := fixLength_ok clear at_ last
        refine ⟨rfl, fun e he l isData => ?_⟩
        rw [List.take_add_one, at_, Option.toList_some] at he
        obtain he | he := List.mem_append.mp he
        · exact declared e he l isData
        · obtain rfl := List.mem_singleton.mp he
          exact here l isData
  have whole := all es.length le_rfl used' es' h
  rwa [List.take_length] at whole

/-! ### The parts -/

/-- The value of a static entry. -/
def Entry.value (e : Entry) : Bytes := (e.bytes.drop (tagPrefixLen e.tag)).dropLast

/-- A static entry is `tag=value` and its separator. -/
def Entry.Spelled (e : Entry) : Prop := e.kind = .static → ∃ v, e.bytes = encodeField e.tag v

theorem encodeField_value (tag : ℕ) (v : Bytes) :
    ((encodeField tag v).drop (tagPrefixLen tag)).dropLast = v := by
  have : encodeField tag v = (renderU32 tag ++ [EQ]) ++ (v ++ [SOH]) := by simp [encodeField]
  rw [this, show tagPrefixLen tag = (renderU32 tag ++ [EQ]).length by simp [tagPrefixLen],
    List.drop_left, List.dropLast_concat]

theorem Entry.Spelled.bytes_eq {e : Entry} (h : e.Spelled) (kind : e.kind = .static) :
    e.bytes = wire [(e.tag, e.value)] := by
  obtain ⟨v, eq⟩ := h kind
  have value : e.value = v := by
    unfold Entry.value
    rw [eq, encodeField_value]
  rw [value, eq]
  simp

section Lays

variable (D) (msgType : Bytes) (slots : List (ℕ × Bytes)) (groups : List GroupData)

/-- The fields an entry lays out. -/
def Entry.lays (e : Entry) : List (ℕ × Bytes) :=
  match e.kind with
  | .static => [(e.tag, e.value)]
  | .slot => (slotValue slots e.tag).toList.map fun v => (e.tag, v)
  | .dataLen d => (slotValue slots d).toList.map fun v => (e.tag, renderU32 v.length)
  | .group => (groupFor groups e.tag).toList.flatMap (groupFields D msgType maxDepth)

end Lays

/-- The `MsgType` a static entry sets. -/
def Entry.setsMsgType (e : Entry) : Option Bytes :=
  if e.kind = .static ∧ e.tag = 35 then some e.value else none

theorem appendHole_ok {parts parts' : List Part} {part : Part}
    (h : appendHole P parts part = .ok parts') : parts' = parts ++ [part] := by
  unfold appendHole at h
  split at h
  · cases h
  · cases h
    rfl

theorem appendStatic_ok {parts parts' : List Part} {bytes : Bytes}
    (h : appendStatic P parts bytes = .ok parts') :
    ∃ front tail before, parts = front ++ tail ∧ parts' = front ++ [.static (before ++ bytes)] ∧
      (tail = [] ∧ before = [] ∨ tail = [.static before]) := by
  unfold appendStatic at h
  split at h
  · rename_i before last
    cases h
    refine ⟨parts.dropLast, [.static before], before, ?_, rfl, .inr rfl⟩
    exact (List.dropLast_append_getLast? _ last).symm
  · split at h
    · cases h
    · cases h
      exact ⟨parts, [], [], by simp, by simp, .inl ⟨rfl, rfl⟩⟩

theorem msgType_eq {e : Entry} (spelled : e.Spelled) (kind : e.kind = .static) (tag : e.tag = 35) :
    (e.bytes.drop 3).take (e.bytes.length - 4) = e.value := by
  have : e.bytes = [0x33, 0x35, EQ] ++ (e.value ++ [SOH]) := by
    rw [spelled.bytes_eq kind, tag]
    simp [encodeField, show renderU32 35 = [0x33, 0x35] by decide]
  rw [this]
  simp

theorem layEntry_ok {t : Template} {slots : List (ℕ × Bytes)} {groups : List GroupData}
    {l l' : Layout} {e : Entry} (spelled : e.Spelled) (h : layEntry P S l e = .ok l') :
    l'.parts.flatMap (t.partBytes D slots groups) =
        l.parts.flatMap (t.partBytes D slots groups) ++ wire (e.lays D t.msgType slots groups) ∧
      l'.msgType = e.setsMsgType.getD l.msgType ∧
      (∀ n, .group n ∈ l.parts ∨ e.kind = .group ∧ e.tag = n → .group n ∈ l'.parts) ∧
      (l.hasGroup ∨ e.kind = .group → l'.hasGroup) := by
  unfold layEntry at h
  have hole (part : Part) (ps : List Part) (parts : appendHole P l.parts part = .ok ps) :
      ps.flatMap (t.partBytes D slots groups) =
          l.parts.flatMap (t.partBytes D slots groups) ++ t.partBytes D slots groups part ∧
        ∀ n, .group n ∈ l.parts ∨ part = .group n → .group n ∈ ps := by
    rw [appendHole_ok parts]
    refine ⟨by simp, fun n had => ?_⟩
    obtain had | rfl := had
    · exact List.mem_append_left _ had
    · exact List.mem_append_right _ List.mem_cons_self
  cases kind : e.kind with
  | static =>
    simp only [kind] at h
    split at h
    · cases h
    cases parts : appendStatic P l.parts e.bytes with
    | error e => simp [parts, bind, Except.bind] at h
    | ok ps =>
      simp only [parts, bind, Except.bind, Except.ok.injEq] at h
      subst h
      obtain ⟨front, tail, before, eq, rfl, had⟩ := appendStatic_ok parts
      refine ⟨?_, ?_, fun n had' => ?_, fun had' => ?_⟩
      · have joined : tail.flatMap (t.partBytes D slots groups) = before := by
          obtain ⟨rfl, rfl⟩ | rfl := had <;> simp [Template.partBytes]
        rw [eq, List.flatMap_append, List.flatMap_append, joined]
        simp [Template.partBytes, Entry.lays, kind, spelled.bytes_eq kind]
      · unfold Entry.setsMsgType
        by_cases tag : e.tag = 35
        · simp [kind, tag, msgType_eq spelled kind tag]
        · simp [tag]
      · obtain had' | ⟨no, -⟩ := had'
        · rw [eq] at had'
          obtain had' | had' := List.mem_append.mp had'
          · exact List.mem_append_left _ had'
          · obtain ⟨rfl, -⟩ | rfl := had
            · cases had'
            · simp at had'
        · cases no
      · obtain had' | no := had'
        · exact had'
        · cases no
  | slot =>
    simp only [kind] at h
    cases parts : appendHole P l.parts (.slot e.tag) with
    | error e => simp [parts, bind, Except.bind] at h
    | ok ps =>
      simp only [parts, bind, Except.bind, Except.ok.injEq] at h
      subst h
      obtain ⟨bytes, kept⟩ := hole _ _ parts
      refine ⟨?_, by simp [Entry.setsMsgType, kind], fun n had => kept n (had.imp_right ?_), ?_⟩
      · simpa [Entry.lays, kind, Template.partBytes] using bytes
      · exact fun no => by cases no.1
      · exact fun had => had.elim id fun no => by cases no
  | group =>
    simp only [kind] at h
    cases parts : appendHole P l.parts (.group e.tag) with
    | error e => simp [parts, bind, Except.bind] at h
    | ok ps =>
      simp only [parts, bind, Except.bind, Except.ok.injEq] at h
      subst h
      obtain ⟨bytes, kept⟩ := hole _ _ parts
      refine ⟨?_, by simp [Entry.setsMsgType, kind], fun n had => kept n (had.imp_right ?_), ?_⟩
      · simpa [Entry.lays, kind, Template.partBytes] using bytes
      · exact fun eq => by rw [eq.2]
      · exact fun _ => rfl
  | dataLen d =>
    simp only [kind] at h
    cases parts : appendHole P l.parts (.dataLen e.tag d) with
    | error e => simp [parts, bind, Except.bind] at h
    | ok ps =>
      simp only [parts, bind, Except.bind, Except.ok.injEq] at h
      subst h
      obtain ⟨bytes, kept⟩ := hole _ _ parts
      refine ⟨?_, by simp [Entry.setsMsgType, kind], fun n had => kept n (had.imp_right ?_), ?_⟩
      · simpa [Entry.lays, kind, Template.partBytes] using bytes
      · exact fun no => by cases no.1
      · exact fun had => had.elim id fun no => by cases no

theorem foldlM_layEntry_ok {t : Template} {slots : List (ℕ × Bytes)} {groups : List GroupData}
    {l l' : Layout} {es : List Entry} (spelled : ∀ e ∈ es, e.Spelled)
    (h : es.foldlM (layEntry P S) l = .ok l') :
    l'.parts.flatMap (t.partBytes D slots groups) =
        l.parts.flatMap (t.partBytes D slots groups) ++
          wire (es.flatMap (Entry.lays D t.msgType slots groups)) ∧
      l'.msgType = ((es.filterMap Entry.setsMsgType).getLast?).getD l.msgType ∧
      (∀ n, .group n ∈ l.parts ∨ (∃ e ∈ es, e.kind = .group ∧ e.tag = n) → .group n ∈ l'.parts) ∧
      (l.hasGroup ∨ (∃ e ∈ es, e.kind = .group) → l'.hasGroup) := by
  induction es generalizing l with
  | nil =>
    cases h
    simp
  | cons e es ih =>
    rw [List.foldlM_cons] at h
    cases first : layEntry P S l e with
    | error e => rw [first] at h; cases h
    | ok l₁ =>
      rw [first] at h
      obtain ⟨bytes, msgType, holes, has⟩ := @layEntry_ok D _ _ t slots
        groups _ _ _ (spelled e (by simp)) first
      obtain ⟨bytes', msgType', holes', has'⟩ := ih (fun x hx => spelled x (by simp [hx])) h
      refine ⟨?_, ?_, fun n had => ?_, fun had => ?_⟩
      · rw [bytes', bytes]
        simp
      · rw [msgType', msgType, List.filterMap_cons]
        cases e.setsMsgType with
        | none => rfl
        | some v =>
          rw [List.getLast?_cons]
          rfl
      · refine holes' n ?_
        obtain had | ⟨x, hx, kind, tag⟩ := had
        · exact .inl (holes n (.inl had))
        obtain rfl | hx := List.mem_cons.mp hx
        · exact .inl (holes n (.inr ⟨kind, tag⟩))
        · exact .inr ⟨x, hx, kind, tag⟩
      · refine has' ?_
        obtain had | ⟨x, hx, kind⟩ := had
        · exact .inl (has (.inl had))
        obtain rfl | hx := List.mem_cons.mp hx
        · exact .inl (has (.inr kind))
        · exact .inr ⟨x, hx, kind⟩

/-! ### Templates -/

theorem LengthsClear.perm {es es' : List Entry} (h : LengthsClear D es) (p : es'.Perm es) :
    LengthsClear D es' where
  plain d hd l isData := h.plain d (p.mem_iff.mp hd) l isData
  one l := (p.pairwise_iff fun no both => no ⟨both.2, both.1⟩).mpr (h.one l)
  single d hd l isData := (p.pairwise_iff fun no both => no ⟨both.2, both.1⟩).mpr
    (h.single d (p.mem_iff.mp hd) l isData)

/-- The DATA declaration whose length a tag states. -/
def dataFor (D : Dictionary) (ds : List Decl) (tag : ℕ) : Option Decl :=
  ds.find? fun d => D.dataLengthTag d.tag == some tag

/-- The value there is for a declaration at send time. -/
def Decl.supplied (slots : List (ℕ × Bytes)) : Decl → Option Bytes
  | field _ value => some value
  | x => slotValue slots x.tag

/-- The fields a declaration among `ds` lays out: a length states that of its DATA, if there is
any. -/
def Decl.lays (D : Dictionary) (ds : List Decl) (msgType : Bytes) (slots : List (ℕ × Bytes))
    (groups : List GroupData) (x : Decl) : List (ℕ × Bytes) :=
  match dataFor D ds x.tag with
  | some d => (d.supplied slots).toList.map fun v => (x.tag, renderU32 v.length)
  | none =>
    match x with
    | .field tag value => [(tag, value)]
    | .slot tag => (slotValue slots tag).toList.map fun v => (tag, v)
    | .group counter => (groupFor groups counter).toList.flatMap (groupFields D msgType maxDepth)

theorem entry_spelled (x : Decl) : x.entry.Spelled := by
  intro kind
  cases x with
  | field tag value => exact ⟨value, rfl⟩
  | slot tag => cases kind
  | group counter => cases kind

theorem tied_spelled {es : List Entry} {x : Entry} (h : x.Spelled) : (tied D es x).Spelled := by
  unfold tied
  split
  · unfold Entry.tieTo
    split
    · exact fun _ => ⟨_, rfl⟩
    · exact fun no => by cases no
  · exact h

theorem lengthOwner_map_entry (ds : List Decl) (tag : ℕ) :
    lengthOwner D (ds.map Decl.entry) tag = (dataFor D ds tag).map Decl.entry := by
  unfold lengthOwner dataFor
  rw [List.find?_map]
  congr 2
  funext d
  simp

theorem tied_lays {ds : List Decl} {msgType : Bytes} {slots : List (ℕ × Bytes)}
    {groups : List GroupData} (x : Decl) :
    (tied D (ds.map Decl.entry) x.entry).lays D msgType slots groups =
      x.lays D ds msgType slots groups := by
  unfold tied Decl.lays
  rw [Decl.entry_tag, lengthOwner_map_entry]
  cases dataFor D ds x.tag with
  | none =>
    cases x with
    | field tag value =>
      simp only [Option.map_none, Decl.entry, Entry.lays, Entry.value, encodeField_value]
    | slot tag => rfl
    | group counter => rfl
  | some d =>
    cases d with
    | field tag value =>
      have length : (encodeField tag value).length - (tagPrefixLen tag + 1) = value.length := by
        simp [encodeField, tagPrefixLen]
        omega
      have tie : (Decl.field tag value).entry.tieTo x.entry =
          { x.entry with bytes := encodeField x.tag (renderU32 value.length), kind := .static } := by
        rw [← length, ← x.entry_tag]
        rfl
      show ((Decl.field tag value).entry.tieTo x.entry).lays D msgType slots groups =
        [(x.tag, renderU32 value.length)]
      rw [tie]
      simp only [Entry.lays, Entry.value, Decl.entry_tag, encodeField_value]
    | slot tag =>
      rw [Option.map_some]
      show ((slotValue slots tag).toList.map fun v => (x.entry.tag, renderU32 v.length)) = _
      rw [Decl.entry_tag]
      rfl
    | group counter =>
      rw [Option.map_some]
      show ((slotValue slots counter).toList.map fun v => (x.entry.tag, renderU32 v.length)) = _
      rw [Decl.entry_tag]
      rfl

/-- The `MsgType` that declarations in wire order set. -/
def declaredMsgType (D : Dictionary) (top : List Decl) : Bytes :=
  (((top.map Decl.entry).map (tied D (top.map Decl.entry))).filterMap
    Entry.setsMsgType).getLast?.getD []

/-- **The parts of a template write what its declarations lay out**, sorted into wire order. -/
theorem build_ok {begin_ : Bytes} {ds : List Decl} {t : Template}
    (clear : LengthsClear D (ds.map Decl.entry))
    (h : (declare P S begin_ ds).build D P S = .ok t) :
    ∃ top : List Decl, top.Perm ds ∧
      (top.Pairwise fun a b => keyLt (sortKey D b.tag) (sortKey D a.tag) = false) ∧
      t.beginString = begin_ ∧ t.msgType = declaredMsgType D top ∧
      (∀ slots groups, t.parts.flatMap (t.partBytes D slots groups) =
        wire (top.flatMap (Decl.lays D top t.msgType slots groups))) ∧
      (∀ c, .group c ∈ ds → dataFor D top c = none → .group c ∈ t.parts ∧ t.msgType ≠ []) ∧
      (∀ x ∈ ds, ∀ l, D.dataLengthTag x.tag = some l → l ∈ ds.map Decl.tag) ∧
      ∀ x ∈ ds, reserved x.tag = false ∧ ∀ t v, x = .field t v → v.length ≤ u16Max := by
  unfold TemplateBuilder.build at h
  cases err : (declare P S begin_ ds).err with
  | some e => simp [err] at h
  | none =>
    obtain ⟨entries, front, declared⟩ := declare_ok err
    simp only [err] at h
    split at h
    · cases h
    rw [entries, front] at h
    cases fixed : fixLengths D S (declare P S begin_ ds).used
        (sortEntries D (ds.map Decl.entry)) with
    | error e => simp [fixed, bind, Except.bind] at h
    | ok r =>
      obtain ⟨used, es⟩ := r
      have perm := sortEntries_perm (D := D) (ds.map Decl.entry)
      obtain ⟨rfl, lengths⟩ := fixLengths_ok (clear.perm perm) fixed
      obtain ⟨top, topEq, topPerm⟩ : Relation.Comp (· = List.map Decl.entry ·) (·.Perm ·)
          (sortEntries D (ds.map Decl.entry)) ds := by
        rw [List.eq_map_comp_perm]
        exact perm
      have ordered := sortEntries_ordered (D := D) (ds.map Decl.entry)
      rw [topEq] at fixed h lengths ordered
      have spelled : ∀ e ∈ (top.map Decl.entry).map (tied D (top.map Decl.entry)), e.Spelled := by
        intro e he
        obtain ⟨x, hx, rfl⟩ := List.mem_map.mp he
        obtain ⟨d, -, rfl⟩ := List.mem_map.mp hx
        exact tied_spelled (entry_spelled d)
      simp only [fixed, bind, Except.bind] at h
      cases laid : ((top.map Decl.entry).map (tied D (top.map Decl.entry))).foldlM
          (layEntry P S) ⟨begin_.length, [], [], false⟩ with
      | error e => rw [laid] at h; cases h
      | ok l =>
        rw [laid] at h
        simp only at h
        split at h
        · cases h
        rename_i named
        split at h
        · cases h
        cases h
        have facts (t : Template) (slots : List (ℕ × Bytes)) (groups : List GroupData) :=
          @foldlM_layEntry_ok D _ _ t slots groups _ _ _ spelled laid
        refine ⟨top, topPerm, ?_, rfl, ?_, fun slots groups => ?_, fun c hc free => ?_,
          fun x hx k isData => ?_, declared⟩
        · simpa [Ordered, List.pairwise_map] using ordered
        · exact (facts ⟨begin_, l.msgType, l.parts⟩ [] []).2.1
        · rw [(facts ⟨begin_, l.msgType, l.parts⟩ slots groups).1]
          simp only [List.flatMap_nil, List.nil_append, List.flatMap_map, tied_lays]
        · have tied_c : ∃ e ∈ (top.map Decl.entry).map (tied D (top.map Decl.entry)),
              e.kind = .group ∧ e.tag = c := by
            refine ⟨(Decl.group c).entry, List.mem_map.mpr ⟨(Decl.group c).entry, ?_, ?_⟩, rfl, rfl⟩
            · exact List.mem_map.mpr ⟨_, topPerm.mem_iff.mpr hc, rfl⟩
            · unfold tied
              rw [lengthOwner_map_entry, Decl.entry_tag]
              simp [Decl.tag, free]
          obtain ⟨-, -, holes, has⟩ := facts ⟨begin_, l.msgType, l.parts⟩ [] []
          obtain ⟨e, he, kind, tag⟩ := tied_c
          refine ⟨holes c (.inr ⟨e, he, kind, tag⟩), fun none => ?_⟩
          have has := has (.inr ⟨e, he, kind⟩)
          simp only at none
          simp [has, none] at named
        · have := lengths x.entry (List.mem_map.mpr ⟨x, topPerm.mem_iff.mpr hx, rfl⟩) k (by simpa)
          obtain ⟨e, he, eq⟩ := List.mem_map.mp this
          obtain ⟨y, hy, rfl⟩ := List.mem_map.mp he
          exact List.mem_map.mpr ⟨y, topPerm.mem_iff.mp hy, by simpa using eq⟩

end Fixbolt
