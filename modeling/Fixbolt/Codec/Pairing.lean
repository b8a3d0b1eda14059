import Fixbolt.Codec.Layout
import Fixbolt.Codec.Framed

/-!
# Lengths in front of their DATA

A DATA value is read by the length in front of it. Here is when the fields of a template and of its
groups put every length there.

* `Dictionary.Paired`: DATA fields and lengths come in pairs, and nothing sorts between the two;
* `GroupReads`: the entries of a group whose DATA members all have their lengths in front;
* `groupFields_chain`, `lays_chain`: what such groups and such templates lay out can be read.
-/

namespace Fixbolt

variable {D : Dictionary} {msgType : Bytes} {levels : ℕ}

/-- DATA fields and their lengths come in pairs, both in the header or both in the body, and no
other field sorts between the two. -/
structure Dictionary.Paired (D : Dictionary) : Prop where
  side : ∀ d l, D.dataLengthTag d = some l → D.isHeader d = D.isHeader l
  plain : ∀ d l, D.dataLengthTag d = some l → D.dataLengthTag l = none
  one : ∀ d d' l, D.dataLengthTag d = some l → D.dataLengthTag d' = some l → d = d'
  between : ∀ d l t, D.dataLengthTag d = some l →
    ¬ (keyLt (sortKey D l) (sortKey D t) = true ∧ keyLt (sortKey D t) (sortKey D d) = true) ∧
    ¬ (keyLt (sortKey D d) (sortKey D t) = true ∧ keyLt (sortKey D t) (sortKey D l) = true)

/-! ### Values -/

theorem renderU32_plain (n : ℕ) : SOH ∉ renderU32 n := fun mem => (renderU32_digits n _ mem).1 rfl

theorem leads_plain {prev f : ℕ × Bytes} (isPlain : D.dataLengthTag f.1 = none)
    (value : SOH ∉ f.2) : Leads D prev f := by
  unfold Leads
  rw [isPlain]
  exact value

/-- A length that states how long its DATA is leads it. -/
theorem leads_data {l d : ℕ} {value : Bytes} (isData : D.dataLengthTag d = some l)
    (small : value.length < u32Size) : Leads D (l, renderU32 value.length) (d, value) := by
  unfold Leads
  rw [isData]
  exact ⟨rfl, asU32?_renderU32 small⟩

theorem slotValue_mem {slots : List (ℕ × Bytes)} {tag : ℕ} {v : Bytes}
    (h : slotValue slots tag = some v) : (tag, v) ∈ slots := by
  obtain ⟨s, found, rfl⟩ := Option.map_eq_some_iff.mp h
  have eq : s.1 = tag := by simpa using List.find?_some found
  rw [← eq]
  exact List.mem_of_find?_eq_some found

theorem slotValue_isSome {slots : List (ℕ × Bytes)} {tag : ℕ} :
    (slotValue slots tag).isSome ↔ tag ∈ slots.map (·.1) := by
  unfold slotValue
  rw [Option.isSome_map, List.find?_isSome]
  simp

theorem groupFor_mem {groups : List GroupData} {counter : ℕ} {g : GroupData}
    (h : groupFor groups counter = some g) : g ∈ groups ∧ g.1 = counter :=
  ⟨List.mem_of_find?_eq_some h, by simpa using List.find?_some h⟩

/-- The DATA member that a length states the length of. -/
theorem dataOwner_eq (paired : D.Paired) {order : List ℕ} {d l : ℕ} (mem : d ∈ order)
    (isData : D.dataLengthTag d = some l) : dataOwner D order l = some d := by
  cases found : dataOwner D order l with
  | none =>
    have := List.find?_eq_none.mp found d mem
    simp [isData] at this
  | some d' =>
    have owns : D.dataLengthTag d' = some l := by simpa using List.find?_some found
    rw [paired.one d' d l owns isData]

theorem dataOwner_data (paired : D.Paired) {order : List ℕ} {d l : ℕ}
    (isData : D.dataLengthTag d = some l) : dataOwner D order d = none := by
  refine List.find?_eq_none.mpr fun d' _ => ?_
  intro owns
  have := paired.plain d' d (by simpa using owns)
  rw [isData] at this
  cases this

/-! ### Groups that can be read -/

namespace GroupEntryData

/-- The members an entry writes, in the order of the dictionary. -/
def written (order : List ℕ) (e : GroupEntryData) : List ℕ :=
  order.filter fun t => (slotValue e.fields t).isSome || (groupFor e.groups t).isSome

/-- No value of an entry but a DATA value holds a separator. -/
inductive Plain (D : Dictionary) : GroupEntryData → Prop
  | mk {fields : List (ℕ × Bytes)} {groups : List GroupData}
      (here : ∀ f ∈ fields, D.dataLengthTag f.1 = none → SOH ∉ f.2)
      (nested : ∀ g ∈ groups, ∀ e ∈ g.2, Plain D e) : Plain D (.mk fields groups)

theorem Plain.value {e : GroupEntryData} (h : e.Plain D) {t : ℕ} {v : Bytes}
    (supplied : slotValue e.fields t = some v) (isPlain : D.dataLengthTag t = none) : SOH ∉ v := by
  cases h with
  | mk here _ => exact here _ (slotValue_mem supplied) isPlain

theorem Plain.group {e : GroupEntryData} (h : e.Plain D) {t : ℕ} {g : GroupData}
    (supplied : groupFor e.groups t = some g) : ∀ e ∈ g.2, e.Plain D := by
  cases h with
  | mk _ nested => exact nested g (groupFor_mem supplied).1

end GroupEntryData

/-- An entry whose values are short and whose DATA members stand directly behind their lengths;
`sub` is what is asked of a nested group. -/
structure EntryReads (D : Dictionary) (sub : GroupData → Prop) (order : List ℕ)
    (e : GroupEntryData) : Prop where
  short : ∀ t ∈ order, ∀ v, slotValue e.fields t = some v →
    (memberValue D order e.fields t v).length ≤ u16Max
  inner : ∀ t ∈ order, (slotValue e.fields t).isSome → t ≠ 10
  first : ∀ t ∈ (e.written order).head?, D.dataLengthTag t = none
  behind : (e.written order).IsChain fun a b =>
    ∀ l, D.dataLengthTag b = some l → a = l ∧ (slotValue e.fields l).isSome
  nested : ∀ t ∈ order, slotValue e.fields t = none → ∀ g, groupFor e.groups t = some g →
    D.dataLengthTag t = none ∧ sub g

/-- A group, at most `levels` deep, whose DATA members stand directly behind their lengths. -/
def GroupReads (D : Dictionary) (msgType : Bytes) : ℕ → GroupData → Prop
  | 0, _ => False
  | levels + 1, g => g.1 ≠ 10 ∧
    ∀ e ∈ g.2, EntryReads D (GroupReads D msgType levels) (D.groupOrder msgType g.1) e

/-- Items that each continue a chain lay out a chain; `Ready` is what an item finds in front of
it. -/
theorem isChain_flatMap {α β : Type} {R : β → β → Prop} {out : α → List β}
    {Ready : β → List α → Prop}
    (step : ∀ prev x xs, Ready prev (x :: xs) →
      List.IsChain R (prev :: out x) ∧ Ready ((out x).getLastD prev) xs)
    {prev : β} {xs : List α} (h : Ready prev xs) : List.IsChain R (prev :: xs.flatMap out) := by
  induction xs generalizing prev with
  | nil => exact List.isChain_singleton _
  | cons x xs ih =>
    obtain ⟨here, ready⟩ := step prev x xs h
    have rest := ih ready
    rw [List.flatMap_cons, ← List.cons_append]
    refine List.isChain_append.mpr ⟨here, rest.tail, fun a ha b hb => ?_⟩
    have last : a = (out x).getLastD prev := by
      rw [List.getLast?_cons] at ha
      simpa using ha.symm
    subst last
    exact rest.rel_head? hb

/-- Fields that may stand behind any field. -/
def Free (D : Dictionary) (fields : List (ℕ × Bytes)) : Prop :=
  ∀ prev, List.IsChain (Leads D) (prev :: fields)

theorem Free.flatMap {α : Type} {xs : List α} {out : α → List (ℕ × Bytes)}
    (h : ∀ x ∈ xs, Free D (out x)) : Free D (xs.flatMap out) := by
  intro prev
  refine @isChain_flatMap _ _ _ _ (fun _ ys => ∀ x ∈ ys, Free D (out x)) ?_ _ _ h
  exact fun prev x xs all => ⟨all x (by simp) prev, fun y hy => all y (by simp [hy])⟩

theorem memberValue_plain {order : List ℕ} {fields : List (ℕ × Bytes)} {t : ℕ} {v : Bytes}
    (value : SOH ∉ v) : SOH ∉ memberValue D order fields t v := by
  unfold memberValue
  split
  · exact renderU32_plain _
  · exact value

theorem memberValue_length (paired : D.Paired) {order : List ℕ} {fields : List (ℕ × Bytes)}
    {d l : ℕ} {v data : Bytes} (mem : d ∈ order) (isData : D.dataLengthTag d = some l)
    (supplied : slotValue fields d = some data) :
    memberValue D order fields l v = renderU32 data.length := by
  unfold memberValue
  rw [dataOwner_eq paired mem isData, Option.bind_some, supplied]

theorem memberValue_data (paired : D.Paired) {order : List ℕ} {fields : List (ℕ × Bytes)}
    {d l : ℕ} {v : Bytes} (isData : D.dataLengthTag d = some l) :
    memberValue D order fields d v = v := by
  unfold memberValue
  rw [dataOwner_data paired isData, Option.bind_none]

theorem GroupEntryData.written_cons {e : GroupEntryData} {t : ℕ} {ts : List ℕ} :
    e.written (t :: ts) =
      if (slotValue e.fields t).isSome ∨ (groupFor e.groups t).isSome then t :: e.written ts
      else e.written ts := by
  unfold GroupEntryData.written
  simp only [List.filter_cons, Bool.or_eq_true]

/-- What a member finds in front of it: when it is DATA, its length. -/
def EntryReady (D : Dictionary) (order : List ℕ) (e : GroupEntryData) (prev : ℕ × Bytes)
    (ts : List ℕ) : Prop :=
  ts ⊆ order ∧
    (e.written ts).IsChain
      (fun a b => ∀ l, D.dataLengthTag b = some l → a = l ∧ (slotValue e.fields l).isSome) ∧
    ∀ t ∈ (e.written ts).head?, ∀ l, D.dataLengthTag t = some l →
      ∃ v, slotValue e.fields l = some v ∧ prev = (l, memberValue D order e.fields l v)

/-- The members of an entry may stand behind anything. -/
theorem entryFields_free (paired : D.Paired) {sub : GroupData → Prop}
    {out : GroupData → List (ℕ × Bytes)} {order : List ℕ} {e : GroupEntryData}
    (reads : EntryReads D sub order e) (plain : e.Plain D)
    (nested : ∀ g, D.dataLengthTag g.1 = none → (∀ e ∈ g.2, e.Plain D) → sub g → Free D (out g)) :
    Free D (entryFields D out order e) := by
  intro prev
  refine @isChain_flatMap _ _ _ _ (EntryReady D order e) ?_ _ _
    ⟨List.Subset.refl _, reads.behind, fun t ht l isData => ?_⟩
  · rintro prev t ts ⟨inOrder, chain, front⟩
    have mem : t ∈ order := inOrder List.mem_cons_self
    have rest : ts ⊆ order := fun x hx => inOrder (List.mem_cons_of_mem _ hx)
    rw [GroupEntryData.written_cons] at chain front
    cases supplied : slotValue e.fields t with
    | some v =>
      simp only [supplied, Option.isSome_some, true_or, if_true, List.head?_cons,
        Option.mem_some_iff, forall_eq'] at chain front
      simp only [memberFields, supplied]
      refine ⟨List.isChain_pair.mpr ?_, rest, chain.tail, fun t' ht' l isData => ?_⟩
      · cases isData : D.dataLengthTag t with
        | none => exact leads_plain isData (memberValue_plain (plain.value supplied isData))
        | some l =>
          obtain ⟨w, -, rfl⟩ := front l isData
          have short := reads.short t mem v supplied
          rw [memberValue_length paired mem isData supplied, memberValue_data paired isData]
          rw [memberValue_data paired isData] at short
          exact leads_data isData (by unfold u32Size; unfold u16Max at short; omega)
      · obtain ⟨rfl, -⟩ := chain.rel_head? ht' l isData
        exact ⟨v, supplied, rfl⟩
    | none =>
      cases found : groupFor e.groups t with
      | some g =>
        simp only [supplied, found, Option.isSome_some, or_true, if_true, List.head?_cons,
          Option.mem_some_iff, forall_eq'] at chain front
        obtain ⟨-, rfl⟩ := groupFor_mem found
        obtain ⟨counter, reads⟩ := reads.nested g.1 mem supplied g found
        simp only [memberFields, supplied, found]
        refine ⟨nested g counter (plain.group found) reads prev, rest, chain.tail,
          fun t' ht' l isData => ?_⟩
        -- a DATA member does not stand behind a group
        obtain ⟨rfl, some⟩ := chain.rel_head? ht' l isData
        rw [supplied] at some
        cases some
      | none =>
        simp only [supplied, found, Option.isSome_none, Bool.false_eq_true, or_self,
          if_false] at chain front
        simp only [memberFields, supplied, found]
        exact ⟨List.isChain_singleton _, rest, chain, front⟩
  · have := reads.first t ht
    rw [isData] at this
    cases this

/-- **A group whose DATA members have their lengths in front may stand behind anything.** -/
theorem groupFields_free (paired : D.Paired) {g : GroupData} (counter : D.dataLengthTag g.1 = none)
    (plain : ∀ e ∈ g.2, e.Plain D) (reads : GroupReads D msgType levels g) :
    Free D (groupFields D msgType levels g) := by
  induction levels generalizing g with
  | zero => cases reads
  | succ levels ih =>
    intro prev
    rw [groupFields]
    refine List.isChain_cons_cons.mpr ⟨leads_plain counter (renderU32_plain _), ?_⟩
    refine Free.flatMap (fun e he => ?_) _
    exact entryFields_free paired (reads.2 e he) (plain e he) fun g counter plain reads =>
      ih counter plain reads

/-! ### Where a length sorts -/

/-- Two fields that sort to one place are one field. -/
theorem sortKey_inj (paired : D.Paired) {a b : ℕ} (h : sortKey D a = sortKey D b) : a = b := by
  have rank (t : ℕ) : (sortKey D t).1 = if t = 35 then 0 else if D.isHeader t then 1 else 2 := by
    unfold sortKey
    cases D.dataLengthTag t with
    | none => rfl
    | some l =>
      by_cases t35 : t = 35
      · simp [t35]
      · by_cases inHeader : D.isHeader t = true <;> simp [t35, inHeader]
  have first : (sortKey D a).1 = (sortKey D b).1 := congrArg (·.1) h
  rw [rank, rank] at first
  by_cases a35 : a = 35
  · by_cases b35 : b = 35
    · rw [a35, b35]
    · simp only [a35, b35, if_true, if_false] at first
      split at first <;> cases first
  by_cases b35 : b = 35
  · simp only [a35, b35, if_true, if_false] at first
    split at first <;> cases first
  by_cases inHeader : D.isHeader a = true
  · have inHeader' : D.isHeader b = true := by
      by_contra no
      simp [a35, b35, inHeader, no] at first
    unfold sortKey at h
    simp only [a35, b35, inHeader, inHeader', if_true, if_false] at h
    cases da : D.dataLengthTag a <;> cases db : D.dataLengthTag b <;> simpa [da, db] using h
  · have inBody : ¬ D.isHeader b = true := by
      intro yes
      simp [a35, b35, inHeader, yes] at first
    unfold sortKey at h
    simp only [a35, b35, inHeader, inBody, if_false] at h
    cases da : D.dataLengthTag a with
    | none => cases db : D.dataLengthTag b <;> simp [da, db] at h; exact h
    | some l =>
      cases db : D.dataLengthTag b with
      | none => simp [da, db] at h
      | some l' =>
        have : l = l' := by simpa [da, db] using h
        exact paired.one a b l da (this ▸ db)

/-- **Nothing is declared between a length and its DATA**, so that among declarations in wire order
the one in front of a DATA field is its length. -/
theorem behind_of_ordered (paired : D.Paired) {top pre post : List Decl} {x : Decl} {l : ℕ}
    (nodup : (top.map Decl.tag).Nodup)
    (ordered : top.Pairwise fun a b => keyLt (sortKey D b.tag) (sortKey D a.tag) = false)
    (eq : top = pre ++ x :: post) (isData : D.dataLengthTag x.tag = some l)
    (declared : l ∈ top.map Decl.tag) (front : keyLt (sortKey D l) (sortKey D x.tag) = true) :
    ∃ y, pre.getLast? = some y ∧ y.tag = l := by
  subst eq
  obtain ⟨y, hy, rfl⟩ := List.mem_map.mp declared
  obtain ⟨orderedPre, orderedPost, across⟩ := List.pairwise_append.mp ordered
  rw [List.map_append, List.map_cons] at nodup
  obtain hy | hy := List.mem_append.mp hy
  · -- a declaration behind the length and in front of the DATA sorts between the two
    obtain ⟨before, mid, rfl⟩ := List.append_of_mem hy
    cases last : mid.getLast? with
    | none =>
      rw [List.getLast?_eq_none_iff] at last
      subst last
      exact ⟨y, by simp, rfl⟩
    | some z =>
      have hz : z ∈ mid := List.mem_of_getLast? last
      have behind : keyLt (sortKey D z.tag) (sortKey D y.tag) = false := by
        have := (List.pairwise_append.mp orderedPre).2.1
        exact (List.pairwise_cons.mp this).1 z hz
      have ahead : keyLt (sortKey D x.tag) (sortKey D z.tag) = false :=
        across z (by simp [hz]) x List.mem_cons_self
      have apart := paired.between x.tag y.tag z.tag isData
      have diff : y.tag ≠ z.tag := by
        intro eq
        rw [List.map_append, List.map_cons] at nodup
        have := (List.nodup_append.mp (List.nodup_append.mp nodup).1).2.1
        exact (List.nodup_cons.mp this).1 (eq ▸ List.mem_map_of_mem hz)
      have diff' : z.tag ≠ x.tag := by
        intro eq
        refine (List.nodup_append.mp nodup).2.2 z.tag ?_ x.tag List.mem_cons_self eq
        exact List.mem_map_of_mem (by simp [hz])
      refine absurd ⟨?_, ?_⟩ apart.1
      · by_contra no
        exact diff (sortKey_inj paired (keyLt_total (by simpa using no) behind))
      · by_contra no
        exact diff' (sortKey_inj paired (keyLt_total (by simpa using no) ahead))
  · -- the length sorts in front of its DATA
    obtain rfl | hy := List.mem_cons.mp hy
    · rw [keyLt_irrefl] at front
      cases front
    · have := (List.pairwise_cons.mp orderedPost).1 y hy
      rw [front] at this
      cases this

/-! ### Templates that can be read -/

theorem tag_inj {ds : List Decl} (nodup : (ds.map Decl.tag).Nodup) {x y : Decl} (hx : x ∈ ds)
    (hy : y ∈ ds) (eq : x.tag = y.tag) : x = y := List.inj_on_of_nodup_map nodup hx hy eq

theorem dataFor_mem {ds : List Decl} {l : ℕ} {d : Decl} (h : dataFor D ds l = some d) :
    d ∈ ds ∧ D.dataLengthTag d.tag = some l :=
  ⟨List.mem_of_find?_eq_some h, by simpa using List.find?_some h⟩

theorem dataFor_eq (paired : D.Paired) {ds : List Decl} (nodup : (ds.map Decl.tag).Nodup) {l : ℕ}
    {d : Decl} (mem : d ∈ ds) (isData : D.dataLengthTag d.tag = some l) :
    dataFor D ds l = some d := by
  cases found : dataFor D ds l with
  | none =>
    have := List.find?_eq_none.mp found d mem
    simp [isData] at this
  | some d' =>
    obtain ⟨mem', isData'⟩ := dataFor_mem found
    rw [tag_inj nodup mem' mem (paired.one _ _ l isData' isData)]

theorem dataFor_data (paired : D.Paired) {ds : List Decl} {d l : ℕ}
    (isData : D.dataLengthTag d = some l) : dataFor D ds d = none := by
  cases found : dataFor D ds d with
  | none => rfl
  | some d' =>
    have := paired.plain _ _ (dataFor_mem found).2
    rw [isData] at this
    cases this

/-- Which DATA a length belongs to does not depend on the order of the declarations. -/
theorem dataFor_perm (paired : D.Paired) {ds ds' : List Decl} (perm : ds.Perm ds')
    (nodup : (ds.map Decl.tag).Nodup) (l : ℕ) : dataFor D ds l = dataFor D ds' l := by
  have nodup' : (ds'.map Decl.tag).Nodup := (perm.map Decl.tag).nodup_iff.mp nodup
  cases found : dataFor D ds l with
  | some d =>
    obtain ⟨mem, isData⟩ := dataFor_mem found
    rw [dataFor_eq paired nodup' (perm.mem_iff.mp mem) isData]
  | none =>
    cases found' : dataFor D ds' l with
    | none => rfl
    | some d =>
      obtain ⟨mem, isData⟩ := dataFor_mem found'
      rw [dataFor_eq paired nodup (perm.mem_iff.mpr mem) isData] at found
      cases found

section Given

variable (D) (ds : List Decl) (msgType : Bytes) (slots : List (ℕ × Bytes)) (groups : List GroupData)

/-- Is there something to write for a declaration among `ds`? -/
def Decl.given (x : Decl) : Bool :=
  match dataFor D ds x.tag with
  | some d => (d.supplied slots).isSome
  | none =>
    match x with
    | .field _ _ => true
    | .slot tag => (slotValue slots tag).isSome
    | .group counter => (groupFor groups counter).isSome

/-- What a sender has to supply for declarations to be read: a `MsgType`, values that an index can
record, DATA that sorts behind its length and is not a group, and groups that can be read. -/
structure Readable : Prop where
  named : ∃ x ∈ ds, x.tag = 35 ∧ x.given D ds slots groups = true
  short : ∀ t, .slot t ∈ ds → dataFor D ds t = none → ∀ v, slotValue slots t = some v →
    v.length ≤ u16Max
  data : ∀ x ∈ ds, ∀ l, D.dataLengthTag x.tag = some l → x.given D ds slots groups = true →
    (∀ c, x ≠ .group c) ∧ keyLt (sortKey D l) (sortKey D x.tag) = true
  groups : ∀ c, .group c ∈ ds → dataFor D ds c = none → ∀ g, groupFor groups c = some g →
    GroupReads D msgType maxDepth g

end Given

theorem lays_eq_nil_iff {ds : List Decl} {slots : List (ℕ × Bytes)} {groups : List GroupData}
    {x : Decl} : x.lays D ds msgType slots groups = [] ↔ x.given D ds slots groups = false := by
  unfold Decl.lays Decl.given
  cases dataFor D ds x.tag with
  | some d => cases d.supplied slots <;> simp
  | none =>
    cases x with
    | field tag value => simp
    | slot tag => cases slotValue slots tag <;> simp
    | group c =>
      cases found : groupFor groups c with
      | none => simp [found]
      | some g => simp [found, maxDepth, groupFields]

/-- What a declaration lays out begins with its own tag. -/
theorem lays_head {ds : List Decl} {slots : List (ℕ × Bytes)} {groups : List GroupData} {x : Decl}
    {f : ℕ × Bytes} (h : (x.lays D ds msgType slots groups).head? = some f) : f.1 = x.tag := by
  unfold Decl.lays at h
  cases owner : dataFor D ds x.tag with
  | some d =>
    simp only [owner] at h
    cases supplied : d.supplied slots with
    | none => rw [supplied] at h; cases h
    | some v => rw [supplied] at h; cases h; rfl
  | none =>
    simp only [owner] at h
    cases x with
    | field tag value => cases h; rfl
    | slot tag =>
      simp only at h
      cases supplied : slotValue slots tag with
      | none => rw [supplied] at h; cases h
      | some v => rw [supplied] at h; cases h; rfl
    | group c =>
      simp only at h
      cases found : groupFor groups c with
      | none => rw [found] at h; cases h
      | some g =>
        simp only [found, Option.toList_some, List.flatMap_cons, List.flatMap_nil,
          List.append_nil, maxDepth, groupFields, List.head?_cons, Option.some.injEq] at h
        subst h
        exact (groupFor_mem found).2

/-- What a declaration finds in front of it: when it is DATA, its length. -/
def DeclReady (D : Dictionary) (top : List Decl) (slots : List (ℕ × Bytes))
    (groups : List GroupData) (prev : ℕ × Bytes) (xs : List Decl) : Prop :=
  xs ⊆ top ∧
    (xs.IsChain fun a b => ∀ l, D.dataLengthTag b.tag = some l →
      b.given D top slots groups = true → a.tag = l) ∧
    ∀ x ∈ xs.head?, ∀ l, D.dataLengthTag x.tag = some l → x.given D top slots groups = true →
      ∀ v, x.supplied slots = some v → prev = (l, renderU32 v.length)

theorem given_length {ds : List Decl} {slots : List (ℕ × Bytes)} {groups : List GroupData}
    {x d : Decl} (owner : dataFor D ds x.tag = some d) :
    x.given D ds slots groups = (d.supplied slots).isSome := by
  simp only [Decl.given, owner]

theorem lays_length {ds : List Decl} {slots : List (ℕ × Bytes)} {groups : List GroupData}
    {x d : Decl} (owner : dataFor D ds x.tag = some d) : x.lays D ds msgType slots groups =
      (d.supplied slots).toList.map fun v => (x.tag, renderU32 v.length) := by
  simp only [Decl.lays, owner]

/-- What a declaration supplies, when it is neither a length nor a group. -/
theorem lays_supplied {ds : List Decl} {slots : List (ℕ × Bytes)} {groups : List GroupData}
    {x : Decl} (owner : dataFor D ds x.tag = none) (single : ∀ c, x ≠ .group c) :
    x.lays D ds msgType slots groups = (x.supplied slots).toList.map fun v => (x.tag, v) := by
  unfold Decl.lays
  rw [owner]
  cases x with
  | field tag value => rfl
  | slot tag => rfl
  | group c => exact absurd rfl (single c)

/-- What a template lays out may stand behind anything, when it is `Readable`. -/
theorem lays_chain (paired : D.Paired) {top : List Decl} {slots : List (ℕ × Bytes)}
    {groups : List GroupData} (nodup : (top.map Decl.tag).Nodup)
    (ordered : top.Pairwise fun a b => keyLt (sortKey D b.tag) (sortKey D a.tag) = false)
    (declared : ∀ x ∈ top, ∀ l, D.dataLengthTag x.tag = some l → l ∈ top.map Decl.tag)
    (statics : ∀ t v, .field t v ∈ top → v.length ≤ u16Max ∧ (D.dataLengthTag t = none → SOH ∉ v))
    (supplied : ∀ t v, slotValue slots t = some v → D.dataLengthTag t = none → SOH ∉ v)
    (entries : ∀ g ∈ groups, ∀ e ∈ g.2, e.Plain D)
    (reads : Readable D top msgType slots groups) :
    Free D (top.flatMap (Decl.lays D top msgType slots groups)) := by
  -- a DATA field has its length in front of it
  have behind {pre post : List Decl} {x : Decl} {l : ℕ} (eq : top = pre ++ x :: post)
      (isData : D.dataLengthTag x.tag = some l) (given : x.given D top slots groups = true) :
      ∃ y, pre.getLast? = some y ∧ y.tag = l := by
    have mem : x ∈ top := by simp [eq]
    exact behind_of_ordered paired nodup ordered eq isData (declared x mem l isData)
      (reads.data x mem l isData given).2
  intro prev
  refine @isChain_flatMap _ _ _ _ (DeclReady D top slots groups) ?_ _ _
    ⟨List.Subset.refl _, ?_, fun x hx l isData given => ?_⟩
  · rintro prev x xs ⟨inTop, chain, front⟩
    have mem : x ∈ top := inTop List.mem_cons_self
    have rest : xs ⊆ top := fun y hy => inTop (List.mem_cons_of_mem _ hy)
    simp only [List.head?_cons, Option.mem_some_iff, forall_eq'] at front
    cases given : x.given D top slots groups with
    | false =>
      rw [lays_eq_nil_iff.mpr given]
      refine ⟨List.isChain_singleton _, rest, chain.tail, fun y hy l isData given' v value => ?_⟩
      -- the length of a DATA that is there is there too
      exfalso
      have eq := chain.rel_head? hy l isData given'
      have mem' : y ∈ top := rest (List.mem_of_mem_head? hy)
      rw [given_length (eq ▸ dataFor_eq paired nodup mem' isData), value] at given
      cases given
    | true =>
      cases owner : dataFor D top x.tag with
      | some d =>
        obtain ⟨mem', isData'⟩ := dataFor_mem owner
        rw [given_length owner] at given
        obtain ⟨w, value⟩ := Option.isSome_iff_exists.mp given
        rw [lays_length owner, value]
        refine ⟨List.isChain_pair.mpr ?_, rest, chain.tail, fun y hy l isData given' v hv => ?_⟩
        · exact leads_plain (paired.plain _ _ isData') (renderU32_plain _)
        · have eq := chain.rel_head? hy l isData given'
          have memY : y ∈ top := rest (List.mem_of_mem_head? hy)
          have same : y = d := by
            refine tag_inj nodup memY mem' (paired.one _ _ l isData ?_)
            rw [← eq]
            exact isData'
          rw [same, value] at hv
          cases hv
          rw [← eq]
          rfl
      | none =>
        have notLength : ∀ y ∈ xs.head?, ∀ l, D.dataLengthTag y.tag = some l →
            y.given D top slots groups = true → False := by
          intro y hy l isData given'
          have eq := chain.rel_head? hy l isData given'
          have memY : y ∈ top := rest (List.mem_of_mem_head? hy)
          rw [eq, dataFor_eq paired nodup memY isData] at owner
          cases owner
        refine ⟨?_, rest, chain.tail, fun y hy l isData given' => absurd given' fun given' =>
          notLength y hy l isData given'⟩
        cases isData : D.dataLengthTag x.tag with
        | some l =>
          have single := (reads.data x mem l isData given).1
          rw [lays_supplied owner single]
          cases value : x.supplied slots with
          | none => exact List.isChain_singleton _
          | some v =>
            refine List.isChain_pair.mpr ?_
            rw [front l isData given v value]
            have short : v.length ≤ u16Max := by
              cases x with
              | field t w => exact Option.some.inj value ▸ (statics t w mem).1
              | slot t => exact reads.short t mem owner v value
              | group c => exact absurd rfl (single c)
            exact leads_data isData (by unfold u32Size; unfold u16Max at short; omega)
        | none =>
          cases x with
          | field t w =>
            rw [lays_supplied owner fun c eq => by cases eq]
            exact List.isChain_pair.mpr (leads_plain isData ((statics t _ mem).2 isData))
          | slot t =>
            rw [lays_supplied owner fun c eq => by cases eq]
            cases value : (Decl.slot t).supplied slots with
            | none => exact List.isChain_singleton _
            | some v => exact List.isChain_pair.mpr (leads_plain isData (supplied t v value isData))
          | group c =>
            cases found : groupFor groups c with
            | none => simp [Decl.given, owner, found] at given
            | some g =>
              obtain ⟨memG, rfl⟩ := groupFor_mem found
              have out : (Decl.group g.1).lays D top msgType slots groups =
                  groupFields D msgType maxDepth g := by
                simp [Decl.lays, owner, found]
              rw [out]
              exact groupFields_free paired isData (entries g memG)
                (reads.groups g.1 mem owner g found) prev
  · refine List.isChain_iff_forall_rel_of_append_cons_cons.mpr ?_
    intro a b l₁ l₂ eq l isData given
    obtain ⟨y, last, rfl⟩ := behind (eq.trans (by simp) : top = (l₁ ++ [a]) ++ b :: l₂) isData given
    rw [List.getLast?_concat] at last
    cases last
    rfl
  · obtain ⟨ys, eq⟩ := List.head?_eq_some_iff.mp hx
    obtain ⟨y, last, -⟩ := @behind [] _ _ _ eq isData given
    cases last

end Fixbolt
