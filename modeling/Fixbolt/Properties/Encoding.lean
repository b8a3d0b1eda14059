import Fixbolt.Codec.Pairing
import Fixbolt.Codec.Readback

/-!
# What is encoded is read back

A message that a template writes is read back, field by field, if and only if what was supplied for
it is `Readable`. The encoder asks for the length of a DATA member of a group where it should ask
whether the length was supplied: it looks for it in the table of the group.

* `WireOrder`: the order a template writes its fields in;
* `Dictionary.Orderly`: dictionaries whose own tables put every length in front of its DATA;
* `groupReads_of_chain`: fields of a group that can be read come from entries that can be;
* `encodeWith_reads_iff`: when the parser reads what the encoder wrote.
-/

namespace Fixbolt

variable {D : Dictionary} {msgType : Bytes} {levels : ℕ}

/-! ### Wire order -/

/-- `MsgType`, header or body. -/
def wireRank (D : Dictionary) (tag : ℕ) : ℕ :=
  if tag = 35 then 0 else if D.isHeader tag then 1 else 2

/-- The tag a field is placed by: a DATA field of the body is placed by that of its length. -/
def wirePlace (D : Dictionary) (tag : ℕ) : ℕ :=
  if D.isHeader tag then tag else (D.dataLengthTag tag).getD tag

/-- `MsgType`, then the header ascending, then the body ascending, with a DATA field of the body
behind its length. -/
def WireOrder (D : Dictionary) (ds : List Decl) : Prop :=
  ds.Pairwise fun a b => wireRank D a.tag < wireRank D b.tag ∨
    wireRank D a.tag = wireRank D b.tag ∧ (wirePlace D a.tag < wirePlace D b.tag ∨
      wirePlace D a.tag = wirePlace D b.tag ∧ D.dataLengthTag b.tag = some a.tag)

theorem sortKey_eq {t : ℕ} (ne : t ≠ 35) : sortKey D t = (wireRank D t, wirePlace D t,
    if D.isHeader t = false ∧ (D.dataLengthTag t).isSome then 1 else 0) := by
  unfold sortKey wireRank wirePlace
  by_cases inHeader : D.isHeader t = true
  · cases D.dataLengthTag t <;> simp [inHeader, ne]
  · cases D.dataLengthTag t <;> simp [inHeader, ne]

theorem sortKey_msgType : sortKey D 35 = (0, 0, 0) := by
  unfold sortKey
  cases D.dataLengthTag 35 <;> simp

/-- Fields that the sort of a template leaves in this order are in wire order. -/
theorem wireOrder_of_keys (paired : D.Paired) {a b : ℕ} (ne : a ≠ b)
    (ordered : keyLt (sortKey D b) (sortKey D a) = false) :
    wireRank D a < wireRank D b ∨ wireRank D a = wireRank D b ∧
      (wirePlace D a < wirePlace D b ∨
        wirePlace D a = wirePlace D b ∧ D.dataLengthTag b = some a) := by
  have lt : keyLt (sortKey D a) (sortKey D b) = true := by
    by_contra no
    exact ne (sortKey_inj paired (keyLt_total (by simpa using no) ordered))
  have rank {t : ℕ} (h : t ≠ 35) : 0 < wireRank D t := by
    unfold wireRank
    rw [if_neg h]
    split <;> omega
  by_cases a35 : a = 35
  · left
    rw [a35] at ne ⊢
    simpa [wireRank] using rank ne.symm
  by_cases b35 : b = 35
  · rw [b35, sortKey_msgType] at lt
    simp [keyLt] at lt
  rw [sortKey_eq a35, sortKey_eq b35] at lt
  simp only [keyLt, Bool.or_eq_true, Bool.and_eq_true, decide_eq_true_eq, beq_iff_eq] at lt
  obtain less | ⟨same, less | ⟨place, last⟩⟩ := lt
  · exact .inl less
  · exact .inr ⟨same, .inl less⟩
  · -- only a DATA field of the body shares its place, and only with its length
    refine .inr ⟨same, .inr ⟨place, ?_⟩⟩
    by_cases isData : D.isHeader b = false ∧ (D.dataLengthTag b).isSome = true
    · rw [if_pos isData] at last
      obtain ⟨inBody, some⟩ := isData
      obtain ⟨l, isData⟩ := Option.isSome_iff_exists.mp some
      have inBody' : D.isHeader a = false := by
        unfold wireRank at same
        rw [if_neg a35, if_neg b35, inBody] at same
        by_contra yes
        simp [yes] at same
      have isPlain : D.dataLengthTag a = none := by
        by_contra no
        rw [if_pos ⟨inBody', Option.isSome_iff_ne_none.mpr no⟩] at last
        omega
      unfold wirePlace at place
      simp only [inBody, inBody', isData, isPlain, Bool.false_eq_true, if_false, Option.getD_none,
        Option.getD_some] at place
      rw [place, isData]
    · rw [if_neg isData] at last
      omega

/-! ### Groups that are read back -/

/-- Is `tag` a member of the group of this counter, or of a group nested in it? -/
inductive Dictionary.Within (D : Dictionary) (msgType : Bytes) : ℕ → ℕ → Prop
  | member {counter tag : ℕ} (mem : tag ∈ D.groupOrder msgType counter) :
      D.Within msgType counter tag
  | nested {counter inner tag : ℕ} (mem : inner ∈ D.groupOrder msgType counter)
      (within : D.Within msgType inner tag) : D.Within msgType counter tag

/-- A dictionary whose own tables put every length directly in front of its DATA, and whose counters
are neither. -/
structure Dictionary.Orderly (D : Dictionary) : Prop where
  front : ∀ d l, D.dataLengthTag d = some l → keyLt (sortKey D l) (sortKey D d) = true
  counter : ∀ msgType c, D.groupOrder msgType c ≠ [] →
    D.dataLengthTag c = none ∧ ∀ d, D.dataLengthTag d ≠ some c
  first : ∀ msgType c, ∀ t ∈ (D.groupOrder msgType c).head?, D.dataLengthTag t = none
  nodup : ∀ msgType c, (D.groupOrder msgType c).Nodup
  adjacent : ∀ msgType c d l, d ∈ D.groupOrder msgType c → D.dataLengthTag d = some l →
    l ∈ D.groupOrder msgType c → [l, d] <:+: D.groupOrder msgType c
  apart : ∀ msgType c c' l, c' ∈ D.groupOrder msgType c → D.Within msgType c' l →
    l ∉ D.groupOrder msgType c

theorem GroupFits.known {g : GroupData} (h : GroupFits D msgType levels g) :
    D.groupOrder msgType g.1 ≠ [] := by
  cases levels with
  | zero => cases h
  | succ levels => exact h.1

/-- The tags a group lays out: its counter, and the tags within. -/
theorem groupFields_within {g : GroupData} {f : ℕ × Bytes}
    (h : f ∈ groupFields D msgType levels g) : f.1 = g.1 ∨ D.Within msgType g.1 f.1 := by
  induction levels generalizing g with
  | zero => cases h
  | succ levels ih =>
    rw [groupFields] at h
    obtain rfl | h := List.mem_cons.mp h
    · exact .inl rfl
    obtain ⟨e, -, h⟩ := List.mem_flatMap.mp h
    obtain ⟨t, mem, h⟩ := List.mem_flatMap.mp h
    right
    unfold memberFields at h
    split at h
    · rw [List.mem_singleton.mp h]
      exact .member mem
    · split at h
      · rename_i g' found
        obtain ⟨-, rfl⟩ := groupFor_mem found
        obtain eq | within := ih h
        · rw [eq]
          exact .member mem
        · exact .nested mem within
      · cases h

theorem infix_flatMap {α β : Type} {f : α → List β} {x : α} {xs : List α} (h : x ∈ xs) :
    f x <:+: xs.flatMap f := by
  obtain ⟨before, after, rfl⟩ := List.append_of_mem h
  exact ⟨before.flatMap f, after.flatMap f, by simp⟩

theorem mem_written {e : GroupEntryData} {order : List ℕ} {t : ℕ} :
    t ∈ e.written order ↔
      t ∈ order ∧ ((slotValue e.fields t).isSome ∨ (groupFor e.groups t).isSome) := by
  simp [GroupEntryData.written]

/-- What a supplied member lays out. -/
theorem memberFields_some {sub : GroupData → List (ℕ × Bytes)} {order : List ℕ}
    {e : GroupEntryData} {t : ℕ} {v : Bytes} (h : slotValue e.fields t = some v) :
    memberFields D sub order e t = [(t, memberValue D order e.fields t v)] := by
  simp [memberFields, h]

theorem memberFields_group {sub : GroupData → List (ℕ × Bytes)} {order : List ℕ}
    {e : GroupEntryData} {t : ℕ} {g : GroupData} (h : slotValue e.fields t = none)
    (found : groupFor e.groups t = some g) : memberFields D sub order e t = sub g := by
  simp [memberFields, h, found]

/-- In an orderly dictionary, a DATA member that is led by a length is led by its own, which is
supplied in the same entry. -/
theorem length_supplied (orderly : D.Orderly) {counter : ℕ} {e : GroupEntryData} {d l : ℕ}
    (fits : EntryFits D (GroupFits D msgType levels) (D.groupOrder msgType counter) e)
    (chain : (entryFields D (groupFields D msgType levels) (D.groupOrder msgType counter) e).IsChain
      (Leads D))
    (supplied : (slotValue e.fields d).isSome) (isData : D.dataLengthTag d = some l) :
    (slotValue e.fields l).isSome ∧ [l, d] <:+: D.groupOrder msgType counter := by
  obtain ⟨v, value⟩ := Option.isSome_iff_exists.mp supplied
  have mem : (d, v) ∈ e.fields := slotValue_mem value
  have inOrder := fits.fields _ mem
  have lInOrder := fits.lengths _ mem l isData
  have adjacent := orderly.adjacent msgType counter d l inOrder isData lInOrder
  refine ⟨?_, adjacent⟩
  by_contra missing
  rw [Bool.not_eq_true, Option.isSome_eq_false_iff, Option.isNone_iff_eq_none] at missing
  obtain ⟨before, after, eq⟩ := adjacent
  have nodup := orderly.nodup msgType counter
  -- the delimiter is supplied, so there is something in front of the DATA
  obtain ⟨first, head, has⟩ := fits.delimiter
  have firstIn : first ∈ before ++ [l] := by
    have ne : first ≠ d := by
      rintro rfl
      have := orderly.first msgType counter first head
      rw [isData] at this
      cases this
    rw [← eq] at head
    cases before with
    | nil => simpa using Option.some.inj head.symm
    | cons b before =>
      have : b = first := Option.some.inj head
      simp [this]
  obtain ⟨w, firstValue⟩ := Option.isSome_iff_exists.mp (slotValue_isSome.mpr has)
  have split (m : ℕ → List (ℕ × Bytes)) : (D.groupOrder msgType counter).flatMap m =
      (before ++ [l]).flatMap m ++ (m d ++ after.flatMap m) := by
    rw [← eq]
    simp
  rw [entryFields, split, memberFields_some value] at chain
  obtain ⟨-, -, join⟩ := List.isChain_append.mp chain
  cases last : ((before ++ [l]).flatMap (memberFields D (groupFields D msgType levels)
      (D.groupOrder msgType counter) e)).getLast? with
  | none =>
    rw [List.getLast?_eq_none_iff, List.flatMap_eq_nil_iff] at last
    have := last first firstIn
    rw [memberFields_some firstValue] at this
    cases this
  | some p =>
    have leads := join p last _ rfl
    unfold Leads at leads
    rw [isData] at leads
    obtain ⟨t, ht, inMember⟩ := List.mem_flatMap.mp (List.mem_of_getLast? last)
    have tInOrder : t ∈ D.groupOrder msgType counter := by
      rw [← eq]
      obtain ht | ht := List.mem_append.mp ht
      · simp [ht]
      · simp [List.mem_singleton.mp ht]
    cases tValue : slotValue e.fields t with
    | some u =>
      rw [memberFields_some tValue, List.mem_singleton] at inMember
      rw [inMember] at leads
      rw [← leads.1, tValue] at missing
      cases missing
    | none =>
      cases found : groupFor e.groups t with
      | none =>
        simp only [memberFields, tValue, found] at inMember
        cases inMember
      | some g =>
        rw [memberFields_group tValue found] at inMember
        have known := (fits.nested t tInOrder tValue g found).known
        obtain ⟨-, rfl⟩ := groupFor_mem found
        obtain same | within := groupFields_within inMember
        · rw [leads.1] at same
          exact (orderly.counter msgType g.1 known).2 d (same ▸ isData)
        · rw [leads.1] at within
          exact orderly.apart msgType counter g.1 l tInOrder within lInOrder

/-- **Fields of a group that a parser reads come from entries that can be read**, when the
dictionary is orderly. -/
theorem groupReads_of_chain (orderly : D.Orderly) {g : GroupData}
    (fits : GroupFits D msgType levels g)
    (chain : (groupFields D msgType levels g).IsChain (Leads D))
    (each : ∀ f ∈ groupFields D msgType levels g, f.2.length ≤ u16Max ∧ f.1 ≠ 10) :
    GroupReads D msgType levels g := by
  induction levels generalizing g with
  | zero => cases fits
  | succ levels ih =>
    obtain ⟨known, fits⟩ := fits
    rw [groupFields] at chain each
    refine ⟨(each _ List.mem_cons_self).2, fun e he => ?_⟩
    have entry := infix_flatMap (f := entryFields D (groupFields D msgType levels)
      (D.groupOrder msgType g.1)) he
    have chain := List.IsChain.infix chain.tail entry
    have each : ∀ f ∈ entryFields D (groupFields D msgType levels) (D.groupOrder msgType g.1) e,
        f.2.length ≤ u16Max ∧ f.1 ≠ 10 :=
      fun f hf => each f (List.mem_cons_of_mem _ (entry.subset hf))
    have member {t : ℕ} {v : Bytes} (ht : t ∈ D.groupOrder msgType g.1)
        (value : slotValue e.fields t = some v) :
        (t, memberValue D (D.groupOrder msgType g.1) e.fields t v) ∈
          entryFields D (groupFields D msgType levels) (D.groupOrder msgType g.1) e := by
      refine List.mem_flatMap.mpr ⟨t, ht, ?_⟩
      rw [memberFields_some value]
      exact List.mem_cons_self
    have fits := fits e he
    refine ⟨fun t ht v value => (each _ (member ht value)).1, fun t ht some => ?_,
      fun t ht => ?_, ?_, fun t ht none g' found => ?_⟩
    · obtain ⟨v, value⟩ := Option.isSome_iff_exists.mp some
      exact (each _ (member ht value)).2
    · obtain ⟨first, head, has⟩ := fits.delimiter
      obtain ⟨rest, eq⟩ := List.head?_eq_some_iff.mp head
      rw [eq, GroupEntryData.written_cons, if_pos (.inl (slotValue_isSome.mpr has))] at ht
      obtain rfl : first = t := Option.some.inj ht
      exact orderly.first msgType g.1 first head
    · refine List.isChain_iff_forall_rel_of_append_cons_cons.mpr ?_
      intro a b l₁ l₂ eq l isData
      have hb : b ∈ e.written (D.groupOrder msgType g.1) := by simp [eq]
      obtain ⟨bIn, has⟩ := mem_written.mp hb
      have value : (slotValue e.fields b).isSome := by
        by_contra missing
        have none : slotValue e.fields b = none := by simpa using missing
        obtain ⟨g', found⟩ := Option.isSome_iff_exists.mp (has.resolve_left missing)
        have known := (fits.nested b bIn none g' found).known
        obtain ⟨-, rfl⟩ := groupFor_mem found
        have := (orderly.counter msgType g'.1 known).1
        rw [isData] at this
        cases this
      obtain ⟨some, before, after, split⟩ := length_supplied orderly fits chain value isData
      refine ⟨?_, some⟩
      -- the DATA occurs once, so what is in front of it among the supplied members is its length
      have cut : e.written (D.groupOrder msgType g.1) =
          (e.written before ++ [l]) ++ b :: e.written after := by
        rw [← split]
        simp [GroupEntryData.written, some, value]
      have nodup : (e.written (D.groupOrder msgType g.1)).Nodup :=
        (orderly.nodup msgType g.1).filter _
      have eq' : (l₁ ++ [a]) ++ b :: l₂ = (e.written before ++ [l]) ++ b :: e.written after := by
        rw [← cut, eq]
        simp
      rw [cut] at nodup
      have fresh : b ∉ e.written before ++ [l] := fun mem =>
        (List.nodup_append.mp nodup).2.2 b mem b List.mem_cons_self rfl
      have fresh' : b ∉ e.written after :=
        (List.nodup_cons.mp (List.nodup_append.mp nodup).2.1).1
      have front := ((List.append_cons_inj_of_notMem fresh fresh').mp eq'.symm).1
      have last := congrArg List.getLast? front
      rw [List.getLast?_concat, List.getLast?_concat] at last
      exact (Option.some.inj last).symm
    · have fits' := fits.nested t ht none g' found
      have known := fits'.known
      have sub : groupFields D msgType levels g' <:+:
          entryFields D (groupFields D msgType levels) (D.groupOrder msgType g.1) e := by
        have := infix_flatMap (f := memberFields D (groupFields D msgType levels)
          (D.groupOrder msgType g.1) e) ht
        rwa [memberFields_group none found] at this
      obtain ⟨-, rfl⟩ := groupFor_mem found
      have part := List.IsChain.infix chain sub
      refine ⟨(orderly.counter msgType g'.1 known).1, ih fits' part fun f hf => ?_⟩
      exact each f (sub.subset hf)

/-! ### What a template lays out -/

theorem renderU32_short (n : ℕ) : (renderU32 n).length ≤ u16Max :=
  (renderU32_length n).trans (by decide)

/-- The values of a group that can be read are short, and none of its tags is `10`. -/
theorem groupReads_short {g : GroupData} (reads : GroupReads D msgType levels g) :
    ∀ f ∈ groupFields D msgType levels g, f.2.length ≤ u16Max ∧ f.1 ≠ 10 := by
  induction levels generalizing g with
  | zero => cases reads
  | succ levels ih =>
    intro f hf
    rw [groupFields] at hf
    obtain rfl | hf := List.mem_cons.mp hf
    · exact ⟨renderU32_short _, reads.1⟩
    obtain ⟨e, he, hf⟩ := List.mem_flatMap.mp hf
    obtain ⟨t, ht, hf⟩ := List.mem_flatMap.mp hf
    have entry := reads.2 e he
    cases value : slotValue e.fields t with
    | some v =>
      rw [memberFields_some value] at hf
      rw [List.mem_singleton.mp hf]
      exact ⟨entry.short t ht v value, entry.inner t ht (by rw [value]; rfl)⟩
    | none =>
      cases found : groupFor e.groups t with
      | some g' =>
        rw [memberFields_group value found] at hf
        exact ih (entry.nested t ht value g' found).2 f hf
      | none =>
        simp only [memberFields, value, found] at hf
        cases hf

theorem groupFields_small (members : ∀ msgType c, ∀ t ∈ D.groupOrder msgType c, t < u32Size)
    {g : GroupData} (counter : g.1 < u32Size) :
    ∀ f ∈ groupFields D msgType levels g, f.1 < u32Size := by
  intro f hf
  have all {c t : ℕ} (within : D.Within msgType c t) : t < u32Size := by
    induction within with
    | member mem => exact members msgType _ _ mem
    | nested _ _ ih => exact ih
  obtain eq | within := groupFields_within hf
  · rw [eq]
    exact counter
  · exact all within

section Template

variable {top : List Decl} {slots : List (ℕ × Bytes)} {groups : List GroupData}

theorem lays_group {c : ℕ} {g : GroupData} (owner : dataFor D top (Decl.group c).tag = none)
    (found : groupFor groups c = some g) : (Decl.group c).lays D top msgType slots groups =
      groupFields D msgType maxDepth g := by
  simp only [Decl.lays, owner, found, Option.toList_some, List.flatMap_cons, List.flatMap_nil,
    List.append_nil]

/-- What a readable template lays out is short, and none of its tags is `10`. -/
theorem lays_short (reads : Readable D top msgType slots groups)
    (free : ∀ x ∈ top, reserved x.tag = false)
    (statics : ∀ x ∈ top, ∀ t v, x = .field t v → v.length ≤ u16Max) :
    ∀ f ∈ top.flatMap (Decl.lays D top msgType slots groups),
      f.2.length ≤ u16Max ∧ f.1 ≠ 10 := by
  intro f hf
  obtain ⟨x, hx, hf⟩ := List.mem_flatMap.mp hf
  have ne : x.tag ≠ 10 := by
    intro eq
    have := free x hx
    rw [eq] at this
    cases this
  cases owner : dataFor D top x.tag with
  | some d =>
    rw [lays_length owner] at hf
    obtain ⟨v, -, rfl⟩ := List.mem_map.mp hf
    exact ⟨renderU32_short _, ne⟩
  | none =>
    cases x with
    | field t v =>
      rw [lays_supplied owner fun c eq => by cases eq] at hf
      obtain ⟨w, hw, rfl⟩ := List.mem_map.mp hf
      obtain rfl : w = v := by simpa [Decl.supplied] using hw
      exact ⟨statics _ hx t _ rfl, ne⟩
    | slot t =>
      rw [lays_supplied owner fun c eq => by cases eq] at hf
      obtain ⟨w, hw, rfl⟩ := List.mem_map.mp hf
      exact ⟨reads.short t hx owner w (by simpa [Decl.supplied, Decl.tag] using hw), ne⟩
    | group c =>
      cases found : groupFor groups c with
      | none =>
        simp only [Decl.lays, owner, found] at hf
        cases hf
      | some g =>
        rw [lays_group owner found] at hf
        exact groupReads_short (reads.groups c hx owner g found) f hf

theorem lays_small (members : ∀ msgType c, ∀ t ∈ D.groupOrder msgType c, t < u32Size)
    (tags : ∀ x ∈ top, x.tag < u32Size) :
    ∀ f ∈ top.flatMap (Decl.lays D top msgType slots groups), f.1 < u32Size := by
  intro f hf
  obtain ⟨x, hx, hf⟩ := List.mem_flatMap.mp hf
  cases owner : dataFor D top x.tag with
  | some d =>
    rw [lays_length owner] at hf
    obtain ⟨v, -, rfl⟩ := List.mem_map.mp hf
    exact tags x hx
  | none =>
    by_cases single : ∀ c, x ≠ .group c
    · rw [lays_supplied owner single] at hf
      obtain ⟨v, -, rfl⟩ := List.mem_map.mp hf
      exact tags x hx
    · simp only [ne_eq, not_forall, not_not] at single
      obtain ⟨c, rfl⟩ := single
      cases found : groupFor groups c with
      | none =>
        simp only [Decl.lays, owner, found] at hf
        cases hf
      | some g =>
        rw [lays_group owner found] at hf
        have counter := tags _ hx
        obtain ⟨-, rfl⟩ := groupFor_mem found
        exact groupFields_small members counter f hf

/-- Declarations in another order are as readable. -/
theorem Readable.perm (paired : D.Paired) {ds : List Decl} (perm : top.Perm ds)
    (nodup : (ds.map Decl.tag).Nodup) (h : Readable D ds msgType slots groups) :
    Readable D top msgType slots groups := by
  have owner (l : ℕ) : dataFor D top l = dataFor D ds l :=
    (dataFor_perm paired perm.symm nodup l).symm
  have given (x : Decl) : x.given D top slots groups = x.given D ds slots groups := by
    simp only [Decl.given, owner]
  obtain ⟨x, hx, tag, some⟩ := h.named
  refine ⟨⟨x, perm.mem_iff.mpr hx, tag, (given x).trans some⟩, fun t ht none => ?_,
    fun x hx l isData some => ?_, fun c hc none => ?_⟩
  · exact h.short t (perm.mem_iff.mp ht) ((owner t).symm.trans none)
  · exact h.data x (perm.mem_iff.mp hx) l isData ((given x).symm.trans some)
  · exact h.groups c (perm.mem_iff.mp hc) ((owner c).symm.trans none)

/-- The first field of a message is `35=` when it is there. -/
theorem lays_head?_eq (order : WireOrder D top) (nodup : (top.map Decl.tag).Nodup) :
    (top.flatMap (Decl.lays D top msgType slots groups)).head?.map (·.1) = some 35 ↔
      ∃ x ∈ top, x.tag = 35 ∧ x.given D top slots groups = true := by
  rw [List.head?_flatMap]
  constructor
  · intro h
    obtain ⟨f, found, tag⟩ := Option.map_eq_some_iff.mp h
    obtain ⟨x, hx, head⟩ := List.exists_of_findSome?_eq_some found
    refine ⟨x, hx, (lays_head head).symm.trans tag, ?_⟩
    by_contra no
    rw [lays_eq_nil_iff.mpr (by simpa using no)] at head
    cases head
  · rintro ⟨x, hx, tag, given⟩
    -- nothing sorts in front of `MsgType`
    obtain ⟨pre, post, rfl⟩ := List.append_of_mem hx
    cases pre with
    | cons y pre =>
      exfalso
      have least : wireRank D x.tag = 0 := by simp [wireRank, tag]
      have rank := (List.pairwise_cons.mp order).1 x (by simp)
      obtain less | ⟨same, -⟩ := rank
      · omega
      · have yTag : y.tag = 35 := by
          by_contra ne
          rw [least] at same
          unfold wireRank at same
          rw [if_neg ne] at same
          split at same <;> cases same
        rw [List.cons_append, List.map_cons, List.map_append, List.map_cons] at nodup
        refine (List.nodup_cons.mp nodup).1 ?_
        simp [yTag, tag]
    | nil =>
      cases head : (x.lays D (x :: post) msgType slots groups).head? with
      | none =>
        rw [List.head?_eq_none_iff, lays_eq_nil_iff] at head
        rw [List.nil_append] at given
        rw [head] at given
        cases given
      | some f =>
        simp only [List.nil_append, List.findSome?_cons, head, Option.map_some, lays_head head, tag]

end Template

/-! ### The encoder and the parser -/

/-- The parser reads back what was encoded: `MsgType` first, and every DATA field directly behind a
length that states how long it is. -/
structure Reads (D : Dictionary) (bytes begin_ : Bytes) (body : List (ℕ × Bytes)) : Prop where
  back : ReadsBack D bytes (framedFields begin_ body)
  named : body.head?.map (·.1) = some 35
  lengths : body.IsChain (Leads D)

/-- **What a template writes is read back if it is readable**, and in an orderly dictionary only
then. The fields are those of the declarations, in wire order. -/
theorem encodeWith_reads_iff {P S room start : ℕ} {begin_ bytes : Bytes} {ds : List Decl}
    {t : Template} {slots : List (ℕ × Bytes)} {groups : List GroupData} (paired : D.Paired)
    (_scratch : S ≤ u16Max) (nodup : (ds.map Decl.tag).Nodup) (tags : ∀ x ∈ ds, x.tag < u32Size)
    (members : ∀ msgType c, ∀ t ∈ D.groupOrder msgType c, t < u32Size) (front : SOH ∉ begin_)
    (statics : ∀ t v, .field t v ∈ ds → D.dataLengthTag t = none → SOH ∉ v)
    (supplied : ∀ s ∈ slots, D.dataLengthTag s.1 = none → SOH ∉ s.2)
    (entries : ∀ g ∈ groups, ∀ e ∈ g.2, e.Plain D)
    (built : (TemplateBuilder.declare P S begin_ ds).build D P S = .ok t)
    (encoded : t.encodeWith D room slots groups = .ok (start, bytes)) :
    ∃ top : List Decl, top.Perm ds ∧ WireOrder D top ∧
      (Readable D ds t.msgType slots groups →
        Reads D bytes begin_ (top.flatMap (Decl.lays D top t.msgType slots groups))) ∧
      (D.Orderly → Reads D bytes begin_ (top.flatMap (Decl.lays D top t.msgType slots groups)) →
        Readable D ds t.msgType slots groups) := by
  have entryTag (p : Decl → Decl → Prop) (q : Entry → Entry → Prop)
      (h : ∀ a b, p a b → q a.entry b.entry) (all : ds.Pairwise p) :
      (ds.map Decl.entry).Pairwise q := List.pairwise_map.mpr (all.imp fun {a b} => h a b)
  have apart : ds.Pairwise fun a b => a.tag ≠ b.tag := List.pairwise_map.mp nodup
  have clear : LengthsClear D (ds.map Decl.entry) := by
    refine ⟨fun e _ l isData => paired.plain _ _ isData, fun l => ?_, fun e _ l _ => ?_⟩
    · refine entryTag _ _ (fun a b ne both => ne ?_) apart
      simpa using paired.one _ _ l both.1 both.2
    · refine entryTag _ _ (fun a b ne both => ne ?_) apart
      simpa using both.1.trans both.2.symm
  obtain ⟨top, perm, ordered, rfl, -, bytesOf, holes, declared, each⟩ := build_ok clear built
  obtain ⟨eq, short, fits, written⟩ := Template.encodeWith_ok encoded
  have nodup' : (top.map Decl.tag).Nodup := (perm.map Decl.tag).nodup_iff.mpr nodup
  have order : WireOrder D top := by
    have := (List.pairwise_map.mp nodup' : top.Pairwise fun a b => a.tag ≠ b.tag).and ordered
    exact this.imp fun both => wireOrder_of_keys paired both.1 both.2
  have room' : t.beginString.length ≤ u16Max := by
    unfold Template.prefixSize at fits
    unfold u16Max
    omega
  rw [bytesOf] at eq short
  have small := @lays_small _ t.msgType _ slots groups members
    (fun x hx => tags x (perm.mem_iff.mp hx))
  have back := readsBack_iff (D := D) small short front room'
  refine ⟨top, perm, order, fun reads => ?_, fun orderly reads => ?_⟩
  · have reads' := reads.perm paired perm nodup
    have free := lays_chain paired nodup' ordered
      (fun x hx l isData => by
        have := declared x (perm.mem_iff.mp hx) l isData
        exact ((perm.map Decl.tag).mem_iff).mpr this)
      (fun t v mem => ⟨(each _ (perm.mem_iff.mp mem)).2 t v rfl,
        statics t v (perm.mem_iff.mp mem)⟩)
      (fun t v value => supplied _ (slotValue_mem value)) entries reads'
    have all := lays_short reads' (fun x hx => (each x (perm.mem_iff.mp hx)).1)
      (fun x hx => (each x (perm.mem_iff.mp hx)).2)
    refine ⟨?_, (lays_head?_eq order nodup').mpr reads'.named, (free (0, [])).tail⟩
    rw [eq]
    exact back.mpr ⟨fun f hf => (all f hf).1, fun f hf => (all f hf).2, free _⟩
  · refine Readable.perm paired perm.symm nodup' ?_
    have framable : Framable D _ := back.mp (by rw [← eq]; exact reads.back)
    have inside {x : Decl} (hx : x ∈ top) := infix_flatMap (f := Decl.lays D top t.msgType slots
      groups) hx
    refine ⟨(lays_head?_eq order nodup').mp reads.named, fun t' ht owner v value => ?_,
      fun x hx l isData given => ⟨fun c eq => ?_, orderly.front _ _ isData⟩,
      fun c hc owner g found => ?_⟩
    · refine framable.short (t', v) ((inside ht).subset ?_)
      rw [lays_supplied owner fun c eq => by cases eq]
      simpa [Decl.supplied, Decl.tag] using value
    · subst eq
      have owner := @dataFor_data _ paired top _ _ isData
      cases found : groupFor groups c with
      | none => simp [Decl.given, owner, found] at given
      | some g =>
        obtain ⟨hole, -⟩ := holes c (perm.mem_iff.mp hx) owner
        have known := (written _ hole c g rfl found).known
        obtain ⟨-, rfl⟩ := groupFor_mem found
        have := (orderly.counter t.msgType g.1 known).1
        rw [show D.dataLengthTag g.1 = some l from isData] at this
        cases this
    · obtain ⟨hole, -⟩ := holes c (perm.mem_iff.mp hc) owner
      have sub := inside hc
      rw [lays_group owner found] at sub
      have part := List.IsChain.infix framable.chain.tail sub
      refine groupReads_of_chain orderly (written _ hole c g rfl found) part fun f hf => ?_
      exact ⟨framable.short f (sub.subset hf), framable.inner f (sub.subset hf)⟩

/-! ### A dictionary with a DATA member -/

/-- Two DATA fields with their lengths, `95=`/`96=` and, in the group of `453=`, `354=`/`355=`. -/
def twoPairs : Dictionary where
  isHeader _ := false
  dataLengthTag tag := if tag = 96 then some 95 else if tag = 355 then some 354 else none
  groupDelimiter _ counter := if counter = 453 then some 448 else none
  groupMembers _ counter := if counter = 453 then [448, 354, 355] else []
  groupOrder _ counter := if counter = 453 then [448, 354, 355] else []

theorem twoPairs_data {d l : ℕ} (h : twoPairs.dataLengthTag d = some l) :
    d = 96 ∧ l = 95 ∨ d = 355 ∧ l = 354 := by
  simp only [twoPairs] at h
  by_cases one : d = 96
  · rw [if_pos one] at h
    exact .inl ⟨one, (Option.some.inj h).symm⟩
  · by_cases other : d = 355
    · rw [if_neg one, if_pos other] at h
      exact .inr ⟨other, (Option.some.inj h).symm⟩
    · rw [if_neg one, if_neg other] at h
      cases h

theorem twoPairs_paired : twoPairs.Paired := by
  refine ⟨fun d l _ => rfl, fun d l h => ?_, fun d d' l h h' => ?_, fun d l t h => ?_⟩
  · obtain ⟨-, rfl⟩ | ⟨-, rfl⟩ := twoPairs_data h <;> rfl
  · have := twoPairs_data h
    have := twoPairs_data h'
    omega
  · -- the keys of a length and of its DATA are next to each other
    obtain ⟨rfl, rfl⟩ | ⟨rfl, rfl⟩ := twoPairs_data h
    · rw [show sortKey twoPairs 95 = (2, 95, 0) by decide,
        show sortKey twoPairs 96 = (2, 95, 1) by decide]
      simp only [keyLt, Bool.or_eq_true, Bool.and_eq_true, decide_eq_true_eq, beq_iff_eq]
      omega
    · rw [show sortKey twoPairs 354 = (2, 354, 0) by decide,
        show sortKey twoPairs 355 = (2, 354, 1) by decide]
      simp only [keyLt, Bool.or_eq_true, Bool.and_eq_true, decide_eq_true_eq, beq_iff_eq]
      omega

theorem twoPairs_members (msgType : Bytes) (c : ℕ) :
    ∀ t ∈ twoPairs.groupOrder msgType c, t < u32Size := by
  intro t ht
  simp only [twoPairs] at ht
  split at ht
  · simp only [List.mem_cons, List.not_mem_nil, or_false] at ht
    unfold u32Size
    omega
  · cases ht

/-- An order whose parties carry DATA. -/
def dataOrder : List Decl := [.group 453, .field 35 (ascii "D")]

/-- The template of `dataOrder`. -/
def dataTemplate : Template :=
  ⟨ascii "FIX.4.4", ascii "D", [.static (encodeField 35 (ascii "D")), .group 453]⟩

/-- A party whose DATA has its length. -/
def statedParty : GroupData :=
  (453, [.mk [(448, ascii "A"), (354, ascii "0"), (355, [0x41, SOH])] []])

/-- A party whose DATA has no length. -/
def unstatedParty : GroupData := (453, [.mk [(448, ascii "A"), (355, ascii "xyz")] []])

theorem dataTemplate_built :
    (TemplateBuilder.declare 8 64 (ascii "FIX.4.4") dataOrder).build twoPairs 8 64 =
      .ok dataTemplate := by decide +kernel

/-- The bytes `dataTemplate` makes of a group. -/
def dataBytes (g : GroupData) : Bytes :=
  match dataTemplate.encodeWith twoPairs 256 [] [g] with
  | .ok (_, bytes) => bytes
  | .error _ => []

/-- A message that is encoded and that no parser with this dictionary can read: the length of a DATA
member was not supplied. -/
theorem length_not_supplied : twoPairs.Paired ∧
    (TemplateBuilder.declare 8 64 (ascii "FIX.4.4") dataOrder).build twoPairs 8 64 =
      .ok dataTemplate ∧
    dataTemplate.encodeWith twoPairs 256 [] [unstatedParty] = .ok (3, dataBytes unstatedParty) ∧
    (parseInto twoPairs 64 (dataBytes unstatedParty) .all).outcome =
      .error (.missingLengthField 355) := by
  refine ⟨twoPairs_paired, dataTemplate_built, ?_, ?_⟩
  · decide +kernel
  · decide +kernel

theorem encodeWith_reads_party : ∃ top : List Decl, top.Perm dataOrder ∧ WireOrder twoPairs top ∧
    (Readable twoPairs dataOrder (ascii "D") [] [statedParty] →
      Reads twoPairs (dataBytes statedParty) (ascii "FIX.4.4")
        (top.flatMap (Decl.lays twoPairs top (ascii "D") [] [statedParty]))) ∧
    (twoPairs.Orderly → Reads twoPairs (dataBytes statedParty) (ascii "FIX.4.4")
        (top.flatMap (Decl.lays twoPairs top (ascii "D") [] [statedParty])) →
      Readable twoPairs dataOrder (ascii "D") [] [statedParty]) := by
  have encoded : dataTemplate.encodeWith twoPairs 256 [] [statedParty] =
      .ok (3, dataBytes statedParty) := by decide +kernel
  refine encodeWith_reads_iff twoPairs_paired (by decide) (by decide) (by decide) twoPairs_members
    (by decide) (fun t v mem _ => ?_) (fun s hs => by cases hs) (fun g hg e he => ?_)
    dataTemplate_built encoded
  · simp only [dataOrder, List.mem_cons, Decl.field.injEq, List.not_mem_nil, or_false,
      reduceCtorEq, false_or] at mem
    obtain ⟨rfl, rfl⟩ := mem
    decide
  · obtain rfl := List.mem_singleton.mp hg
    obtain rfl := List.mem_singleton.mp he
    refine .mk (fun f hf isPlain => ?_) fun g hg => by cases hg
    simp only [List.mem_cons, List.not_mem_nil, or_false] at hf
    obtain rfl | rfl | rfl := hf
    · decide
    · decide
    · cases isPlain

end Fixbolt
