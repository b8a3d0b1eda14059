import Fixbolt.Codec.Fitting
import Fixbolt.Codec.Offsets

/-!
# When a template does not panic

* `Stays`: the writes that fit the scratch leave the bytes used in a `u16`;
* `TemplateBuilder.Sound`, `Template.Sound`: what every call keeps, trapped or not;
* `Template.PrefixFits`: the prefix of a message has room in its array;
* `session_iff`: a run does not trap if and only if its steps meet these conditions.
-/

namespace Fixbolt.Offsets

open Trapping

variable {S P : ℕ} {D : Dictionary}

/-! ### Writing into the scratch -/

/-- Of writes one after another up to the first that is refused, each leaves `used` in a `u16`. -/
def Stays (S : ℕ) : ℕ → List ℕ → Prop
  | _, [] => True
  | used, n :: ns => used + n ≤ S → n ≤ u16Max → used + n ≤ u16Max ∧ Stays S (used + n) ns

/-- None of these writes is refused. -/
def Fits (S : ℕ) : ℕ → List ℕ → Prop
  | _, [] => True
  | used, n :: ns => (used + n ≤ S ∧ n ≤ u16Max) ∧ Fits S (used + n) ns

instance decidableFits (S used : ℕ) : (ns : List ℕ) → Decidable (Fits S used ns)
  | [] => isTrue trivial
  | n :: ns =>
    have := decidableFits S (used + n) ns
    inferInstanceAs (Decidable ((used + n ≤ S ∧ n ≤ u16Max) ∧ Fits S (used + n) ns))

/-- The bytes used after writes one after another, up to the first that is refused. -/
def taken (S : ℕ) : ℕ → List ℕ → ℕ
  | used, [] => used
  | used, n :: ns => if used + n ≤ S ∧ n ≤ u16Max then taken S (used + n) ns else used

theorem stays_append {used : ℕ} {ns ms : List ℕ} :
    Stays S used (ns ++ ms) ↔ Stays S used ns ∧ (Fits S used ns → Stays S (used + ns.sum) ms) := by
  induction ns generalizing used with
  | nil => simp [Stays, Fits]
  | cons n ns ih =>
    simp only [List.cons_append, Stays, Fits, ih, List.sum_cons, ← Nat.add_assoc]
    tauto

theorem fits_append {used : ℕ} {ns ms : List ℕ} :
    Fits S used (ns ++ ms) ↔ Fits S used ns ∧ Fits S (used + ns.sum) ms := by
  induction ns generalizing used with
  | nil => simp [Fits]
  | cons n ns ih =>
    simp only [List.cons_append, Fits, ih, List.sum_cons, ← Nat.add_assoc]
    tauto

theorem taken_append {used : ℕ} {ns ms : List ℕ} :
    taken S used (ns ++ ms) =
      if Fits S used ns then taken S (used + ns.sum) ms else taken S used ns := by
  induction ns generalizing used with
  | nil => simp [Fits]
  | cons n ns ih =>
    simp only [List.cons_append, taken, Fits, ih, List.sum_cons, ← Nat.add_assoc]
    split <;> simp_all

theorem taken_fits {used : ℕ} {ns : List ℕ} (fits : Fits S used ns) :
    taken S used ns = used + ns.sum := by
  induction ns generalizing used with
  | nil => rfl
  | cons n ns ih =>
    rw [taken, if_pos fits.1, ih fits.2, List.sum_cons, Nat.add_assoc]

theorem le_taken (used : ℕ) (ns : List ℕ) : used ≤ taken S used ns := by
  induction ns generalizing used with
  | nil => exact le_rfl
  | cons n ns ih =>
    rw [taken]
    split
    · exact (Nat.le_add_right _ _).trans (ih _)
    · exact le_rfl

theorem taken_le {used : ℕ} (room : used ≤ S) (ns : List ℕ) : taken S used ns ≤ S := by
  induction ns generalizing used with
  | nil => exact room
  | cons n ns ih =>
    rw [taken]
    split
    · rename_i fits
      exact ih fits.1
    · exact room

theorem taken_le_u16Max {used : ℕ} {ns : List ℕ} (small : used ≤ u16Max) (stays : Stays S used ns) :
    taken S used ns ≤ u16Max := by
  induction ns generalizing used with
  | nil => exact small
  | cons n ns ih =>
    rw [taken]
    split
    · rename_i fits
      exact ih (stays fits.1 fits.2).1 (stays fits.1 fits.2).2
    · exact small

/-- In a scratch of at most 65535 bytes nothing goes wrong. -/
theorem stays_small (small : S ≤ u16Max) (used : ℕ) (ns : List ℕ) : Stays S used ns := by
  induction ns generalizing used with
  | nil => trivial
  | cons n ns ih => exact fun room _ => ⟨room.trans small, ih _⟩

theorem index_eq {α : Type} {l : List α} {i : ℕ} (h : i < l.length) : index l i = .ok l[i] := by
  rw [index, List.getElem?_eq_getElem h]

theorem copy_none {n at_ : ℕ} {b : Block n} {src : Bytes} (full : n < at_ + src.length) :
    b.copy at_ src = none := dif_neg (Nat.not_le.mpr full)

theorem exists_copy {n : ℕ} (b : Block n) (at_ : ℕ) (src : Bytes) (fits : at_ + src.length ≤ n) :
    ∃ b', b.copy at_ src = some b' := ⟨_, dif_pos fits⟩

namespace TemplateBuilder

variable {b : TemplateBuilder S}

/-- A program that does writes of these lengths, up to the first that is refused. -/
def Writes (x : Build S Unit) (ns : List ℕ) : Prop := ∀ b, ∃ scratch, ∀ Q, wp x Q b ↔
  Stays S b.used ns ∧ Q (if Fits S b.used ns then .ok () else .error .scratchFull)
    { b with scratch, used := taken S b.used ns }

theorem wp_addU16 {σ : Type} {a n : ℕ} {s : σ} {Q : Except EncodeError ℕ → σ → Prop} :
    wp (checked (addU16 a n)) Q s ↔ a + n ≤ u16Max ∧ Q (.ok (a + n)) s := by
  unfold addU16
  split
  · rename_i fits
    exact ⟨fun q => ⟨fits, q⟩, And.right⟩
  · rename_i above
    exact ⟨False.elim, fun q => above q.1⟩

theorem wp_sub {σ : Type} {a n : ℕ} {s : σ} {Q : Except EncodeError ℕ → σ → Prop} (le : n ≤ a) :
    wp (checked (sub a n)) Q s ↔ Q (.ok (a - n)) s := by
  rw [sub, if_pos le]
  rfl

theorem writes_one {x : Build S Unit} {n : ℕ} (h : ∀ b, ∃ scratch, ∀ Q, wp x Q b ↔
    if b.used + n ≤ S ∧ n ≤ u16Max then
      b.used + n ≤ u16Max ∧ Q (.ok ()) { b with scratch, used := b.used + n }
    else Q (.error .scratchFull) { b with scratch }) : Writes x [n] := by
  intro b
  obtain ⟨scratch, ends⟩ := h b
  refine ⟨scratch, fun Q => (ends Q).trans ?_⟩
  by_cases fits : b.used + n ≤ S ∧ n ≤ u16Max
  · simp [Stays, Fits, taken, fits]
  · have stays : Stays S b.used [n] := fun room short => absurd ⟨room, short⟩ fits
    simp [stays, Fits, taken, fits]

theorem writes_write (bytes : Bytes) : Writes (write (S := S) bytes) [bytes.length] := by
  refine writes_one fun b => ?_
  unfold write
  by_cases fits : b.used + bytes.length ≤ S
  · obtain ⟨scratch, copied⟩ := exists_copy b.scratch b.used bytes fits
    refine ⟨scratch, fun Q => ?_⟩
    simp only [wp_bind, wp_get, copied, orFail, wp_pure, wp_modify]
    by_cases long : u16Max < bytes.length
    · rw [if_pos long, if_neg (fun h => Nat.not_le.mpr long h.2), wp_fail]
    · rw [if_neg long, if_pos ⟨fits, Nat.le_of_not_lt long⟩]
      simp only [wp_bind, wp_addU16, wp_modify]
  · refine ⟨b.scratch, fun Q => ?_⟩
    rw [if_neg (fun h => fits h.1)]
    simp only [wp_bind, wp_get, copy_none (Nat.lt_of_not_le fits), orFail, wp_fail]

theorem tagPrefixLen_le (tag : ℕ) : tagPrefixLen tag ≤ u16Max := by
  have := renderU32_length tag
  unfold tagPrefixLen u16Max
  omega

theorem asU16_eq {n : ℕ} (small : n ≤ u16Max) : asU16 n = n := Nat.mod_eq_of_lt (by omega)

theorem writes_writeTag (tag : ℕ) : Writes (writeTag (S := S) tag) [tagPrefixLen tag] := by
  refine writes_one fun b => ?_
  have small := tagPrefixLen_le tag
  have length : (renderU32 tag ++ [EQ]).length = tagPrefixLen tag := by
    rw [List.length_append]
    rfl
  have narrow : asU16 ((renderU32 tag).length + 1) = tagPrefixLen tag := asU16_eq small
  unfold writeTag
  by_cases fits : b.used + tagPrefixLen tag ≤ S
  · obtain ⟨scratch, copied⟩ := exists_copy b.scratch b.used (renderU32 tag ++ [EQ]) (by omega)
    refine ⟨scratch, fun Q => ?_⟩
    rw [if_pos ⟨fits, small⟩]
    simp only [wp_bind, wp_get, copied, orFail, wp_pure, wp_modify, narrow, wp_addU16]
  · refine ⟨b.scratch, fun Q => ?_⟩
    have full : b.scratch.copy b.used (renderU32 tag ++ [EQ]) = none := copy_none (by omega)
    rw [if_neg (fun h => fits h.1)]
    simp only [wp_bind, wp_get, full, orFail, wp_fail]

theorem Writes.bind {x y : Build S Unit} {ns ms : List ℕ} (hx : Writes x ns) (hy : Writes y ms) :
    Writes (x >>= fun _ => y) (ns ++ ms) := by
  intro b
  obtain ⟨scratch, first⟩ := hx b
  obtain ⟨scratch', second⟩ := hy { b with scratch, used := taken S b.used ns }
  by_cases fits : Fits S b.used ns
  · refine ⟨scratch', fun Q => ?_⟩
    rw [wp_bind, first, if_pos fits]
    dsimp only at second ⊢
    rw [second, stays_append, taken_append, if_pos fits, taken_fits fits, ← and_assoc]
    simp only [fits, fits_append, true_and, forall_const]
  · have refused : ¬ Fits S b.used (ns ++ ms) := fun h => fits (fits_append.mp h).1
    refine ⟨scratch, fun Q => ?_⟩
    rw [wp_bind, first, if_neg fits, if_neg refused, stays_append, taken_append, if_neg fits]
    simp only [fits, false_imp_iff, and_true]

/-- The lengths of the writes of a field. -/
def fieldWrites (tag : ℕ) (value : Bytes) : List ℕ := [tagPrefixLen tag, value.length, 1]

theorem writes_writeField (tag : ℕ) (value : Bytes) :
    Writes (writeField (S := S) tag value) (fieldWrites tag value) :=
  (writes_writeTag tag).bind ((writes_write value).bind (writes_write [SOH]))

/-- Where what is written lands. -/
theorem Writes.landed {x : Build S Unit} {ns : List ℕ} (hx : Writes x ns) (b : TemplateBuilder S) :
    ∃ scratch, ∀ Q, wp (landed x) Q b ↔ Stays S b.used ns ∧
      Q (if Fits S b.used ns then .ok (b.used, ns.sum) else .error .scratchFull)
        { b with scratch, used := taken S b.used ns } := by
  obtain ⟨scratch, ends⟩ := hx b
  refine ⟨scratch, fun Q => ?_⟩
  unfold TemplateBuilder.landed
  rw [wp_get_bind, wp_bind, ends]
  refine and_congr_right fun _ => ?_
  by_cases fits : Fits S b.used ns
  · simp only [if_pos fits]
    rw [wp_get_bind, wp_bind, wp_sub (le_taken _ _), taken_fits fits, Nat.add_sub_cancel_left]
    exact wp_pure _
  · simp only [if_neg fits]

/-! ### What calls keep -/

/-- What the static entries take. -/
def statics (es : List Entry) : ℕ := (es.map fun e => if e.kind = .static then e.len else 0).sum

/-- Every call keeps this of a builder. -/
structure Sound (P : ℕ) (b : TemplateBuilder S) : Prop where
  beginAt : b.beginAt = 0
  room : b.used ≤ S
  small : b.used ≤ u16Max
  count : b.entries.length ≤ P
  placed : ∀ e ∈ b.entries, e.kind = .static →
    e.at_ + e.len ≤ b.used ∧ tagPrefixLen e.tag + 1 ≤ e.len
  total : b.beginLen + statics b.entries ≤ b.used

variable {Q : TemplateBuilder S → Prop}

/-- A builder that took more of the scratch. -/
theorem Sound.taken (sound : b.Sound P) {ns : List ℕ} (stays : Stays S b.used ns) (scratch : Block S) :
    Sound P { b with scratch, used := taken S b.used ns } where
  beginAt := sound.beginAt
  room := taken_le sound.room ns
  small := taken_le_u16Max sound.small stays
  count := sound.count
  placed e among static :=
    ⟨(sound.placed e among static).1.trans (le_taken _ _), (sound.placed e among static).2⟩
  total := sound.total.trans (le_taken _ _)

theorem statics_append (es es' : List Entry) : statics (es ++ es') = statics es + statics es' := by
  simp [statics]

theorem statics_one (e : Entry) : statics [e] = if e.kind = .static then e.len else 0 := by
  simp [statics]

theorem wp_entry {e : Entry} {Q : Except EncodeError Unit → TemplateBuilder S → Prop} :
    wp (entry P e) Q b ↔ if b.entries.length < P then Q (.ok ()) { b with entries := b.entries ++ [e] }
      else Q (.error .tooManyParts) b := by
  unfold entry
  rw [wp_bind, wp_get]
  dsimp only
  split
  · exact wp_modify _
  · exact wp_fail _

theorem Sound.entry (sound : b.Sound P) {e : Entry} (free : b.entries.length < P)
    (placed : e.kind = .static → e.at_ + e.len ≤ b.used ∧ tagPrefixLen e.tag + 1 ≤ e.len)
    (total : b.beginLen + statics b.entries + statics [e] ≤ b.used) :
    Sound P { b with entries := b.entries ++ [e] } where
  beginAt := sound.beginAt
  room := sound.room
  small := sound.small
  count := by
    rw [List.length_append]
    exact free
  placed e' among := by
    rcases List.mem_append.mp among with among | among
    · exact sound.placed e' among
    · rw [List.mem_singleton.mp among]
      exact placed
  total := by
    show b.beginLen + statics (b.entries ++ [e]) ≤ b.used
    rw [statics_append]
    omega

theorem Sound.recover {x : Build S Unit} (keeps : ∀ b' : TemplateBuilder S, b'.Sound P → Q b')
    (ends : wp x (fun _ b' => b'.Sound P) b) : wp (x.recover orErr) (fun _ => Q) b := by
  rw [wp_recover]
  refine wp_mono ends fun r b' sound => ?_
  cases r with
  | ok _ => exact keeps b' sound
  | error e =>
    exact keeps _ ⟨sound.beginAt, sound.room, sound.small, sound.count, sound.placed, sound.total⟩

/-- A hole never traps. -/
theorem wp_pushHole (sound : b.Sound P) (keeps : ∀ b' : TemplateBuilder S, b'.Sound P → Q b')
    {kind : Kind} (hole : kind ≠ .static) (tag : ℕ) :
    wp ((pushHole P tag kind).recover orErr) (fun _ => Q) b := by
  refine Sound.recover keeps ?_
  unfold pushHole
  split
  · exact sound
  · rw [wp_entry]
    split
    · rename_i free
      refine sound.entry free (fun static => absurd static hole) ?_
      rw [statics_one, if_neg hole]
      exact sound.total
    · exact sound

/-- **A field traps exactly when a write of it does.** -/
theorem wp_field (sound : b.Sound P) (keeps : ∀ b' : TemplateBuilder S, b'.Sound P → Q b') (tag : ℕ)
    (value : Bytes) : wp (field P tag value) (fun _ => Q) b ↔
      (reserved tag = false → Stays S b.used (fieldWrites tag value)) := by
  obtain ⟨scratch, ends⟩ := (writes_writeField tag value).landed b
  constructor
  · intro safe free
    unfold field pushField at safe
    rw [if_neg (by rw [free]; decide), wp_recover, wp_bind, stashField, ends] at safe
    exact safe.1
  · intro stays
    refine Sound.recover keeps ?_
    unfold pushField
    by_cases res : reserved tag = true
    · rw [if_pos res]
      exact sound
    · have stays := stays (Bool.eq_false_iff.mpr res)
      have grown := sound.taken stays scratch
      rw [if_neg res, wp_bind, stashField, ends]
      refine ⟨stays, ?_⟩
      by_cases fits : Fits S b.used (fieldWrites tag value)
      · simp only [if_pos fits]
        rw [wp_entry]
        split
        · rename_i free
          have used := taken_fits fits
          have sum : (fieldWrites tag value).sum = tagPrefixLen tag + value.length + 1 := by
            simp [fieldWrites, Nat.add_assoc]
          refine grown.entry free (fun _ => ⟨?_, ?_⟩) ?_
          · exact used.ge
          · show tagPrefixLen tag + 1 ≤ (fieldWrites tag value).sum
            omega
          · have total := sound.total
            rw [statics_one, if_pos rfl]
            show b.beginLen + statics b.entries + (fieldWrites tag value).sum ≤ taken S b.used _
            omega
        · exact grown
      · simp only [if_neg fits]
        exact grown

/-- **A builder starts without a trap.** -/
theorem new_sound (P S : ℕ) (beginString : Bytes) :
    ∃ b, new S beginString = .ok b ∧ b.Sound P ∧ b.beginLen ≤ beginString.length := by
  obtain ⟨scratch, ends⟩ := (writes_write beginString).landed ⟨.zeros S, 0, 0, 0, [], none⟩
  have stays : Stays S 0 [beginString.length] := fun _ short => ⟨by omega, trivial⟩
  have empty : Sound P (S := S) ⟨.zeros S, 0, 0, 0, [], none⟩ :=
    ⟨rfl, Nat.zero_le _, Nat.zero_le _, Nat.zero_le _, by simp, le_rfl⟩
  have grown := empty.taken stays scratch
  obtain ⟨r, b, ran, rfl, rfl⟩ := wp_iff.mp ((ends fun r b => r = _ ∧ b = _).mpr ⟨stays, rfl, rfl⟩)
  unfold new stash
  rw [ran]
  by_cases fits : Fits S 0 [beginString.length]
  · have used := taken_fits fits
    simp only [if_pos fits]
    refine ⟨_, rfl, { grown with beginAt := rfl, total := ?_ }, ?_⟩
    · show [beginString.length].sum + 0 ≤ taken S 0 [beginString.length]
      omega
    · simp
  · simp only [if_neg fits]
    exact ⟨_, rfl, { grown with }, Nat.zero_le _⟩

/-! ### Building -/

theorem exists_swapDown {es : List Entry} {j : ℕ} (inside : j < es.length) :
    ∃ es', swapDown D j es = .ok es' ∧ es'.Perm es := by
  induction j generalizing es with
  | zero => exact ⟨es, rfl, .refl es⟩
  | succ j ih =>
    have before : j < es.length := by omega
    have swapped := List.set_set_perm before inside
    unfold swapDown
    rw [index_eq before, index_eq inside]
    show ∃ es', (if keyLt (sortKey D es[j + 1].tag) (sortKey D es[j].tag) then
      swapDown D j ((es.set j es[j + 1]).set (j + 1) es[j]) else .ok es) = .ok es' ∧ es'.Perm es
    split
    · have still : j < ((es.set j es[j + 1]).set (j + 1) es[j]).length := by simpa using before
      obtain ⟨es', sorted, perm⟩ := ih still
      exact ⟨es', sorted, perm.trans swapped⟩
    · exact ⟨es, rfl, .refl es⟩

/-- Sorting swaps entries, and does not trap. -/
theorem exists_sortEntries (D : Dictionary) (es : List Entry) :
    ∃ es', sortEntries D es = .ok es' ∧ es'.Perm es := by
  have turns (is : List ℕ) (es' : List Entry) (perm : es'.Perm es) (inside : ∀ i ∈ is, i < es.length) :
      ∃ es'', is.foldlM (fun es i => swapDown D i es) es' = .ok es'' ∧ es''.Perm es := by
    induction is generalizing es' with
    | nil => exact ⟨es', rfl, perm⟩
    | cons i is ih =>
      have here : i < es'.length := by
        rw [perm.length_eq]
        exact inside i List.mem_cons_self
      obtain ⟨next, swapped, perm'⟩ := exists_swapDown (D := D) here
      obtain ⟨last, sorted, perm''⟩ := ih next (perm'.trans perm)
        fun i among => inside i (List.mem_cons_of_mem _ among)
      refine ⟨last, ?_, perm''⟩
      rw [List.foldlM_cons, swapped]
      exact sorted
  refine turns _ es (.refl es) fun i among => ?_
  have := List.mem_range'_1.mp among
  omega

theorem Sound.perm (sound : b.Sound P) {es : List Entry} (perm : es.Perm b.entries) :
    Sound P { b with entries := es } where
  beginAt := sound.beginAt
  room := sound.room
  small := sound.small
  count := perm.length_eq.trans_le sound.count
  placed e among := sound.placed e (perm.mem_iff.mp among)
  total := by
    have same : statics es = statics b.entries := (perm.map _).sum_nat
    show b.beginLen + statics es ≤ b.used
    rw [same]
    exact sound.total

/-- The writes by which length fields are rewritten, for the entries at these places. -/
def rewrites (D : Dictionary) : List ℕ → ℕ → List Entry → List ℕ
  | [], _, _ => []
  | i :: is, used, es =>
    match es[i]? with
    | none => []
    | some e =>
      match D.dataLengthTag e.tag with
      | none => rewrites D is used es
      | some lenTag =>
        match es.findIdx? (·.tag == lenTag) with
        | none => []
        | some j =>
          match e.kind with
          | .static =>
            let ns := fieldWrites lenTag (renderU32 (e.len - (tagPrefixLen e.tag + 1)))
            ns ++ rewrites D is (used + ns.sum)
              (es.modify j fun x => { x with at_ := used, len := ns.sum, kind := .static })
          | _ => rewrites D is used (es.modify j fun x => { x with kind := .dataLen e.tag })

theorem exists_of_findIdx {es : List Entry} {lenTag j : ℕ}
    (found : es.findIdx? (·.tag == lenTag) = some j) : ∃ front x back, es = front ++ x :: back ∧
      x.tag = lenTag ∧ ∀ f, es.modify j f = front ++ f x :: back := by
  obtain ⟨inside, same, _⟩ := List.findIdx?_eq_some_iff_getElem.mp found
  refine ⟨es.take j, es[j], es.drop (j + 1), ?_, beq_iff_eq.mp same, fun f => ?_⟩
  · rw [List.getElem_cons_drop, List.take_append_drop]
  · exact List.modify_eq_take_cons_drop inside

/-- An entry that was rewritten. -/
theorem Sound.rewritten (sound : b.Sound P) {front back : List Entry} {x : Entry}
    (entries : b.entries = front ++ x :: back) (x' : Entry) {used : ℕ} (room : used ≤ S) (small : used ≤ u16Max)
    (placed : x'.kind = .static → x'.at_ + x'.len ≤ used ∧ tagPrefixLen x'.tag + 1 ≤ x'.len)
    (total : b.used + statics [x'] ≤ used) (scratch : Block S) :
    Sound P { b with scratch, used, entries := front ++ x' :: back } where
  beginAt := sound.beginAt
  room := room
  small := small
  count := by
    have count := sound.count
    rw [entries] at count
    simpa using count
  placed e among static := by
    have later : b.used ≤ used := by omega
    have old (among : e ∈ b.entries) : e.at_ + e.len ≤ used ∧ tagPrefixLen e.tag + 1 ≤ e.len :=
      ⟨(sound.placed e among static).1.trans later, (sound.placed e among static).2⟩
    rw [entries] at old
    rcases List.mem_append.mp among with among | among
    · exact old (List.mem_append_left _ among)
    · rcases List.mem_cons.mp among with rfl | among
      · exact placed static
      · exact old (List.mem_append_right _ (List.mem_cons_of_mem _ among))
  total := by
    have before := sound.total
    rw [entries, ← List.singleton_append, statics_append, statics_append] at before
    show b.beginLen + statics (front ++ ([x'] ++ back)) ≤ used
    rw [statics_append, statics_append]
    omega

/-- **Rewriting the length fields traps exactly when a write of it does.** -/
theorem wp_fixLengths {Q : Except EncodeError Unit → TemplateBuilder S → Prop} (sound : b.Sound P)
    (is : List ℕ) (inside : ∀ i ∈ is, i < b.entries.length)
    (keeps : ∀ r b', b'.Sound P → b'.beginLen = b.beginLen →
      b'.entries.length = b.entries.length → Q r b') :
    wp (is.forM (fixLength D)) Q b ↔ Stays S b.used (rewrites D is b.used b.entries) := by
  induction is generalizing b with
  | nil => exact ⟨fun _ => trivial, fun _ => keeps _ b sound rfl rfl⟩
  | cons i is ih =>
    have here := inside i List.mem_cons_self
    have later : ∀ i ∈ is, i < b.entries.length := fun i among =>
      inside i (List.mem_cons_of_mem _ among)
    have placed := sound.placed b.entries[i] (List.getElem_mem here)
    show wp (fixLength D i >>= fun _ => is.forM (fixLength D)) Q b ↔ _
    simp only [rewrites, List.getElem?_eq_getElem here]
    rw [wp_bind, fixLength, wp_get_bind, wp_checked_bind (index_eq here)]
    cases data : D.dataLengthTag b.entries[i].tag with
    | none => exact ih sound later keeps
    | some lenTag =>
      dsimp only
      cases found : b.entries.findIdx? (·.tag == lenTag) with
      | none => exact ⟨fun _ => trivial, fun _ => keeps _ b sound rfl rfl⟩
      | some j =>
        obtain ⟨front, x, back, entries, tag, modified⟩ := exists_of_findIdx found
        cases kind : b.entries[i].kind with
        | static =>
          have enough : tagPrefixLen b.entries[i].tag + 1 ≤ b.entries[i].len := (placed kind).2
          have long : sub b.entries[i].len (tagPrefixLen b.entries[i].tag + 1) = .ok _ := if_pos enough
          generalize b.entries[i].len - (tagPrefixLen b.entries[i].tag + 1) = n at long ⊢
          obtain ⟨scratch, ends⟩ := (writes_writeField lenTag (renderU32 n)).landed b
          dsimp only
          rw [wp_checked_bind long, wp_bind, wp_mapError, stashField, ends, stays_append]
          refine and_congr_right fun stays => ?_
          by_cases fits : Fits S b.used (fieldWrites lenTag (renderU32 n))
          · have grown := sound.taken stays scratch
            have used := taken_fits fits
            have sum : (fieldWrites lenTag (renderU32 n)).sum =
                tagPrefixLen lenTag + (renderU32 n).length + 1 := by simp [fieldWrites, Nat.add_assoc]
            have room : b.used + (fieldWrites lenTag (renderU32 n)).sum ≤ S := used ▸ grown.room
            have small : b.used + (fieldWrites lenTag (renderU32 n)).sum ≤ u16Max :=
              used ▸ grown.small
            have rewritten := sound.rewritten entries ⟨x.tag, b.used,
              (fieldWrites lenTag (renderU32 n)).sum, .static⟩ room small
              (fun _ => ⟨le_rfl, by
                show tagPrefixLen x.tag + 1 ≤ (fieldWrites lenTag (renderU32 n)).sum
                rw [tag]
                omega⟩)
              (by rw [statics_one, if_pos rfl]) scratch
            rw [← modified fun x => { x with
              at_ := b.used, len := (fieldWrites lenTag (renderU32 n)).sum, kind := .static }]
              at rewritten
            have next := ih rewritten (by simpa using later) fun r b' sound len count =>
              keeps r b' sound len (count.trans (List.length_modify _ _ _))
            simp only [fits, forall_const, if_true, used]
            exact next
          · simp only [fits, false_imp_iff, iff_true]
            exact keeps _ _ (sound.taken stays scratch) rfl rfl
        | slot | group | dataLen _ =>
          have rewritten := sound.rewritten entries { x with kind := .dataLen b.entries[i].tag }
            sound.room sound.small (by rintro ⟨⟩) le_rfl b.scratch
          rw [← modified fun x => { x with kind := .dataLen b.entries[i].tag }] at rewritten
          have next := ih rewritten (by simpa using later) fun r b' sound len count =>
            keeps r b' sound len (count.trans (List.length_modify _ _ _))
          exact next

/-! ### Laying out -/

/-- What one entry takes when it is static. -/
def weight (e : Option Entry) : ℕ := e.elim 0 fun e => statics [e]

theorem weight_sum (es : List Entry) :
    ((List.range es.length).map fun i => weight es[i]?).sum = statics es := by
  have same : ((List.range es.length).map fun i => weight es[i]?) =
      es.map fun e => if e.kind = .static then e.len else 0 := by
    refine List.ext_getElem (by simp) fun i _ inside => ?_
    rw [List.length_map] at inside
    simp [weight, statics, inside]
  rw [same, statics]

/-- What a layout keeps: its parts are in front of `used`. -/
structure Layout.Sound (P : ℕ) (l : Layout S) : Prop where
  count : l.parts.length ≤ P
  placed : ∀ at_ n, .static at_ n ∈ l.parts → at_ + n ≤ l.used ∧ 0 < n
  msgType : l.mtAt + l.mtLen ≤ l.used

/-- Parts with one more. -/
theorem wp_pushPart {parts : List Part} {used : ℕ}
    (placed : ∀ at_ n, .static at_ n ∈ parts → at_ + n ≤ used ∧ 0 < n) (part : Part)
    (new : ∀ at_ n, part = .static at_ n → at_ + n ≤ used ∧ 0 < n) :
    wp (pushPart P parts part) (fun r b' => b' = b ∧ ∀ parts', r = .ok parts' →
      parts'.length ≤ P ∧ ∀ at_ n, .static at_ n ∈ parts' → at_ + n ≤ used ∧ 0 < n) b := by
  unfold pushPart
  split
  · rename_i free
    refine ⟨rfl, fun parts' same => ?_⟩
    cases same
    refine ⟨by rw [List.length_append]; exact free, fun at_ n among => ?_⟩
    rcases List.mem_append.mp among with among | among
    · exact placed at_ n among
    · exact new at_ n (List.mem_singleton.mp among).symm
  · exact ⟨rfl, fun _ same => by cases same⟩

/-- A static run has its place in a `u16`. -/
theorem wp_pushStatic {parts : List Part} {used len : ℕ} (few : parts.length ≤ P)
    (placed : ∀ at_ n, .static at_ n ∈ parts → at_ + n ≤ used ∧ 0 < n) (some_ : 0 < len)
    (small : used + len ≤ u16Max) :
    wp (pushStatic P parts used len) (fun r b' => b' = b ∧ ∀ parts', r = .ok parts' →
      parts'.length ≤ P ∧ ∀ at_ n, .static at_ n ∈ parts' → at_ + n ≤ used + len ∧ 0 < n) b := by
  have grown : ∀ at_ n, .static at_ n ∈ parts → at_ + n ≤ used + len ∧ 0 < n := fun at_ n among =>
    ⟨(placed at_ n among).1.trans (Nat.le_add_right _ _), (placed at_ n among).2⟩
  have pushed := wp_pushPart (P := P) (b := b) grown (.static (asU16 used) len) fun at_ n same => by
    cases same
    rw [asU16_eq (by omega)]
    exact ⟨le_rfl, some_⟩
  unfold pushStatic
  split
  · rename_i at_ before last
    have among := List.mem_of_getLast? last
    split
    · rename_i behind
      have fits : before + len ≤ u16Max := by omega
      rw [wp_bind, wp_addU16]
      refine ⟨fits, rfl, fun parts' same => ?_⟩
      cases same
      have many : 0 < parts.length := List.length_pos_of_mem among
      refine ⟨?_, fun at' n among' => ?_⟩
      · rw [List.length_append, List.length_dropLast, List.length_singleton]
        omega
      · rcases List.mem_append.mp among' with among' | among'
        · exact grown at' n (List.mem_of_mem_dropLast among')
        · cases List.mem_singleton.mp among'
          exact ⟨by omega, by omega⟩
    · exact pushed
  · exact pushed

/-- One entry is laid out behind the others, and its bytes are counted in the builder's. -/
theorem wp_layEntry (sound : b.Sound P) {l : Layout S} (laid : l.Sound P) {i rest : ℕ}
    (inside : i < b.entries.length) (room : l.used + weight b.entries[i]? + rest ≤ b.used) :
    wp (layEntry P l i) (fun r b' => b' = b ∧ ∀ l', r = .ok l' →
      l'.Sound P ∧ l'.used + rest ≤ b.used) b := by
  have placed := sound.placed b.entries[i] (List.getElem_mem inside)
  have used_small := sound.small
  have used_room := sound.room
  rw [List.getElem?_eq_getElem inside] at room
  unfold layEntry
  rw [wp_get_bind, wp_checked_bind (index_eq inside)]
  cases kind : b.entries[i].kind with
  | static =>
    have ⟨within_, long⟩ := placed kind
    have weighs : weight (some b.entries[i]) = b.entries[i].len :=
      (statics_one _).trans (if_pos kind)
    rw [weighs] at room
    have length : ((b.scratch.bytes.drop b.entries[i].at_).take b.entries[i].len).length =
        b.entries[i].len := by
      rw [List.length_take, List.length_drop, b.scratch.size]
      omega
    have sliced : b.scratch.slice b.entries[i].at_ b.entries[i].len = .ok _ := if_pos (by omega)
    generalize (b.scratch.bytes.drop b.entries[i].at_).take b.entries[i].len = src at length sliced
    -- `35=` and the separator are four bytes
    have msgType : wp (msgTypeAt l b.entries[i]) (fun r b' =>
        b' = b ∧ ∃ mt, r = .ok mt ∧ mt.1 + mt.2 ≤ l.used + b.entries[i].len) b := by
      unfold msgTypeAt
      split
      · rename_i tag
        have four : tagPrefixLen b.entries[i].tag = 3 := by
          rw [tag]
          decide
        rw [wp_bind, wp_sub (by omega)]
        refine ⟨rfl, _, rfl, ?_⟩
        rw [asU16_eq (by omega)]
        show l.used + 3 + (b.entries[i].len - 4) ≤ _
        omega
      · exact ⟨rfl, _, rfl, laid.msgType.trans (Nat.le_add_right _ _)⟩
    obtain ⟨scratch, copied⟩ := exists_copy l.scratch l.used src (by omega)
    dsimp only
    rw [wp_checked_bind sliced, wp_bind]
    refine wp_mono msgType ?_
    rintro r b' ⟨rfl, ⟨mtAt, mtLen⟩, rfl, msgType⟩
    dsimp only
    rw [copied, orFail, wp_pure_bind, wp_bind]
    refine wp_mono (wp_pushStatic laid.count laid.placed (by omega) (by omega)) ?_
    rintro r b'' ⟨rfl, pushed⟩
    cases r with
    | error e => exact ⟨rfl, by rintro _ ⟨⟩⟩
    | ok parts =>
      obtain ⟨count, placed⟩ := pushed parts rfl
      refine ⟨rfl, fun l' same => ?_⟩
      cases same
      rw [length]
      exact ⟨⟨count, placed, msgType⟩, room⟩
  | slot | group | dataLen _ =>
    have weighs : weight (some b.entries[i]) = 0 :=
      (statics_one _).trans (if_neg (by rw [kind]; rintro ⟨⟩))
    rw [weighs] at room
    dsimp only
    rw [wp_bind]
    refine wp_mono (wp_pushPart laid.placed _ (by rintro _ _ ⟨⟩)) ?_
    rintro r b' ⟨rfl, pushed⟩
    cases r with
    | error e => exact ⟨rfl, by rintro _ ⟨⟩⟩
    | ok parts =>
      obtain ⟨count, placed⟩ := pushed parts rfl
      refine ⟨rfl, fun l' same => ?_⟩
      cases same
      exact ⟨⟨count, placed, laid.msgType⟩, room⟩

/-- All entries are laid out. -/
theorem wp_layEntries (sound : b.Sound P) {l : Layout S} (laid : l.Sound P)
    (room : l.used + statics b.entries ≤ b.used) :
    wp ((List.range b.entries.length).foldlM (layEntry P) l) (fun r b' => b' = b ∧ ∀ l', r = .ok l' →
      l'.Sound P ∧ l'.used ≤ b.used) b := by
  refine wp_foldlM (fun is l b' => b' = b ∧ l.Sound P ∧ (∀ i ∈ is, i < b.entries.length) ∧
    l.used + (is.map fun i => weight b.entries[i]?).sum ≤ b.used) ?_ ?_ _ l
    ⟨rfl, laid, fun i among => List.mem_range.mp among, by rw [weight_sum]; exact room⟩
  · rintro i is l b' ⟨rfl, laid, inside, room⟩
    rw [List.map_cons, List.sum_cons, ← Nat.add_assoc] at room
    refine wp_mono (wp_layEntry sound laid (inside i List.mem_cons_self) room) ?_
    rintro r b'' ⟨rfl, next⟩
    cases r with
    | error e => exact ⟨rfl, by rintro _ ⟨⟩⟩
    | ok l' =>
      obtain ⟨laid, room⟩ := next l' rfl
      exact ⟨rfl, laid, fun i among => inside i (List.mem_cons_of_mem _ among), room⟩
  · rintro l b' ⟨rfl, laid, _, room⟩
    refine ⟨rfl, fun l' same => ?_⟩
    cases same
    exact ⟨laid, room⟩

theorem exists_startLayout (sound : b.Sound P) :
    ∃ l : Layout S, startLayout b = pure l ∧ l.Sound P ∧ l.used = b.beginLen := by
  have room : b.beginLen ≤ S := (Nat.le_add_right _ _).trans (sound.total.trans sound.room)
  have sliced : b.scratch.slice b.beginAt b.beginLen = .ok _ := if_pos (by rw [sound.beginAt]; omega)
  have length : ((b.scratch.bytes.drop b.beginAt).take b.beginLen).length ≤ b.beginLen :=
    List.length_take_le _ _
  obtain ⟨scratch, copied⟩ := exists_copy (.zeros S) 0
    ((b.scratch.bytes.drop b.beginAt).take b.beginLen) (by omega)
  refine ⟨⟨scratch, b.beginLen, 0, 0, [], false⟩, ?_,
    ⟨Nat.zero_le _, by rintro _ _ ⟨⟩, Nat.zero_le _⟩, rfl⟩
  unfold startLayout
  rw [if_neg (Nat.not_lt.mpr room), sliced]
  show (orFail .scratchFull ((Block.zeros S).copy 0 _) >>= fun _ => _) = _
  rw [copied]
  rfl

end TemplateBuilder

/-- A template's places are in its scratch. -/
structure Template.Sound (P : ℕ) (t : Template S) : Prop where
  begin_ : t.beginAt + t.beginLen ≤ S
  len : t.len = t.parts.length
  count : t.parts.length ≤ P
  placed : ∀ at_ n, .static at_ n ∈ t.parts → at_ + n ≤ S ∧ 0 < n
  msgType : t.mtAt + t.mtLen ≤ S

namespace TemplateBuilder

variable {b : TemplateBuilder S}

/-- The rewritten length fields of a sorted builder stay in a `u16`. -/
def LengthsStay (D : Dictionary) (b : TemplateBuilder S) : Prop :=
  ∀ es, sortEntries D b.entries = .ok es →
    Stays S b.used (rewrites D (List.range es.length) b.used es)

/-- **Building traps exactly when rewriting a length field does.** -/
theorem wp_build {Q : Except EncodeError (Template S) → TemplateBuilder S → Prop} (sound : b.Sound P)
    (keeps : ∀ r b', b'.Sound P → b'.beginLen = b.beginLen →
      (∀ t, r = .ok t → t.Sound P ∧ t.beginLen = b.beginLen) → Q r b') :
    wp (build D P) Q b ↔ (b.err = none → LengthsStay D b) := by
  have begins : b.beginLen ≤ S := (Nat.le_add_right _ _).trans (sound.total.trans sound.room)
  obtain ⟨es, sorted, perm⟩ := exists_sortEntries D b.entries
  have stay : LengthsStay D b ↔ Stays S b.used (rewrites D (List.range es.length) b.used es) := by
    unfold LengthsStay
    rw [sorted]
    exact ⟨fun h => h es rfl, fun h _ same => by cases same; exact h⟩
  have ordered := sound.perm perm
  unfold build
  rw [wp_get_bind, stay]
  cases failed : b.err with
  | some e => exact ⟨fun _ => by rintro ⟨⟩, fun _ => keeps _ b sound rfl (by rintro _ ⟨⟩)⟩
  | none =>
    dsimp only
    obtain ⟨start, started, laid, used⟩ := exists_startLayout sound
    rw [wp_checked_bind sorted, wp_modify_bind, started, wp_pure_bind, wp_bind,
      wp_fixLengths ordered (List.range es.length) (fun i among => List.mem_range.mp among) ?_]
    · exact ⟨fun h _ => h, fun h => h rfl⟩
    intro r b' sound' len count
    cases r with
    | error e => exact keeps _ b' sound' len (by rintro _ ⟨⟩)
    | ok _ =>
      have total := sound'.total
      rw [len, show ({ b with entries := es } : TemplateBuilder S).beginLen = b.beginLen from rfl,
        ← used] at total
      dsimp only
      rw [← count, wp_bind]
      refine wp_mono (wp_layEntries sound' laid total) ?_
      rintro r b'' ⟨rfl, done⟩
      cases r with
      | error e => exact keeps _ b'' sound' len (by rintro _ ⟨⟩)
      | ok l =>
        obtain ⟨laid, used⟩ := done l rfl
        have room := used.trans sound'.room
        dsimp only
        split
        · exact keeps _ b'' sound' len (by rintro _ ⟨⟩)
        · split
          · exact keeps _ b'' sound' len (by rintro _ ⟨⟩)
          · refine keeps _ b'' sound' len fun t same => ?_
            cases same
            refine ⟨⟨?_, rfl, laid.count, fun at_ n among => ?_, laid.msgType.trans room⟩, rfl⟩
            · show 0 + b.beginLen ≤ S
              omega
            · have placed := laid.placed at_ n among
              exact ⟨placed.1.trans room, placed.2⟩

end TemplateBuilder

/-! ### How long a body is asked to be -/

/-- The sum of what each costs, if none is refused. -/
def total {δ : Type} (c : δ → Option ℕ) : List δ → Option ℕ
  | [] => some 0
  | a :: l => (c a).bind fun n => (total c l).map (n + ·)

/-- The length of an entry of a group. -/
def entryLength (D : Dictionary) (sub : GroupData → Option ℕ) (counter : ℕ) (order : List ℕ) :
    GroupEntryData → Option ℕ
  | .mk fields groups =>
    match entryFault D order counter fields groups with
    | some _ => none
    | none => order |> total fun tag =>
        match slotValue fields tag with
        | some v =>
          match (dataOwner D order tag).bind (slotValue fields) with
          | some data => some (encodeField tag (renderU32 data.length)).length
          | none => some (encodeField tag v).length
        | none =>
          match groups.find? fun g => g.1 == tag with
          | some g => sub g
          | none => some 0

/-- The length of a group with everything in it. -/
def groupLength (D : Dictionary) (msgType : Bytes) : ℕ → GroupData → Option ℕ
  | 0, _ => none
  | levels + 1, g =>
    let order := D.groupOrder msgType g.1
    if order.isEmpty then none
    else (total (entryLength D (groupLength D msgType levels) g.1 order) g.2).map
      ((encodeField g.1 (renderU32 g.2.length)).length + ·)

namespace Template

variable (t : Template S) (D : Dictionary) (slots : List (ℕ × Bytes)) (groups : List GroupData)

/-- The length of what is written at one place. -/
def partLength : Part → Option ℕ
  | .static _ n => some n
  | .dataLen tag dataTag =>
    match slotValue slots dataTag with
    | some value =>
      if u32Max < value.length then none else some (encodeField tag (renderU32 value.length)).length
    | none => some 0
  | .slot tag =>
    match slotValue slots tag with
    | some value => some (encodeField tag value).length
    | none => some 0
  | .group counter =>
    match groups.find? fun g => g.1 == counter with
    | some g => groupLength D ((t.scratch.bytes.drop t.mtAt).take t.mtLen) maxDepth g
    | none => some 0

/-- The length of the body that is asked for: `none` when its groups are refused. -/
def bodyLength : Option ℕ := total (t.partLength D slots groups) t.parts

/-- The prefix of the message has room in its array: or the body is not written, or the `BeginString`
is refused. -/
def PrefixFits (room : ℕ) : Prop :=
  ∀ n, t.bodyLength D slots groups = some n → (n = 0 ∨ t.reserve + n ≤ room) → n < 100000 →
    t.beginLen ≤ 41 → t.beginLen + (renderU32 n).length ≤ 37

end Template

/-- `r` is `c` bytes more than `n`, when there is room for them. -/
def Adds (room n : ℕ) (r : Except EncodeError Bytes) : Option ℕ → Prop
  | some c =>
    if c = 0 ∨ n + c ≤ room then ∃ w, r = .ok w ∧ w.length = n + c else ∃ e, r = .error e
  | none => ∃ e, r = .error e

/-- What `x` writes is `c` bytes long. -/
def Costs (room : ℕ) (x : Bytes → Except EncodeError Bytes) (c : Option ℕ) : Prop :=
  ∀ w, Adds room w.length (x w) c

section costs

variable {room : ℕ} {x y : Bytes → Except EncodeError Bytes} {c d : Option ℕ}

theorem costs_ok : Costs room .ok (some 0) := fun w => by
  rw [Adds, if_pos (.inl rfl)]
  exact ⟨w, rfl, rfl⟩

theorem costs_error (e : EncodeError) : Costs room (fun _ => .error e) none := fun _ => ⟨e, rfl⟩

theorem costs_putBytes {bytes : Bytes} (some_ : 0 < bytes.length) :
    Costs room (fun w => putBytes room w bytes) (some bytes.length) := by
  intro w
  unfold Adds putBytes
  by_cases full : room < w.length + bytes.length
  · simp only [if_pos full]
    rw [if_neg (by omega)]
    exact ⟨_, rfl⟩
  · simp only [if_neg full]
    rw [if_pos (by omega)]
    exact ⟨_, rfl, List.length_append⟩

theorem costs_put (tag : ℕ) (value : Bytes) :
    Costs room (fun w => put room w tag value) (some (encodeField tag value).length) := by
  refine costs_putBytes ?_
  rw [encodeField, List.length_append, List.length_singleton]
  omega

theorem Costs.bind (hx : Costs room x c) (hy : Costs room y d) :
    Costs room (fun w => x w >>= y) (c.bind fun n => d.map (n + ·)) := by
  intro w
  have first := hx w
  show Adds room w.length (x w >>= y) _
  cases c with
  | none =>
    obtain ⟨e, failed⟩ := first
    rw [failed]
    exact ⟨e, rfl⟩
  | some n =>
    rw [Option.bind_some]
    by_cases fits : n = 0 ∨ w.length + n ≤ room
    · rw [Adds, if_pos fits] at first
      obtain ⟨w', wrote, length⟩ := first
      have second := hy w'
      rw [wrote]
      show Adds room w.length (y w') _
      cases d with
      | none => exact second
      | some m =>
        rw [Option.map_some]
        rw [Adds] at second ⊢
        by_cases more : m = 0 ∨ w'.length + m ≤ room
        · rw [if_pos more] at second
          obtain ⟨w'', wrote', length'⟩ := second
          rw [if_pos (by omega)]
          exact ⟨w'', wrote', by omega⟩
        · rw [if_neg more] at second
          rw [if_neg (by omega)]
          exact second
    · rw [Adds, if_neg fits] at first
      obtain ⟨e, failed⟩ := first
      rw [failed]
      cases d with
      | none => exact ⟨e, rfl⟩
      | some m =>
        rw [Option.map_some, Adds, if_neg (by omega)]
        exact ⟨e, rfl⟩

theorem costs_foldlM {δ : Type} {g : Bytes → δ → Except EncodeError Bytes} {c : δ → Option ℕ}
    (l : List δ) (each : ∀ a ∈ l, Costs room (fun w => g w a) (c a)) :
    Costs room (fun w => l.foldlM g w) (total c l) := by
  induction l with
  | nil => exact costs_ok
  | cons a l ih =>
    exact (each a List.mem_cons_self).bind (ih fun a among => each a (List.mem_cons_of_mem _ among))

theorem costs_putEntry {sub : Bytes → GroupData → Except EncodeError Bytes}
    {subLength : GroupData → Option ℕ} (nested : ∀ g, Costs room (fun w => sub w g) (subLength g))
    (counter : ℕ) (order : List ℕ) (e : GroupEntryData) :
    Costs room (fun w => putEntry D room sub counter order w e)
      (entryLength D subLength counter order e) := by
  obtain ⟨fields, groups⟩ := e
  unfold putEntry entryLength
  dsimp only
  cases entryFault D order counter fields groups with
  | some e => exact costs_error e
  | none =>
    refine costs_foldlM order fun tag _ => ?_
    cases slotValue fields tag with
    | some v =>
      cases (dataOwner D order tag).bind (slotValue fields) with
      | some data => exact costs_put _ _
      | none => exact costs_put _ _
    | none =>
      cases groups.find? fun g => g.1 == tag with
      | some g => exact nested g
      | none => exact costs_ok

theorem costs_putGroup (msgType : Bytes) (levels : ℕ) (g : GroupData) :
    Costs room (fun w => putGroup D room msgType levels w g) (groupLength D msgType levels g) := by
  induction levels generalizing g with
  | zero => exact costs_error _
  | succ levels ih =>
    unfold putGroup groupLength
    dsimp only
    split
    · exact costs_error _
    · exact (costs_put _ _).bind (costs_foldlM g.2 fun e _ => costs_putEntry ih _ _ e)

end costs

/-! ### Encoding -/

namespace Template

variable {t : Template S} {room : ℕ} {slots : List (ℕ × Bytes)} {groups : List GroupData}

/-- What a part of a sound template writes costs what is asked for. -/
theorem exists_putPart (D : Dictionary) (room : ℕ) (slots : List (ℕ × Bytes))
    (groups : List GroupData) (sound : t.Sound P) {part : Part} (among : part ∈ t.parts) :
    ∃ x, Costs room x (t.partLength D slots groups part) ∧
      ∀ w, t.putPart D room slots groups w part = .lift (x w) := by
  unfold partLength putPart
  cases part with
  | static at_ n =>
    have ⟨inside, some_⟩ := sound.placed at_ n among
    have sliced : t.scratch.slice at_ n = .ok _ := if_pos inside
    have length : ((t.scratch.bytes.drop at_).take n).length = n := by
      rw [List.length_take, List.length_drop, t.scratch.size]
      omega
    have costs : Costs room (fun w => putBytes room w ((t.scratch.bytes.drop at_).take n)) _ :=
      costs_putBytes (by omega)
    rw [length] at costs
    refine ⟨_, costs, fun w => ?_⟩
    dsimp only
    rw [sliced]
    rfl
  | dataLen tag dataTag =>
    dsimp only
    cases slotValue slots dataTag with
    | none => exact ⟨_, costs_ok, fun w => rfl⟩
    | some value =>
      dsimp only
      split
      · exact ⟨_, costs_error .bodyTooLong, fun w => rfl⟩
      · exact ⟨_, costs_put _ _, fun w => rfl⟩
  | slot tag =>
    dsimp only
    cases slotValue slots tag with
    | none => exact ⟨_, costs_ok, fun w => rfl⟩
    | some value => exact ⟨_, costs_put _ _, fun w => rfl⟩
  | group counter =>
    dsimp only
    cases groups.find? fun g => g.1 == counter with
    | none => exact ⟨_, costs_ok, fun w => rfl⟩
    | some g =>
      have sliced : t.scratch.slice t.mtAt t.mtLen = .ok _ := if_pos sound.msgType
      refine ⟨_, costs_putGroup _ _ g, fun w => ?_⟩
      dsimp only
      rw [sliced]
      rfl

theorem total_map {δ ζ : Type} (f : δ → ζ) (c : ζ → Option ℕ) (l : List δ) :
    total c (l.map f) = total (fun a => c (f a)) l := by
  induction l with
  | nil => rfl
  | cons a l ih =>
    rw [List.map_cons, total, ih]
    rfl

/-- The loop over the parts, by their places. -/
theorem exists_putAll (D : Dictionary) (room : ℕ) (slots : List (ℕ × Bytes))
    (groups : List GroupData) (sound : t.Sound P) :
    ∃ x, Costs room x (t.bodyLength D slots groups) ∧
      ∀ w, (List.range t.len).foldlM (t.putAt D room slots groups) w = .lift (x w) := by
  have turns (is : List ℕ) (inside : ∀ i ∈ is, i < t.parts.length) :
      ∃ x, Costs room x (total (fun i => (t.parts[i]?).elim none (t.partLength D slots groups)) is) ∧
        ∀ w, is.foldlM (t.putAt D room slots groups) w = .lift (x w) := by
    induction is with
    | nil => exact ⟨.ok, costs_ok, fun w => rfl⟩
    | cons i is ih =>
      have here := inside i List.mem_cons_self
      obtain ⟨x, costs, writes⟩ := exists_putPart D room slots groups sound (List.getElem_mem here)
      obtain ⟨y, costs', writes'⟩ := ih fun i among => inside i (List.mem_cons_of_mem _ among)
      refine ⟨fun w => x w >>= y, ?_, fun w => ?_⟩
      · rw [total, List.getElem?_eq_getElem here]
        exact costs.bind costs'
      · rw [List.foldlM_cons, putAt, index_eq here]
        show t.putPart D room slots groups w t.parts[i] >>= _ = _
        rw [writes]
        show lift (x w) >>= _ = lift (x w >>= y)
        cases x w with
        | error e => rfl
        | ok w' => exact writes' w'
  obtain ⟨x, costs, writes⟩ := turns (List.range t.parts.length) fun i among => List.mem_range.mp among
  refine ⟨x, ?_, ?_⟩
  · have found : (List.range t.parts.length).map (fun i => t.parts[i]?) = t.parts.map some :=
      List.ext_getElem (by simp) fun i _ inside => by simp_all
    have same := total_map (fun i => t.parts[i]?)
      (fun part => part.elim none (t.partLength D slots groups)) (List.range t.parts.length)
    rw [found, total_map] at same
    rw [← same] at costs
    exact costs
  · rw [sound.len]
    exact writes

theorem exists_poke (pre : Block Fixbolt.Template.prefixSize) (at_ : ℕ) (src : Bytes) :
    ∃ pre', ∀ (γ : Type) (f : Block Fixbolt.Template.prefixSize → Send γ)
      (Q : Except EncodeError γ → Unit → Prop),
      wp (poke pre at_ src >>= f) Q () ↔ at_ + src.length ≤ 43 ∧ wp (f pre') Q () := by
  have size : Fixbolt.Template.prefixSize = 43 := rfl
  unfold poke
  by_cases fits : at_ + src.length ≤ 43
  · obtain ⟨pre', copied⟩ := exists_copy pre at_ src (by omega)
    refine ⟨pre', fun γ f Q => ?_⟩
    rw [copied]
    exact ⟨fun h => ⟨fits, h⟩, And.right⟩
  · refine ⟨pre, fun γ f Q => ?_⟩
    rw [copy_none (by omega)]
    exact ⟨False.elim, fun h => fits h.1⟩

/-- **The prefix traps exactly when it is longer than its array.** -/
theorem wp_framePrefix (sound : t.Sound P) (n : ℕ) : ∃ pre, ∀ Q, wp (t.framePrefix n) Q () ↔
    if 41 < t.beginLen then Q (.error .outputTooSmall) ()
    else t.beginLen + (renderU32 n).length ≤ 37 ∧
      Q (.ok (pre, 2 + t.beginLen + 3 + (renderU32 n).length + 1)) () := by
  have size : Fixbolt.Template.prefixSize = 43 := rfl
  have sliced : t.scratch.slice t.beginAt t.beginLen = .ok _ := if_pos sound.begin_
  have length : ((t.scratch.bytes.drop t.beginAt).take t.beginLen).length = t.beginLen := by
    rw [List.length_take, List.length_drop, t.scratch.size]
    have := sound.begin_
    omega
  generalize (t.scratch.bytes.drop t.beginAt).take t.beginLen = begin_ at sliced length
  obtain ⟨pre₀, first⟩ := exists_poke (.zeros _) 0 (ascii "8=")
  obtain ⟨pre₁, begun⟩ := exists_poke pre₀ 2 begin_
  obtain ⟨pre₂, second⟩ := exists_poke pre₁ (2 + t.beginLen) (SOH :: ascii "9=")
  obtain ⟨pre₃, third⟩ := exists_poke pre₂ (2 + t.beginLen + 3) (renderU32 n)
  obtain ⟨pre₄, last⟩ := exists_poke pre₃ (2 + t.beginLen + 3 + (renderU32 n).length) [SOH]
  refine ⟨pre₄, fun Q => ?_⟩
  unfold framePrefix
  rw [first]
  by_cases long : 41 < t.beginLen
  · rw [if_pos (by omega), if_pos long, wp_fail]
    exact and_iff_right (by decide)
  · rw [if_neg (by omega), if_neg long, wp_checked_bind sliced, begun, second, third, last, wp_pure,
      length]
    have three : (SOH :: ascii "9=").length = 3 := rfl
    have one : ([SOH] : Bytes).length = 1 := rfl
    have two : (ascii "8=").length = 2 := rfl
    constructor
    · rintro ⟨_, _, _, _, room, ends⟩
      exact ⟨by omega, ends⟩
    · rintro ⟨room, ends⟩
      exact ⟨by omega, by omega, by omega, by omega, by omega, ends⟩

/-- **Writing a message traps exactly when its prefix does.** -/
theorem wp_encodeWith (sound : t.Sound P) :
    wp (t.encodeWith D room slots groups) (fun _ _ => True) () ↔
      t.PrefixFits D slots groups room := by
  obtain ⟨x, costs, writes⟩ := exists_putAll D room slots groups sound
  have body := costs (List.replicate t.reserve 0)
  rw [List.length_replicate] at body
  unfold encodeWith PrefixFits
  dsimp only
  rw [writes]
  cases asked : t.bodyLength D slots groups with
  | none =>
    rw [asked] at body
    obtain ⟨e, failed⟩ := body
    rw [failed]
    exact ⟨fun _ => by rintro _ ⟨⟩, fun _ => trivial⟩
  | some n =>
    rw [asked, Adds] at body
    by_cases fits : n = 0 ∨ t.reserve + n ≤ room
    · rw [if_pos fits] at body
      obtain ⟨w, wrote, length⟩ := body
      have counted : sub w.length t.reserve = .ok n := by
        rw [sub, if_pos (by omega), length, Nat.add_sub_cancel_left]
      rw [wrote]
      show wp (checked (sub w.length t.reserve) >>= _) _ () ↔ _
      rw [wp_checked_bind counted]
      by_cases long : 100000 ≤ n
      · rw [if_pos long]
        exact ⟨fun _ n' same _ short => by cases same; omega, fun _ => trivial⟩
      · rw [if_neg long]
        obtain ⟨pre, framed⟩ := wp_framePrefix sound n
        rw [wp_bind, framed]
        by_cases refused : 41 < t.beginLen
        · rw [if_pos refused]
          exact ⟨fun _ n' _ _ _ short => by omega, fun _ => trivial⟩
        · rw [if_neg refused]
          constructor
          · rintro ⟨room, _⟩ n' same _ _ _
            cases same
            exact room
          · intro h
            have short := h n rfl fits (by omega) (by omega)
            have digits : (renderU32 n).length ≤ 5 :=
              renderU32_length_lt (k := 4) (Nat.lt_of_not_le long)
            have before : sub t.reserve (2 + t.beginLen + 3 + (renderU32 n).length + 1) = .ok _ :=
              if_pos (by unfold reserve; omega)
            refine ⟨short, ?_⟩
            dsimp only
            rw [wp_checked_bind before]
            by_cases small : room < t.reserve
            · rw [if_pos small]
              trivial
            · have front : pre.slice 0 (2 + t.beginLen + 3 + (renderU32 n).length + 1) = .ok _ :=
                if_pos (by unfold Fixbolt.Template.prefixSize; omega)
              rw [if_neg small, wp_checked_bind front, if_neg (by omega)]
              split <;> trivial
    · rw [if_neg fits] at body
      obtain ⟨e, failed⟩ := body
      rw [failed]
      exact ⟨fun _ n' same fits' => by cases same; exact absurd fits' fits, fun _ => trivial⟩

end Template

/-! ### Runs -/

namespace Desk

variable {d : Desk S}

/-- What every call keeps. -/
structure Sound (P : ℕ) (d : Desk S) : Prop where
  builder : d.builder.Sound P
  made : ∀ t ∈ d.made, t.Sound P

/-- The call has the room it takes for granted. -/
def Meets (d : Desk S) : Op → Prop
  | .field tag value =>
    reserved tag = false → Stays S d.builder.used (TemplateBuilder.fieldWrites tag value)
  | .slot _ | .group _ => True
  | .build D => d.builder.err = none → d.builder.LengthsStay D
  | .encode i D room slots groups => ∀ t, d.made[i]? = some t → t.PrefixFits D slots groups room

theorem exists_change {x : Build S Unit} (sound : d.Sound P)
    (ends : wp x (fun _ b => b.Sound P) d.builder) : ∃ d', d.change x = .ok d' ∧ d'.Sound P := by
  obtain ⟨r, b, ran, kept⟩ := wp_iff.mp ends
  refine ⟨{ d with builder := b }, ?_, kept, sound.made⟩
  rw [change, ran]
  rfl

theorem wp_of_change {x : Build S Unit} {d' : Desk S} (h : d.change x = .ok d') :
    wp x (fun _ _ => True) d.builder := by
  unfold change at h
  cases ran : x.run d.builder with
  | ok p => exact wp_iff.mpr ⟨p.1, p.2, ran, trivial⟩
  | error t =>
    rw [ran] at h
    cases h

/-- **A call whose room is there does not trap.** -/
theorem exists_step (sound : d.Sound P) {op : Op} (meets : d.Meets op) :
    ∃ d', d.step P op = .ok d' ∧ d'.Sound P := by
  cases op with
  | field tag value =>
    exact exists_change sound
      ((TemplateBuilder.wp_field sound.builder (fun _ kept => kept) tag value).mpr meets)
  | slot tag =>
    exact exists_change sound
      (TemplateBuilder.wp_pushHole sound.builder (fun _ kept => kept) (by rintro ⟨⟩) tag)
  | group counter =>
    exact exists_change sound
      (TemplateBuilder.wp_pushHole sound.builder (fun _ kept => kept) (by rintro ⟨⟩) counter)
  | build D =>
    have built := (TemplateBuilder.wp_build (D := D)
      (Q := fun r b => b.Sound P ∧ ∀ t, r = .ok t → t.Sound P) sound.builder
      fun r b kept _ made => ⟨kept, fun t same => (made t same).1⟩).mpr meets
    obtain ⟨r, b, ran, kept, made⟩ := wp_iff.mp built
    rw [step, ran]
    cases r with
    | error e => exact ⟨_, rfl, kept, sound.made⟩
    | ok t =>
      refine ⟨_, rfl, kept, fun t' among => ?_⟩
      rcases List.mem_append.mp among with among | among
      · exact sound.made t' among
      · rw [List.mem_singleton.mp among]
        exact made t rfl
  | encode i D room slots groups =>
    unfold step
    dsimp only
    cases found : d.made[i]? with
    | none => exact ⟨d, rfl, sound⟩
    | some t =>
      have whole := sound.made t (List.mem_of_getElem? found)
      obtain ⟨r, _, ran, _⟩ := wp_iff.mp ((Template.wp_encodeWith whole).mpr (meets t found))
      dsimp only
      rw [ran]
      exact ⟨d, rfl, sound⟩

/-- **A call that does not trap has its room.** -/
theorem meets_of_step (sound : d.Sound P) {op : Op} {d' : Desk S} (h : d.step P op = .ok d') :
    d.Meets op := by
  cases op with
  | field tag value =>
    exact (TemplateBuilder.wp_field sound.builder (fun _ _ => trivial) tag value).mp (wp_of_change h)
  | slot tag => trivial
  | group counter => trivial
  | build D =>
    rw [step] at h
    cases ran : (TemplateBuilder.build D P).run d.builder with
    | error t =>
      rw [ran] at h
      cases h
    | ok p =>
      exact (TemplateBuilder.wp_build (Q := fun _ _ => True) sound.builder fun _ _ _ _ _ => trivial).mp
        (wp_iff.mpr ⟨p.1, p.2, ran, trivial⟩)
  | encode i D room slots groups =>
    intro t found
    unfold step at h
    dsimp only at h
    rw [found] at h
    cases ran : (t.encodeWith D room slots groups).run () with
    | error trap =>
      dsimp only at h
      rw [ran] at h
      cases h
    | ok p =>
      exact (Template.wp_encodeWith (sound.made t (List.mem_of_getElem? found))).mp
        (wp_iff.mpr ⟨p.1, p.2, ran, trivial⟩)

/-- Every call of a run has its room, in the state it is made in. -/
def MeetsAll (P : ℕ) : Desk S → List Op → Prop
  | _, [] => True
  | d, op :: ops => d.Meets op ∧ ∀ d', d.step P op = .ok d' → MeetsAll P d' ops

theorem run_iff (sound : d.Sound P) (ops : List Op) :
    (∃ d', d.run P ops = .ok d') ↔ MeetsAll P d ops := by
  induction ops generalizing d with
  | nil => exact ⟨fun _ => trivial, fun _ => ⟨d, rfl⟩⟩
  | cons op ops ih =>
    constructor
    · rintro ⟨last, ran⟩
      cases stepped : d.step P op with
      | error t =>
        rw [run, stepped] at ran
        cases ran
      | ok d' =>
        rw [run, stepped] at ran
        have meets := meets_of_step sound stepped
        obtain ⟨d'', again, kept⟩ := exists_step sound meets
        rw [stepped] at again
        cases again
        refine ⟨meets, fun d'' same => ?_⟩
        rw [stepped] at same
        cases same
        exact (ih kept).mp ⟨last, ran⟩
    · rintro ⟨meets, later⟩
      obtain ⟨d', stepped, kept⟩ := exists_step sound meets
      obtain ⟨last, ran⟩ := (ih kept).mpr (later d' stepped)
      refine ⟨last, ?_⟩
      rw [run, stepped]
      exact ran

end Desk

/-- **A run of builders and templates does not panic if and only if each of its calls has its room.**
To start one never panics. -/
theorem session_iff (P S : ℕ) (beginString : Bytes) (ops : List Op) :
    ∃ b, TemplateBuilder.new S beginString = .ok b ∧
      ((∃ d, session P S beginString ops = .ok d) ↔ Desk.MeetsAll P ⟨b, []⟩ ops) := by
  obtain ⟨b, new, sound, _⟩ := TemplateBuilder.new_sound P S beginString
  refine ⟨b, new, ?_⟩
  have runs := Desk.run_iff (d := ⟨b, []⟩) ⟨sound, by rintro _ ⟨⟩⟩ ops
  unfold session
  rw [new]
  exact runs

/-- A `BeginString` of 37 bytes leaves no room for the separator behind `9=0`. -/
theorem begins_too_long :
    session 1 64 (List.replicate 37 (65 : UInt8)) [.build noDict, .encode 0 noDict 64 [] []] =
      .error .outOfBounds := by
  rfl

end Fixbolt.Offsets
