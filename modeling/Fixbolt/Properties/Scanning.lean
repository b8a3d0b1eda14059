import Fixbolt.Codec.Framed
import Fixbolt.Dict.Tables
import Fixbolt.Engine.Presession

/-!
# What the stage before a session reads

The scan cuts a message at every separator, also inside a DATA value, and looks for the digits of a
tag. The session parses. Both answer for the first field of a tag.

* `fieldValue_pieces`: the scan goes over the pieces between separators;
* `Clear`: the first piece that reads as the tag is the first field that has it;
* `scan_agrees`: over a message the parser takes, the scan and the parser find the same values
  exactly when every tag asked for is clear, or the piece taken for the field holds the same bytes;
* `scan_reads_data`: a DATA value that holds a separator can name another sender.
-/

namespace Fixbolt

/-! ### Pieces -/

/-- What stands between separators, with a separator behind each. -/
def ended (pieces : List Bytes) : Bytes := pieces.flatMap (· ++ [SOH])

theorem splitOn_ended (w : Bytes) :
    ended (w.splitOn SOH) = w ++ [SOH] ∧ ∀ piece ∈ w.splitOn SOH, SOH ∉ piece := by
  induction n : w.length using Nat.strong_induction_on generalizing w with
  | _ n ih =>
    subst n
    by_cases mem : SOH ∈ w
    · obtain ⟨piece, w', rfl, noSoh⟩ := List.eq_append_cons_of_mem mem
      obtain ⟨rest, clean⟩ := ih w'.length (by simp; omega) w' rfl
      have split : (piece ++ SOH :: w').splitOn SOH = piece :: w'.splitOn SOH := by
        rw [List.splitOn_append_cons_self, List.splitOn_eq_singleton noSoh, List.singleton_append]
      rw [split]
      constructor
      · rw [ended, List.flatMap_cons]
        change piece ++ [SOH] ++ ended (w'.splitOn SOH) = _
        rw [rest]
        simp
      · intro x hx
        rcases List.mem_cons.mp hx with rfl | hx
        · exact noSoh
        · exact clean x hx
    · rw [List.splitOn_eq_singleton mem]
      refine ⟨by simp [ended], fun x hx => ?_⟩
      rw [List.mem_singleton.mp hx]
      exact mem

/-- The pieces of a field. -/
def WireField.pieces (f : WireField) : List Bytes := (f.text ++ EQ :: f.value).splitOn SOH

/-- The pieces of a field behind the first. -/
def WireField.inner (f : WireField) : List Bytes := (f.value.splitOn SOH).tail

theorem ended_pieces (fields : List WireField) :
    ended (fields.flatMap WireField.pieces) = spell fields := by
  induction fields with
  | nil => rfl
  | cons f fields ih =>
    rw [List.flatMap_cons, ended, List.flatMap_append]
    change ended f.pieces ++ ended (fields.flatMap WireField.pieces) = _
    rw [ih, WireField.pieces, (splitOn_ended _).1, spell_cons]
    simp [WireField.bytes]

theorem noSoh_pieces {fields : List WireField} {piece : Bytes}
    (mem : piece ∈ fields.flatMap WireField.pieces) : SOH ∉ piece := by
  obtain ⟨f, -, mem⟩ := List.mem_flatMap.mp mem
  exact (splitOn_ended _).2 piece mem

/-- A field is one piece up to the first separator of its value, and then those behind it. -/
theorem pieces_eq (f : WireField) :
    ∃ front, f.pieces = (f.text ++ EQ :: front) :: f.inner ∧ (SOH ∉ f.value → front = f.value) := by
  unfold WireField.pieces WireField.inner
  by_cases mem : SOH ∈ f.value
  · obtain ⟨front, rest, eq, noSoh⟩ := List.eq_append_cons_of_mem mem
    refine ⟨front, ?_, fun h => absurd mem h⟩
    have whole : f.text ++ EQ :: f.value = (f.text ++ EQ :: front) ++ SOH :: rest := by
      rw [eq]
      simp
    rw [whole, List.splitOn_append_cons_self, List.splitOn_eq_singleton (noSoh_piece f noSoh), eq,
      List.splitOn_append_cons_self, List.splitOn_eq_singleton noSoh]
    rfl
  · refine ⟨f.value, ?_, fun _ => rfl⟩
    rw [List.splitOn_eq_singleton (noSoh_piece f mem), List.splitOn_eq_singleton mem]
    rfl

/-! ### The scan -/

/-- What stands behind the last separator is no field. -/
theorem fieldValueLoop_pieces {msg tag rest : Bytes} {pieces : List Bytes} {fuel at_ : ℕ}
    (here : msg.drop at_ = ended pieces ++ rest) (clean : ∀ piece ∈ pieces, SOH ∉ piece)
    (open_ : SOH ∉ rest) (enough : pieces.length < fuel) :
    fieldValueLoop msg tag fuel at_ = pieces.findSome? tag.isPrefixOf? := by
  induction pieces generalizing fuel at_ with
  | nil =>
    obtain ⟨fuel, rfl⟩ : ∃ k, fuel = k + 1 := ⟨fuel - 1, by simp at enough; omega⟩
    have none : findSoh msg at_ = none := by
      rw [findSoh, here, ended, List.flatMap_nil, List.nil_append, Option.map_eq_none_iff,
        List.findIdx?_eq_none_iff]
      intro b mem
      exact beq_eq_false_iff_ne.mpr fun eq => open_ (eq ▸ mem)
    rw [fieldValueLoop, none]
    split <;> rfl
  | cons piece pieces ih =>
    obtain ⟨fuel, rfl⟩ : ∃ k, fuel = k + 1 := ⟨fuel - 1, by simp at enough; omega⟩
    rw [ended, List.flatMap_cons, List.append_assoc, List.append_assoc, List.singleton_append] at here
    have inside : ¬ msg.length ≤ at_ := by
      intro le
      rw [List.drop_eq_nil_iff.mpr le] at here
      simp at here
    have found : findSoh msg at_ = some (at_ + piece.length) :=
      findSoh_eq_some_iff.mpr ⟨piece, _, here, clean piece List.mem_cons_self, rfl⟩
    have next : msg.drop (at_ + piece.length + 1) = ended pieces ++ rest := by
      rw [Nat.add_assoc, ← List.drop_drop, here]
      simp [ended]
    rw [fieldValueLoop, if_neg inside, found]
    dsimp only
    rw [here, Nat.add_sub_cancel_left, List.take_left, List.findSome?_cons]
    cases tag.isPrefixOf? piece with
    | some value => rfl
    | none =>
      exact ih next (fun x hx => clean x (List.mem_cons_of_mem _ hx))
        (by rw [List.length_cons] at enough; omega)

theorem length_le_ended (pieces : List Bytes) : pieces.length ≤ (ended pieces).length := by
  induction pieces with
  | nil => exact le_rfl
  | cons piece pieces ih =>
    rw [ended, List.flatMap_cons, List.length_append]
    change _ ≤ _ + (ended pieces).length
    simp only [List.length_cons, List.length_append, List.length_nil]
    omega

/-- **The scan goes over the pieces between separators.** -/
theorem fieldValue_pieces (fields : List WireField) (tag : Bytes) :
    fieldValue (spell fields) tag =
      (fields.flatMap WireField.pieces).findSome? tag.isPrefixOf? := by
  rw [← ended_pieces fields]
  refine fieldValueLoop_pieces (List.append_nil _).symm (fun piece mem => noSoh_pieces mem)
    List.not_mem_nil ?_
  have := length_le_ended (fields.flatMap WireField.pieces)
  omega

/-! ### One tag -/

variable {tag : ℕ} {text : Bytes} {fields : List WireField}

/-- The digits end at the first `=`. -/
theorem text_inj {x y v w : Bytes} (eq : x ++ EQ :: v = y ++ EQ :: w) (hx : EQ ∉ x) (hy : EQ ∉ y) :
    x = y ∧ v = w := by
  induction x generalizing y with
  | nil =>
    cases y with
    | nil => exact ⟨rfl, (List.cons.inj eq).2⟩
    | cons c y => exact absurd ((List.cons.inj eq).1 ▸ List.mem_cons_self) hy
  | cons b x ih =>
    cases y with
    | nil => exact absurd ((List.cons.inj eq).1 ▸ List.mem_cons_self) hx
    | cons c y =>
      obtain rfl := (List.cons.inj eq).1
      obtain ⟨rfl, same⟩ := ih (List.cons.inj eq).2 (fun h => hx (List.mem_cons_of_mem _ h))
        fun h => hy (List.mem_cons_of_mem _ h)
      exact ⟨rfl, same⟩

theorem noEq {text : Bytes} (reads : asU32? text = some tag) : EQ ∉ text :=
  fun mem => text_digits reads EQ mem digitOf_EQ

/-- The front of a field reads as the tag when the digits are spelled so. -/
theorem front_reads (reads : asU32? text = some tag) (f : WireField) (front : Bytes) :
    (text ++ [EQ]).isPrefixOf? (f.text ++ EQ :: front) =
      if f.text = text then some front else none := by
  split
  · rename_i same
    subst same
    exact List.isPrefixOf?_eq_some_iff_append_eq.mpr (by simp)
  · rename_i other
    refine Option.eq_none_iff_forall_ne_some.mpr fun v found => other ?_
    have eq := List.isPrefixOf?_eq_some_iff_append_eq.mp found
    rw [List.append_assoc, List.singleton_append] at eq
    exact (text_inj eq (noEq reads) (noEq f.reads)).1.symm

/-- The first piece that reads as the tag is the first field that has it, spelled plainly; before
it, and all over the message when no field has the tag, no value holds text that reads so. -/
def Clear (tag : ℕ) (text : Bytes) : List WireField → Prop
  | [] => True
  | f :: fields =>
    if f.tag = tag then f.text = text ∧ SOH ∉ f.value
    else (∀ piece ∈ f.inner, ¬ (text ++ [EQ]) <+: piece) ∧ Clear tag text fields

instance : Decidable (Clear tag text fields) := by
  induction fields with
  | nil => exact isTrue trivial
  | cons f fields ih =>
    unfold Clear
    infer_instance

/-- The first piece that reads as the tag holds what the first field that has it holds. -/
def Twin (tag : ℕ) (text : Bytes) (fields : List WireField) : Prop :=
  ∃ g before after, fields.find? (·.tag == tag) = some g ∧
    fields.flatMap WireField.pieces = before ++ (text ++ EQ :: g.value) :: after ∧
    ∀ piece ∈ before, ¬ (text ++ [EQ]) <+: piece

theorem isPrefixOf?_eq_none_iff {xs ys : Bytes} : xs.isPrefixOf? ys = none ↔ ¬ xs <+: ys := by
  rw [Option.eq_none_iff_forall_ne_some]
  constructor
  · rintro none ⟨v, eq⟩
    exact none v (List.isPrefixOf?_eq_some_iff_append_eq.mpr eq)
  · intro no v found
    exact no ⟨v, List.isPrefixOf?_eq_some_iff_append_eq.mp found⟩

theorem clear_agrees (reads : asU32? text = some tag) (clear : Clear tag text fields) :
    (fields.flatMap WireField.pieces).findSome? (text ++ [EQ]).isPrefixOf? =
      (fields.find? (·.tag == tag)).map (·.value) := by
  induction fields with
  | nil => rfl
  | cons f fields ih =>
    obtain ⟨front, pieces, whole⟩ := pieces_eq f
    rw [List.flatMap_cons, List.findSome?_append, pieces, List.findSome?_cons,
      front_reads reads f front]
    unfold Clear at clear
    split at clear
    · rename_i same
      obtain ⟨spelled, noSoh⟩ := clear
      rw [List.find?_cons_of_pos (by simpa using same), if_pos spelled, whole noSoh]
      rfl
    · rename_i other
      obtain ⟨quiet, clear⟩ := clear
      have unlike : f.text ≠ text := by
        intro same
        have := f.reads
        rw [same, reads] at this
        exact other (Option.some.inj this).symm
      have silent : f.inner.findSome? (text ++ [EQ]).isPrefixOf? = none := by
        exact List.findSome?_eq_none_iff.mpr fun piece mem =>
          isPrefixOf?_eq_none_iff.mpr (quiet piece mem)
      rw [if_neg unlike, silent, List.find?_cons_of_neg (by simpa using other)]
      exact ih clear

/-- Where nothing reads as the tag and no field has it, the tag is clear. -/
theorem clear_of_none (silent : (fields.flatMap WireField.pieces).findSome?
      (text ++ [EQ]).isPrefixOf? = none) (absent : fields.find? (·.tag == tag) = none) :
    Clear tag text fields := by
  induction fields with
  | nil => trivial
  | cons f fields ih =>
    obtain ⟨front, pieces, -⟩ := pieces_eq f
    have other : ¬ f.tag = tag := by
      simpa using List.find?_eq_none.mp absent f List.mem_cons_self
    rw [List.find?_cons_of_neg (by simpa using other)] at absent
    rw [List.flatMap_cons, List.findSome?_append, Option.or_eq_none_iff, pieces,
      List.findSome?_cons] at silent
    obtain ⟨here, silent⟩ := silent
    unfold Clear
    rw [if_neg other]
    refine ⟨fun piece mem => ?_, ih silent absent⟩
    split at here
    · cases here
    · exact isPrefixOf?_eq_none_iff.mp (List.findSome?_eq_none_iff.mp here piece mem)

/-- **The scan and the parser find the same value** exactly when the tag is clear, or the piece taken
for the field holds the same bytes. -/
theorem scan_iff (reads : asU32? text = some tag) :
    fieldValue (spell fields) (text ++ [EQ]) = (fields.find? (·.tag == tag)).map (·.value) ↔
      Clear tag text fields ∨ Twin tag text fields := by
  rw [fieldValue_pieces]
  constructor
  · intro same
    cases found : fields.find? (·.tag == tag) with
    | none =>
      rw [found] at same
      exact .inl (clear_of_none same found)
    | some g =>
      rw [found] at same
      obtain ⟨before, piece, after, split, eq, silent⟩ := List.findSome?_eq_some_iff.mp same
      have whole := List.isPrefixOf?_eq_some_iff_append_eq.mp eq
      rw [List.append_assoc, List.singleton_append] at whole
      refine .inr ⟨g, before, after, found, by rw [split, ← whole], fun x mem => ?_⟩
      exact isPrefixOf?_eq_none_iff.mp (silent x mem)
  · rintro (clear | ⟨g, before, after, found, split, silent⟩)
    · exact clear_agrees reads clear
    · rw [found]
      refine List.findSome?_eq_some_iff.mpr ⟨before, _, after, split, ?_, fun x mem => ?_⟩
      · exact List.isPrefixOf?_eq_some_iff_append_eq.mpr (by simp)
      · exact isPrefixOf?_eq_none_iff.mpr (silent x mem)

/-! ### A whole message -/

theorem find?_entriesAt {buf rest : Bytes} {pos : ℕ} {ws : List WireField}
    (h : buf.drop pos = spell ws ++ rest) :
    ((entriesAt pos ws).find? fun e => e.tag == tag).bind (fun e => slice buf e.offset e.len) =
      (ws.find? (·.tag == tag)).map (·.value) := by
  induction ws generalizing pos with
  | nil => rfl
  | cons f ws ih =>
    rw [spell_cons, List.append_assoc] at h
    rw [entriesAt]
    by_cases same : f.tag = tag
    · have value := (reads_at h).2
      have sep : buf[pos + f.text.length + 1 + f.value.length]? = some SOH :=
        getElem?_eq_some_iff_drop.mpr ⟨_, _, value, rfl⟩
      have inside := (List.getElem?_eq_some_iff.mp sep).1
      rw [List.find?_cons_of_pos (by simpa [WireField.entry] using same),
        List.find?_cons_of_pos (by simpa using same)]
      exact (slice_of_drop value).resolve_right (by omega)
    · rw [List.find?_cons_of_neg (by simpa [WireField.entry] using same),
        List.find?_cons_of_neg (by simpa using same)]
      exact ih (drop_of_drop h)

/-- The parser's answer for a tag. -/
theorem get_fields (fields : List WireField) (tag : ℕ) :
    (⟨spell fields, entriesAt 0 fields⟩ : MessageView).get tag =
      (fields.find? (·.tag == tag)).map (·.value) :=
  @find?_entriesAt tag _ [] 0 fields (List.append_nil _).symm

/-- What the stage asks for: the type, the two names, the two sub-names and the credentials. -/
def asked : List ℕ := [35, 49, 56, 50, 57, 553, 554]

/-- The digits of a tag and its `=`, as the scan is given them. -/
def tagNeedle (tag : ℕ) : Bytes := renderU32 tag ++ [EQ]

/-- Both sides of a message, as the parser finds them. -/
def parsedIdentity (m : MessageView) : Option Identity := do
  return {
    sender := ← m.get 49
    target := ← m.get 56
    senderSub := m.get 50
    targetSub := m.get 57 }

/-- The scan and the parser find the same. -/
def ReadsAlike (buf : Bytes) (idx : List FieldEntry) : Prop :=
  (∀ tag ∈ asked, fieldValue buf (tagNeedle tag) = (⟨buf, idx⟩ : MessageView).get tag) ∧
    identityOf buf = parsedIdentity ⟨buf, idx⟩ ∧
    isLogon buf = ((⟨buf, idx⟩ : MessageView).get 35 == some (ascii "A"))

theorem readsAlike_iff {buf : Bytes} {idx : List FieldEntry} : ReadsAlike buf idx ↔
    ∀ tag ∈ asked, fieldValue buf (tagNeedle tag) = (⟨buf, idx⟩ : MessageView).get tag := by
  refine ⟨fun alike => alike.1, fun same => ⟨same, ?_, ?_⟩⟩
  · have sender := same 49 (by decide)
    have target := same 56 (by decide)
    have senderSub := same 50 (by decide)
    have targetSub := same 57 (by decide)
    rw [show tagNeedle 49 = ascii "49=" by decide] at sender
    rw [show tagNeedle 56 = ascii "56=" by decide] at target
    rw [show tagNeedle 50 = ascii "50=" by decide] at senderSub
    rw [show tagNeedle 57 = ascii "57=" by decide] at targetSub
    rw [identityOf, parsedIdentity, sender, target, senderSub, targetSub]
  · have type := same 35 (by decide)
    rw [show tagNeedle 35 = ascii "35=" by decide] at type
    rw [isLogon, type]

variable {D : Dictionary} {N : ℕ} {v : Validation} {buf : Bytes} {idx : List FieldEntry}

/-- **What the stage before a session reads is what the session will read**, over a message the
parser takes whole, exactly when every tag it asks for is clear, or has a twin with the same value. -/
theorem scan_agrees (cap : N ≤ u16Max) (small : buf.length ≤ u32Size)
    (h : parseInto D N buf v = ⟨idx, .ok (.complete buf.length)⟩) :
    ∃ fields, buf = spell fields ∧ idx = entriesAt 0 fields ∧
      (ReadsAlike buf idx ↔
        ∀ tag ∈ asked, Clear tag (renderU32 tag) fields ∨ Twin tag (renderU32 tag) fields) := by
  obtain ⟨m, rest, whole, rfl, total⟩ := parseInto_sound cap small h
  have only : buf = spell m.fields := by
    rw [whole, List.length_append] at total
    have : rest = [] := List.length_eq_zero_iff.mp (by omega)
    rw [whole, this, List.append_nil]
    rfl
  subst only
  refine ⟨m.fields, rfl, rfl, readsAlike_iff.trans ?_⟩
  refine forall₂_congr fun tag mem => ?_
  have low : tag < u32Size := by
    have : ∀ tag ∈ asked, tag < u32Size := by decide
    exact this tag mem
  rw [get_fields]
  exact scan_iff (asU32?_renderU32 low)

/-- A Logon of `TW44` to `ISLD`. -/
def plainLogon : Bytes :=
  ascii "8=FIX.4.4" ++ [SOH] ++ ascii "9=21" ++ [SOH] ++ ascii "35=A" ++ [SOH] ++
    ascii "49=TW44" ++ [SOH] ++ ascii "56=ISLD" ++ [SOH] ++ ascii "10=117" ++ [SOH]

/-- What the parser finds in a message. -/
def parsedIndex (buf : Bytes) : List FieldEntry := (parseInto fix44.toDictionary 64 buf .all).index

theorem scan_agrees_logon :
    ∃ fields, plainLogon = spell fields ∧ parsedIndex plainLogon = entriesAt 0 fields ∧
      (ReadsAlike plainLogon (parsedIndex plainLogon) ↔
        ∀ tag ∈ asked, Clear tag (renderU32 tag) fields ∨ Twin tag (renderU32 tag) fields) := by
  have parsed : parseInto fix44.toDictionary 64 plainLogon .all =
      ⟨parsedIndex plainLogon, .ok (.complete plainLogon.length)⟩ := by
    decide +kernel
  exact scan_agrees (by decide) (by decide +kernel) parsed

/-- The same Logon with raw data in front of its names: nine bytes that hold a separator and
`49=EVIL`. -/
def rawLogon : Bytes :=
  ascii "8=FIX.4.4" ++ [SOH] ++ ascii "9=39" ++ [SOH] ++ ascii "35=A" ++ [SOH] ++ ascii "95=9" ++
    [SOH] ++ ascii "96=x" ++ [SOH] ++ ascii "49=EVIL" ++ [SOH] ++ ascii "49=TW44" ++ [SOH] ++
    ascii "56=ISLD" ++ [SOH] ++ ascii "10=099" ++ [SOH]

/-- The scan takes the sender from inside the raw data; the session judges `TW44`. -/
theorem scan_reads_data : ¬ ∀ buf idx,
    parseInto fix44.toDictionary 64 buf .all = ⟨idx, .ok (.complete buf.length)⟩ →
      ReadsAlike buf idx := by
  intro alike
  have parsed : parseInto fix44.toDictionary 64 rawLogon .all =
      ⟨parsedIndex rawLogon, .ok (.complete rawLogon.length)⟩ := by
    decide +kernel
  have same := (alike rawLogon _ parsed).1 49 (by decide)
  exact absurd same (by decide +kernel)

end Fixbolt
