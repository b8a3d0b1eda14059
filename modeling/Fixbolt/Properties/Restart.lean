import Fixbolt.Engine.SqliteJournal
import Fixbolt.Properties.Window
import Mathlib.Data.Finset.Max

/-!
# A database gives back what was kept

A journal answers from a ring whose slots are filled in the order of the calls; when its database is
opened again the slots are filled from the last messages of a table that is in the order of their
numbers. The two are the same as long as a number that is put is the highest of its slot and the
highest number of every slot is among the last (`Lasting`).

* `Database.Answers`: a ring journal answers as the database does when it is opened;
* `Recovered.answers_call`: a call keeps that, with the record it hands to the writer;
* `SqliteStore.Written`: what the writer has done with the records so far;
* `sqlite_restarts`: over any number of processes, closed or killed.
-/

namespace Fixbolt

/-! ### A table in the order of its key -/

/-- The messages are in the order of their numbers, each number once. -/
def Keyed (messages : List (ℕ × Bytes)) : Prop := messages.Pairwise (·.1 < ·.1)

/-- The numbers of a table. -/
def numbersOf (messages : List (ℕ × Bytes)) : Finset ℕ := (messages.map Prod.fst).toFinset

theorem mem_numbersOf {messages : List (ℕ × Bytes)} {k : ℕ} :
    k ∈ numbersOf messages ↔ ∃ b, (k, b) ∈ messages := by
  simp [numbersOf]

theorem mem_insertOrReplace {messages : List (ℕ × Bytes)} {seq : ℕ} {body : Bytes}
    {m : ℕ × Bytes} : m ∈ insertOrReplace messages seq body ↔
      m = (seq, body) ∨ m ∈ messages ∧ m.1 ≠ seq := by
  simp only [insertOrReplace, List.mem_append, List.mem_filter, List.mem_cons, decide_eq_true_eq]
  constructor
  · rintro (⟨old, lt⟩ | rfl | ⟨old, lt⟩)
    · exact Or.inr ⟨old, Nat.ne_of_lt lt⟩
    · exact Or.inl rfl
    · exact Or.inr ⟨old, Nat.ne_of_gt lt⟩
  · rintro (rfl | ⟨old, ne⟩)
    · exact Or.inr (Or.inl rfl)
    · obtain lt | gt := Nat.lt_or_gt_of_ne ne
      · exact Or.inl ⟨old, lt⟩
      · exact Or.inr (Or.inr ⟨old, gt⟩)

theorem numbersOf_insertOrReplace (messages : List (ℕ × Bytes)) (seq : ℕ) (body : Bytes) :
    numbersOf (insertOrReplace messages seq body) = insert seq (numbersOf messages) := by
  ext k
  rw [mem_numbersOf, Finset.mem_insert, mem_numbersOf]
  constructor
  · rintro ⟨b, mem⟩
    obtain eq | ⟨old, -⟩ := mem_insertOrReplace.mp mem
    · exact Or.inl (congrArg Prod.fst eq)
    · exact Or.inr ⟨b, old⟩
  · rintro (rfl | ⟨b, old⟩)
    · exact ⟨body, mem_insertOrReplace.mpr (Or.inl rfl)⟩
    · by_cases same : k = seq
      · exact ⟨body, mem_insertOrReplace.mpr (Or.inl (by rw [same]))⟩
      · exact ⟨b, mem_insertOrReplace.mpr (Or.inr ⟨old, same⟩)⟩

theorem Keyed.insertOrReplace {messages : List (ℕ × Bytes)} (keyed : Keyed messages) (seq : ℕ)
    (body : Bytes) : Keyed (insertOrReplace messages seq body) := by
  refine List.pairwise_append.mpr ⟨keyed.filter _, List.pairwise_cons.mpr ⟨?_, keyed.filter _⟩, ?_⟩
  · intro m mem
    exact of_decide_eq_true (List.mem_filter.mp mem).2
  · intro m low m' high
    have lt : m.1 < seq := of_decide_eq_true (List.mem_filter.mp low).2
    obtain rfl | high := List.mem_cons.mp high
    · exact lt
    · exact Nat.lt_trans lt (of_decide_eq_true (List.mem_filter.mp high).2)

theorem Keyed.nodup {messages : List (ℕ × Bytes)} (keyed : Keyed messages) :
    (messages.map Prod.fst).Nodup :=
  List.pairwise_map.mpr (keyed.imp Nat.ne_of_lt)

/-- A number has one message. -/
theorem Keyed.unique {messages : List (ℕ × Bytes)} (keyed : Keyed messages) {k : ℕ} {b c : Bytes}
    (hb : (k, b) ∈ messages) (hc : (k, c) ∈ messages) : b = c :=
  congrArg Prod.snd (List.inj_on_of_nodup_map keyed.nodup hb hc rfl)

/-- Is a number among the `n` highest? -/
def Recent (n : ℕ) (ks : Finset ℕ) (k : ℕ) : Prop := (ks.filter (k < ·)).card < n

instance (n : ℕ) (ks : Finset ℕ) (k : ℕ) : Decidable (Recent n ks k) := by
  unfold Recent
  infer_instance

/-- What is higher than a recent number is recent. -/
theorem Recent.mono {n : ℕ} {ks : Finset ℕ} {k k' : ℕ} (recent : Recent n ks k) (le : k ≤ k') :
    Recent n ks k' := by
  refine Nat.lt_of_le_of_lt (Finset.card_le_card fun i mem => ?_) recent
  obtain ⟨mem, lt⟩ := Finset.mem_filter.mp mem
  exact Finset.mem_filter.mpr ⟨mem, Nat.lt_of_le_of_lt le lt⟩

/-- The last messages of a table are those with its highest numbers. -/
theorem mem_lastMessages {messages : List (ℕ × Bytes)} (keyed : Keyed messages) {n : ℕ}
    {m : ℕ × Bytes} : m ∈ lastMessages messages n ↔
      m ∈ messages ∧ Recent n (numbersOf messages) m.1 := by
  unfold lastMessages
  induction messages using List.reverseRecOn generalizing n with
  | nil => simp
  | append_singleton front last ih =>
    obtain ⟨keyed, -, above⟩ := List.pairwise_append.mp keyed
    have above : ∀ m ∈ front, m.1 < last.1 := fun m mem => above m mem last (by simp)
    have numbers : numbersOf (front ++ [last]) = insert last.1 (numbersOf front) := by
      ext k
      simp [numbersOf]
    have new : last.1 ∉ numbersOf front := by
      intro mem
      obtain ⟨b, mem⟩ := mem_numbersOf.mp mem
      exact Nat.lt_irrefl _ (above (last.1, b) mem)
    cases n with
    | zero => simp [Recent]
    | succ n =>
      rw [List.rtake_concat_succ, List.mem_append, List.mem_append, List.mem_singleton,
        ih keyed, numbers]
      unfold Recent
      constructor
      · rintro (⟨mem, recent⟩ | rfl)
        · refine ⟨Or.inl mem, ?_⟩
          rw [Finset.filter_insert, if_pos (above m mem)]
          rw [Finset.card_insert_of_notMem fun mem => new (Finset.mem_filter.mp mem).1]
          exact Nat.succ_lt_succ recent
        · refine ⟨Or.inr rfl, ?_⟩
          rw [Finset.filter_insert, if_neg (Nat.lt_irrefl _), Finset.filter_eq_empty_iff.mpr]
          · exact Nat.succ_pos n
          · intro k mem
            obtain ⟨b, mem⟩ := mem_numbersOf.mp mem
            exact Nat.not_lt_of_lt (above _ mem)
      · rintro ⟨mem | rfl, recent⟩
        · refine Or.inl ⟨mem, ?_⟩
          rw [Finset.filter_insert, if_pos (above m mem)] at recent
          rw [Finset.card_insert_of_notMem fun mem => new (Finset.mem_filter.mp mem).1] at recent
          exact Nat.lt_of_succ_lt_succ recent
        · exact Or.inr rfl

/-! ### What a ring answers for a table -/

/-- Is a number the highest of its slot? -/
def Highest (n : ℕ) (ks : Finset ℕ) (k : ℕ) : Prop := ∀ k' ∈ ks, k' % n = k % n → k' ≤ k

instance (n : ℕ) (ks : Finset ℕ) (k : ℕ) : Decidable (Highest n ks k) := by
  unfold Highest
  infer_instance

/-- The highest number, if there is one. -/
structure Top (ks : Finset ℕ) (top : Option ℕ) : Prop where
  mem : ∀ h ∈ top, h ∈ ks
  le : ∀ k ∈ ks, ∃ h ∈ top, k ≤ h

theorem Top.raise {ks : Finset ℕ} {top : Option ℕ} (h : Top ks top) (seq : ℕ) :
    Top (insert seq ks) (raise top seq) := by
  obtain ⟨mem, le⟩ := h
  cases top with
  | none =>
    have empty : ks = ∅ := Finset.eq_empty_of_forall_notMem fun k hk => by
      obtain ⟨_, none, -⟩ := le k hk
      cases none
    subst empty
    refine ⟨?_, fun k hk => ⟨seq, rfl, ?_⟩⟩
    · rintro _ ⟨⟩
      exact Finset.mem_insert_self _ _
    · exact Nat.le_of_eq (Finset.mem_singleton.mp hk)
  | some old =>
    have old_mem := mem old rfl
    refine ⟨?_, fun k hk => ⟨max old seq, rfl, ?_⟩⟩
    · rintro _ ⟨⟩
      show max old seq ∈ insert seq ks
      obtain eq | eq := Nat.le_total old seq
      · rw [Nat.max_eq_right eq]
        exact Finset.mem_insert_self _ _
      · rw [Nat.max_eq_left eq]
        exact Finset.mem_insert_of_mem old_mem
    · obtain rfl | hk := Finset.mem_insert.mp hk
      · exact Nat.le_max_right _ _
      · obtain ⟨_, ⟨⟩, le⟩ := le k hk
        exact Nat.le_trans le (Nat.le_max_left _ _)

theorem Top.unique {ks : Finset ℕ} {a b : Option ℕ} (ha : Top ks a) (hb : Top ks b) : a = b := by
  cases a with
  | none =>
    cases b with
    | none => rfl
    | some y =>
      obtain ⟨_, none, -⟩ := ha.le y (hb.mem y rfl)
      cases none
  | some x =>
    obtain ⟨y, rfl, le⟩ := hb.le x (ha.mem x rfl)
    obtain ⟨_, ⟨⟩, ge⟩ := ha.le y (hb.mem y rfl)
    rw [Nat.le_antisymm le ge]

namespace MemJournal

variable {n len : ℕ}

/-- A table whose messages fit their slots. -/
def Holdable (n len : ℕ) (messages : List (ℕ × Bytes)) : Prop :=
  ∀ m ∈ messages, m.2 ≠ [] ∧ Fits n len m.2

theorem putAll_tops {ps : List (ℕ × Bytes)} (fits : Holdable n len ps) :
    Top (numbersOf ps) (putAll n len ps).highWater ∧
      (putAll n len ps).highestOut = (putAll n len ps).highWater ∧
      (putAll n len ps).highestIn = none := by
  induction ps using List.reverseRecOn with
  | nil =>
    refine ⟨⟨fun h none => ?_, fun k mem => ?_⟩, rfl, rfl⟩
    · cases none
    · cases mem
  | append_singleton ps p ih =>
    obtain ⟨top, out, inn⟩ := ih fun m mem => fits m (by simp [mem])
    have numbers : numbersOf (ps ++ [p]) = insert p.1 (numbersOf ps) := by
      ext k
      simp [numbersOf]
    rw [putAll_concat, put_fits (fits p (by simp)).2, numbers]
    refine ⟨top.raise p.1, ?_, inn⟩
    show raise _ _ = raise _ _
    rw [out]

/-- The last of a table is the one with the highest number. -/
theorem getLast?_keyed {messages : List (ℕ × Bytes)} (keyed : Keyed messages) {m : ℕ × Bytes} :
    messages.getLast? = some m ↔ m ∈ messages ∧ ∀ m' ∈ messages, m'.1 ≤ m.1 := by
  induction messages using List.reverseRecOn with
  | nil => simp
  | append_singleton front last ih =>
    obtain ⟨-, -, above⟩ := List.pairwise_append.mp keyed
    have above : ∀ m ∈ front, m.1 < last.1 := fun m mem => above m mem last (by simp)
    rw [List.getLast?_concat, Option.some.injEq]
    constructor
    · rintro rfl
      refine ⟨by simp, fun m' mem => ?_⟩
      obtain mem | mem := List.mem_append.mp mem
      · exact Nat.le_of_lt (above m' mem)
      · rw [List.mem_singleton.mp mem]
    · rintro ⟨mem, le⟩
      obtain mem | mem := List.mem_append.mp mem
      · exact absurd (le last (by simp)) (Nat.not_le_of_lt (above m mem))
      · exact (List.mem_singleton.mp mem).symm

/-- A ring that is filled from a table holds the highest number of each slot. -/
theorem get_putAll_keyed {ps : List (ℕ × Bytes)} (keyed : Keyed ps) (fits : Holdable n len ps)
    {k : ℕ} {b : Bytes} : (putAll n len ps).get k = some b ↔
      (k, b) ∈ ps ∧ Highest n (numbersOf ps) k := by
  rw [get_putAll (fun m mem => (fits m mem).1)]
  have last {p : ℕ × Bytes} (eq : p.1 = k) :
      lastIn n len k ps = some p ↔ p ∈ ps ∧ Highest n (numbersOf ps) k := by
    subst eq
    unfold lastIn
    rw [getLast?_keyed (keyed.filter _), List.mem_filter]
    constructor
    · rintro ⟨⟨mem, -⟩, le⟩
      refine ⟨mem, fun k' mem' slot => ?_⟩
      obtain ⟨b', mem'⟩ := mem_numbersOf.mp mem'
      exact le (k', b') (List.mem_filter.mpr ⟨mem', by simp [(fits _ mem').2, slot]⟩)
    · rintro ⟨mem, highest⟩
      refine ⟨⟨mem, by simp [(fits _ mem).2]⟩, fun m' mem' => ?_⟩
      obtain ⟨mem', slot⟩ := List.mem_filter.mp mem'
      refine highest m'.1 (mem_numbersOf.mpr ⟨m'.2, mem'⟩) ?_
      exact (of_decide_eq_true slot).2
  rw [Option.bind_eq_some_iff]
  constructor
  · rintro ⟨p, found, eq⟩
    split at eq
    · rename_i same
      obtain rfl := Option.some.inj eq
      obtain ⟨mem, highest⟩ := (last same).mp found
      exact ⟨by rw [← same]; exact mem, highest⟩
    · cases eq
  · rintro held
    exact ⟨(k, b), (last rfl).mpr held, if_pos rfl⟩

end MemJournal

/-! ### A journal and its database -/

/-- The answers of two journals are the same. -/
structure Recovered.Same {n len : ℕ} (a b : Recovered n len) : Prop where
  get : ∀ k, a.mem.get k = b.mem.get k
  oldest : a.mem.oldest = b.mem.oldest
  highestOut : a.mem.highestOut = b.mem.highestOut
  highestIn : a.mem.highestIn = b.mem.highestIn
  lastActive : a.lastActive = b.lastActive

namespace Database

variable {n len : ℕ} {db : Database}

/-- What a journal answers from that has just been opened. -/
def loaded (db : Database) (n len : ℕ) : Recovered n len := ⟨db.load n len, db.lastActiveMs⟩

/-- The numbers of the messages of a database. -/
def numbers (db : Database) : Finset ℕ := numbersOf db.messages

/-- A table as a journal leaves it: the highest number of each slot is among the last ones, and
every number is spent. -/
structure Wellformed (n len : ℕ) (db : Database) : Prop where
  keyed : Keyed db.messages
  fits : MemJournal.Holdable n len db.messages
  recent : ∀ k ∈ db.numbers, Highest n db.numbers k → Recent n db.numbers k
  spent : ∀ k ∈ db.numbers, ∃ h ∈ db.highestOut, k ≤ h
  instant : ∀ t ∈ db.lastActiveMs, t ≤ i64Max

/-- A journal answers as its database does when it is opened. -/
structure Answers (db : Database) (r : Recovered n len) : Prop where
  get : ∀ k b, r.mem.get k = some b ↔ (k, b) ∈ db.messages ∧ Highest n db.numbers k
  highWater : Top db.numbers r.mem.highWater
  highestOut : r.mem.highestOut = db.highestOut
  highestIn : r.mem.highestIn = db.highestIn
  lastActive : r.lastActive = db.lastActiveMs

theorem Answers.same {a b : Recovered n len} (ha : db.Answers a) (hb : db.Answers b) :
    a.Same b where
  get k := Option.ext fun c => (ha.get k c).trans (hb.get k c).symm
  oldest := by
    unfold MemJournal.oldest
    rw [ha.highWater.unique hb.highWater]
  highestOut := ha.highestOut.trans hb.highestOut.symm
  highestIn := ha.highestIn.trans hb.highestIn.symm
  lastActive := ha.lastActive.trans hb.lastActive.symm

theorem lastMessages_keyed (keyed : Keyed db.messages) : Keyed (lastMessages db.messages n) :=
  keyed.sublist (List.drop_sublist _ _)

theorem lastMessages_holdable (fits : MemJournal.Holdable n len db.messages) :
    MemJournal.Holdable n len (lastMessages db.messages n) :=
  fun m mem => fits m (List.mem_of_mem_drop mem)

/-- A number is among the last ones that are read back. -/
theorem mem_numbers_last (keyed : Keyed db.messages) {k : ℕ} :
    k ∈ numbersOf (lastMessages db.messages n) ↔ k ∈ db.numbers ∧ Recent n db.numbers k := by
  unfold numbers
  rw [mem_numbersOf, mem_numbersOf]
  constructor
  · rintro ⟨b, mem⟩
    obtain ⟨mem, recent⟩ := (mem_lastMessages keyed).mp mem
    exact ⟨⟨b, mem⟩, recent⟩
  · rintro ⟨⟨b, mem⟩, recent⟩
    exact ⟨b, (mem_lastMessages keyed).mpr ⟨mem, recent⟩⟩

/-- The highest number of a table is read back. -/
theorem top_last (w : db.Wellformed n len) {top : Option ℕ}
    (h : Top (numbersOf (lastMessages db.messages n)) top) : Top db.numbers top where
  mem k hk := ((mem_numbers_last w.keyed).mp (h.mem k hk)).1
  le := by
    intro k mem
    obtain ⟨high, high_mem, le⟩ := db.numbers.exists_max_image id ⟨k, mem⟩
    have recent : Recent n db.numbers high :=
      w.recent high high_mem fun k' mem' _ => le k' mem'
    obtain ⟨h', top', above⟩ := h.le high ((mem_numbers_last w.keyed).mpr ⟨high_mem, recent⟩)
    exact ⟨h', top', Nat.le_trans (le k mem) above⟩

/-- What `load` makes of the messages and the marks. -/
theorem load_fields (db : Database) (n len : ℕ) :
    let ring := MemJournal.putAll n len (lastMessages db.messages n)
    (db.load n len).slots = ring.slots ∧ (db.load n len).highWater = ring.highWater ∧
      (db.load n len).highestIn = db.highestIn.elim ring.highestIn (raise ring.highestIn) ∧
      (db.load n len).highestOut = db.highestOut.elim ring.highestOut (raise ring.highestOut) := by
  unfold load
  cases db.highestIn <;> cases db.highestOut <;> exact ⟨rfl, rfl, rfl, rfl⟩

/-- **A journal that has just been opened answers for its database.** -/
theorem answers_loaded (w : db.Wellformed n len) : db.Answers (db.loaded n len) := by
  have keyed := lastMessages_keyed (n := n) w.keyed
  have fits := lastMessages_holdable w.fits
  obtain ⟨top, out, inn⟩ := MemJournal.putAll_tops fits
  have top := top_last w top
  have get : ∀ k b, (MemJournal.putAll n len (lastMessages db.messages n)).get k = some b ↔
      (k, b) ∈ db.messages ∧ Highest n db.numbers k := by
    intro k b
    rw [MemJournal.get_putAll_keyed keyed fits, mem_lastMessages w.keyed]
    constructor
    · rintro ⟨⟨mem, recent⟩, highest⟩
      refine ⟨mem, fun k' mem' slot => ?_⟩
      by_contra lt
      have le : k ≤ k' := Nat.le_of_not_le lt
      exact lt (highest k' ((mem_numbers_last w.keyed).mpr ⟨mem', recent.mono le⟩) slot)
    · rintro ⟨mem, highest⟩
      refine ⟨⟨mem, w.recent k (mem_numbersOf.mpr ⟨b, mem⟩) highest⟩, fun k' mem' slot => ?_⟩
      exact highest k' ((mem_numbers_last w.keyed).mp mem').1 slot
  obtain ⟨slots, highWater, highestIn, highestOut⟩ := load_fields db n len
  refine ⟨?_, ?_, ?_, ?_, rfl⟩
  · intro k b
    rw [← get k b]
    unfold loaded MemJournal.get
    rw [slots]
  · show Top db.numbers (db.load n len).highWater
    rw [highWater]
    exact top
  · show (db.load n len).highestOut = _
    rw [highestOut, out]
    cases high : (MemJournal.putAll n len (lastMessages db.messages n)).highWater with
    | none => cases db.highestOut <;> rfl
    | some h =>
      obtain ⟨spent, is_spent, le⟩ := w.spent h (top.mem h high)
      obtain is_spent : db.highestOut = some spent := is_spent
      rw [is_spent]
      exact congrArg some (Nat.max_eq_right le)
  · show (db.load n len).highestIn = _
    rw [highestIn, inn]
    cases db.highestIn <;> rfl

/-! ### What a record does -/

/-- A record more in a database, as its own transaction would leave it. -/
def apply (db : Database) (e : Record) : Database :=
  if e.seq = activityMark then
    if e.payload.length = activityLen then
      { db with lastActiveMs := (some (ofLe e.payload)).filter (· ≤ i64Max) }
    else if e.payload.length = outboundLen then
      { db with highestOut := raise db.highestOut (ofLe e.payload) }
    else db
  else if e.payload.length = inboundMark then
    { db with highestIn := raise db.highestIn e.seq.toNat }
  else if carriesSecret e.payload then { db with highestOut := raise db.highestOut e.seq.toNat }
  else
    { db with
      highestOut := raise db.highestOut e.seq.toNat
      messages := insertOrReplace db.messages e.seq.toNat e.payload }

theorem apply_outbound (db : Database) (seq : UInt32) :
    db.apply (.outbound seq) = { db with highestOut := raise db.highestOut seq.toNat } := by
  unfold apply Record.outbound
  rw [if_pos rfl, if_neg (by simp [activityLen, outboundLen]), if_pos (by simp),
    ofLe_toLe (UInt32.toNat_lt _)]

theorem apply_activity (db : Database) {atMs : UInt64} (small : atMs.toNat ≤ i64Max) :
    db.apply (.activity atMs) = { db with lastActiveMs := some atMs.toNat } := by
  unfold apply Record.activity
  rw [if_pos rfl, if_pos (by simp), ofLe_toLe (UInt64.toNat_lt _)]
  simp [Option.filter, small]

theorem apply_inbound (db : Database) {seq : UInt32} (pos : seq ≠ 0) :
    db.apply (.inbound seq) = { db with highestIn := raise db.highestIn seq.toNat } := by
  have message : ¬ (Record.inbound seq).seq = activityMark := pos
  have mark : (Record.inbound seq).payload.length = inboundMark := rfl
  rw [apply, if_neg message, if_pos mark]
  rfl

theorem apply_message (db : Database) {seq : UInt32} {bytes : Bytes} (pos : seq ≠ 0)
    (filled : bytes ≠ []) (clean : carriesSecret bytes = false) :
    db.apply ⟨seq, bytes⟩ = { db with
      highestOut := raise db.highestOut seq.toNat
      messages := insertOrReplace db.messages seq.toNat bytes } := by
  have message : ¬ (Record.mk seq bytes).seq = activityMark := pos
  rw [apply, if_neg message, if_neg (by simpa [inboundMark] using filled), if_neg (by simp [clean])]

end Database

/-! ### What a call does -/

namespace Recovered

variable {n len : ℕ} {r : Recovered n len} {db : Database}

/-- A call, and the record it hands to the writer. -/
def call (r : Recovered n len) : SqliteJournal.Call → Recovered n len × Option Record
  | .put seq bytes =>
    if (r.mem.put seq.toNat bytes).2 then
      ({ r with mem := (r.mem.put seq.toNat bytes).1 }, some ⟨seq, bytes⟩)
    else (r, Option.none)
  | .markIn seq => ({ r with mem := Journal.markIn r.mem seq.toNat }, some (.inbound seq))
  | .markOut seq =>
    if r.mem.highestOut.any fun h => seq.toNat ≤ h then (r, Option.none)
    else ({ r with mem := Journal.markOut r.mem seq.toNat }, some (.outbound seq))
  | .markActive atMs => ({ r with lastActive := some atMs.toNat }, some (.activity atMs))

end Recovered

/-- A number that can be put beside these: it is the highest of its slot, and the highest number of
every slot stays among the last. -/
def Lasting (n : ℕ) (ks : Finset ℕ) (seq : ℕ) : Prop :=
  Highest n (insert seq ks) seq ∧
    ∀ k ∈ insert seq ks, Highest n (insert seq ks) k → Recent n (insert seq ks) k

instance (n : ℕ) (ks : Finset ℕ) (seq : ℕ) : Decidable (Lasting n ks seq) := by
  unfold Lasting
  infer_instance

namespace SqliteJournal.Call

/-- A message put is no secret. -/
def Clean : Call → Prop
  | .put _ bytes => carriesSecret bytes = false
  | _ => True

/-- A call whose record the writer takes for what it is, and whose message stays where a ring would
keep it; `ks` are the numbers of the messages so far. -/
def Keeps (n len : ℕ) (ks : Finset ℕ) : Call → Prop
  | .put seq bytes => MemJournal.Fits n len bytes → seq ≠ 0 ∧ bytes ≠ [] ∧ Lasting n ks seq.toNat
  | .markIn seq => seq ≠ 0
  | .markOut _ => True
  | .markActive atMs => atMs.toNat ≤ i64Max

end SqliteJournal.Call

namespace Database

variable {n len : ℕ} {r : Recovered n len} {db : Database}

/-- A number that is spent raises the highest that is. -/
theorem spent_raise {ks : Finset ℕ} {out : Option ℕ} (spent : ∀ k ∈ ks, ∃ h ∈ out, k ≤ h)
    (seq : ℕ) : ∀ k ∈ insert seq ks, ∃ h ∈ raise out seq, k ≤ h := by
  intro k mem
  obtain rfl | mem := Finset.mem_insert.mp mem
  · cases out with
    | none => exact ⟨k, rfl, Nat.le_refl k⟩
    | some h => exact ⟨max h k, rfl, Nat.le_max_right h k⟩
  · obtain ⟨h, rfl, le⟩ := spent k mem
    exact ⟨max h seq, rfl, Nat.le_trans le (Nat.le_max_left h seq)⟩

/-- A message put that is the highest of its slot. -/
theorem Answers.put {seq : ℕ} {bytes : Bytes} (answers : db.Answers r)
    (w : db.Wellformed n len) (fits : MemJournal.Fits n len bytes) (filled : bytes ≠ [])
    (lasting : Lasting n db.numbers seq) :
    let db' := { db with
      highestOut := raise db.highestOut seq
      messages := insertOrReplace db.messages seq bytes }
    db'.Answers ({ r with mem := (r.mem.put seq bytes).1 } : Recovered n len) ∧
      db'.Wellformed n len := by
  intro db'
  have numbers : db'.numbers = insert seq db.numbers :=
    numbersOf_insertOrReplace db.messages seq bytes
  obtain ⟨highest, recent⟩ := lasting
  refine ⟨⟨?_, ?_, ?_, ?_, answers.lastActive⟩, ?_, ?_, ?_, ?_, w.instant⟩
  · intro k c
    show (r.mem.put seq bytes).1.get k = some c ↔ _
    rw [MemJournal.get_put_fits fits filled, mem_insertOrReplace, numbers]
    by_cases slot : k % n = seq % n
    · rw [if_pos slot]
      by_cases same : k = seq
      · subst same
        rw [if_pos rfl]
        constructor
        · intro eq
          obtain rfl := Option.some.inj eq
          exact ⟨Or.inl rfl, highest⟩
        · rintro ⟨eq | ⟨-, ne⟩, -⟩
          · rw [Prod.mk.inj eq |>.2]
          · exact absurd rfl ne
      · -- a lower number of the same slot
        rw [if_neg same]
        refine iff_of_false (by simp) ?_
        rintro ⟨eq | ⟨old, -⟩, top⟩
        · exact same (Prod.mk.inj eq).1
        · have ge := top seq (Finset.mem_insert_self _ _) slot.symm
          have le := highest k (Finset.mem_insert_of_mem (mem_numbersOf.mpr ⟨c, old⟩)) slot
          exact same (Nat.le_antisymm le ge)
    · rw [if_neg slot, answers.get k c]
      have other : k ≠ seq := fun eq => slot (by rw [eq])
      have row : (k, c) ∈ db.messages ↔
          (k, c) = (seq, bytes) ∨ (k, c) ∈ db.messages ∧ (k, c).1 ≠ seq := by
        constructor
        · exact fun old => Or.inr ⟨old, other⟩
        · rintro (eq | ⟨old, -⟩)
          · exact absurd (Prod.mk.inj eq).1 other
          · exact old
      have top : Highest n db.numbers k ↔ Highest n (insert seq db.numbers) k := by
        constructor
        · intro h k' mem slot'
          obtain rfl | mem := Finset.mem_insert.mp mem
          · exact absurd slot'.symm slot
          · exact h k' mem slot'
        · exact fun h k' mem => h k' (Finset.mem_insert_of_mem mem)
      rw [← row, ← top]
  · rw [numbers]
    show Top _ (r.mem.put seq bytes).1.highWater
    rw [MemJournal.put_fits fits]
    exact answers.highWater.raise seq
  · show (r.mem.put seq bytes).1.highestOut = raise db.highestOut seq
    rw [MemJournal.put_fits fits, ← answers.highestOut]
  · show (r.mem.put seq bytes).1.highestIn = db.highestIn
    rw [MemJournal.put_fits fits]
    exact answers.highestIn
  · exact w.keyed.insertOrReplace seq bytes
  · intro m mem
    obtain rfl | ⟨old, -⟩ := mem_insertOrReplace.mp mem
    · exact ⟨filled, fits⟩
    · exact w.fits m old
  · rw [numbers]
    exact recent
  · rw [numbers]
    exact spent_raise w.spent seq

/-- **What a journal answers after a call is what its database will give back**, once the record of
the call is in it. -/
theorem Answers.call {c : SqliteJournal.Call} (answers : db.Answers r) (w : db.Wellformed n len)
    (clean : c.Clean) (keeps : c.Keeps n len db.numbers) :
    ((r.call c).2.elim db db.apply).Answers (r.call c).1 ∧
      ((r.call c).2.elim db db.apply).Wellformed n len := by
  cases c with
  | put seq bytes =>
    unfold Recovered.call
    by_cases fits : MemJournal.Fits n len bytes
    · obtain ⟨pos, filled, lasting⟩ := keeps fits
      have kept : (r.mem.put seq.toNat bytes).2 = true := by rw [MemJournal.put_fits fits]
      simp only [kept, if_true, Option.elim_some]
      rw [apply_message db pos filled clean]
      exact answers.put w fits filled lasting
    · have refused : (r.mem.put seq.toNat bytes).2 = false := by rw [MemJournal.put_refused fits]
      simp only [refused, Bool.false_eq_true, if_false, Option.elim_none]
      exact ⟨answers, w⟩
  | markIn seq =>
    dsimp only [Recovered.call, Option.elim_some]
    rw [apply_inbound db keeps]
    refine ⟨⟨answers.get, answers.highWater, answers.highestOut, ?_, answers.lastActive⟩, ?_⟩
    · show raise r.mem.highestIn _ = raise db.highestIn _
      rw [answers.highestIn]
    · exact ⟨w.keyed, w.fits, w.recent, w.spent, w.instant⟩
  | markOut seq =>
    dsimp only [Recovered.call]
    split
    · exact ⟨answers, w⟩
    · dsimp only [Option.elim_some]
      rw [apply_outbound db seq]
      refine ⟨⟨answers.get, answers.highWater, ?_, answers.highestIn, answers.lastActive⟩, ?_⟩
      · show raise r.mem.highestOut _ = raise db.highestOut _
        rw [answers.highestOut]
      · refine ⟨w.keyed, w.fits, w.recent, fun k mem => ?_, w.instant⟩
        exact spent_raise w.spent seq.toNat k (Finset.mem_insert_of_mem mem)
  | markActive atMs =>
    dsimp only [Recovered.call, Option.elim_some]
    rw [apply_activity db keeps]
    refine ⟨⟨answers.get, answers.highWater, answers.highestOut, answers.highestIn, rfl⟩, ?_⟩
    refine ⟨w.keyed, w.fits, w.recent, w.spent, fun t mem => ?_⟩
    obtain rfl := Option.some.inj mem
    exact keeps

end Database

/-! ### What a batch comes to -/

namespace SqliteJournal

/-- The writer's marks are those of the database. -/
structure Marks.Of (marks : Marks) (db : Database) : Prop where
  highestIn : marks.highestIn = db.highestIn
  highestOut : marks.highestOut = db.highestOut
  lastActive : db.lastActiveMs = marks.lastActive.filter (· ≤ i64Max)

theorem raise_elim (mark most : Option ℕ) (seq : ℕ) :
    (raise most seq).elim mark (raise mark) = raise (most.elim mark (raise mark)) seq := by
  cases most with
  | none => rfl
  | some m =>
    cases mark with
    | none => rfl
    | some h => exact congrArg some (Nat.max_assoc h m seq).symm

/-- A batch of these records. -/
def Batch.of (db : Database) (records : List Record) : Batch :=
  records.foldl (fun b e => b.add db e) .none

theorem Batch.of_concat (db : Database) (records : List Record) (e : Record) :
    Batch.of db (records ++ [e]) = (Batch.of db records).add db e := by
  simp [Batch.of]

/-- What a batch has in hand: the table with its messages, and the marks to be written. -/
structure Batch.Holds (b : Batch) (marks : Marks) (db after : Database) (count : ℕ) : Prop where
  records : b.records = count
  table : (if b.records = 0 then db.messages else b.table) = after.messages
  marks : (b.next marks).Of after

theorem Batch.Holds.add {b : Batch} {marks : Marks} {db after : Database} {count : ℕ}
    (h : b.Holds marks db after count) (e : Record) :
    (b.add db e).Holds marks db (after.apply e) (count + 1) := by
  obtain ⟨records, table, ⟨highestIn, highestOut, lastActive⟩⟩ := h
  have more : b.records + 1 ≠ 0 := Nat.succ_ne_zero _
  simp only [Batch.next] at highestIn highestOut lastActive
  unfold Batch.add Database.apply
  dsimp only
  split
  · split
    · exact ⟨congrArg (· + 1) records, (if_neg more).trans table, highestIn, highestOut, rfl⟩
    · split
      · refine ⟨congrArg (· + 1) records, (if_neg more).trans table, highestIn, ?_, lastActive⟩
        exact (raise_elim _ _ _).trans (by rw [highestOut])
      · exact ⟨congrArg (· + 1) records, (if_neg more).trans table, highestIn, highestOut, lastActive⟩
  · split
    · refine ⟨congrArg (· + 1) records, (if_neg more).trans table, ?_, highestOut, lastActive⟩
      exact (raise_elim _ _ _).trans (by rw [highestIn])
    · split
      · refine ⟨congrArg (· + 1) records, (if_neg more).trans table, highestIn, ?_, lastActive⟩
        exact (raise_elim _ _ _).trans (by rw [highestOut])
      · refine ⟨congrArg (· + 1) records, (if_neg more).trans ?_, highestIn, ?_, lastActive⟩
        · show insertOrReplace (if b.records = 0 then db.messages else b.table) _ _ = _
          rw [table]
        · exact (raise_elim _ _ _).trans (by rw [highestOut])

/-- A batch holds what its records would do one by one. -/
theorem Batch.holds_of {marks : Marks} {db : Database} (same : marks.Of db)
    (records : List Record) : (Batch.of db records).Holds marks db
      (records.foldl Database.apply db) records.length := by
  induction records using List.reverseRecOn with
  | nil => exact ⟨rfl, rfl, same⟩
  | append_singleton front e ih =>
    rw [Batch.of_concat, List.foldl_append, List.length_append]
    exact ih.add e

theorem Batch.Holds.commit {b : Batch} {marks : Marks} {db after : Database} {count : ℕ}
    (h : b.Holds marks db after count) (some_ : b.records ≠ 0) : b.commit marks = after := by
  obtain ⟨-, table, ⟨highestIn, highestOut, lastActive⟩⟩ := h
  rw [if_neg some_] at table
  unfold Batch.commit
  rw [table, highestIn, highestOut, ← lastActive]

end SqliteJournal

/-! ### What the writer has done -/

namespace Recovered

variable {n len : ℕ}

/-- Some calls, and the records they hand to the writer. -/
def calls (r : Recovered n len) (cs : List SqliteJournal.Call) : Recovered n len × List Record :=
  cs.foldl (fun s c => ((s.1.call c).1, s.2 ++ (s.1.call c).2.toList)) (r, [])

theorem calls_concat (r : Recovered n len) (cs : List SqliteJournal.Call)
    (c : SqliteJournal.Call) : r.calls (cs ++ [c]) =
      (((r.calls cs).1.call c).1, (r.calls cs).2 ++ ((r.calls cs).1.call c).2.toList) := by
  simp [calls]

/-- The first of the records are those of the first calls. -/
theorem calls_prefix (r : Recovered n len) {cs : List SqliteJournal.Call} {records : List Record}
    (h : records <+: (r.calls cs).2) : ∃ done, done <+: cs ∧ (r.calls done).2 = records := by
  induction cs using List.reverseRecOn with
  | nil => exact ⟨[], List.prefix_rfl, (List.prefix_nil.mp h).symm⟩
  | append_singleton cs c ih =>
    rw [calls_concat] at h
    -- a call hands over one record at most
    have split : records <+: (r.calls cs).2 ∨
        records = (r.calls cs).2 ++ ((r.calls cs).1.call c).2.toList := by
      cases e : ((r.calls cs).1.call c).2 with
      | none =>
        rw [e] at h
        exact Or.inl (by simpa using h)
      | some e' =>
        rw [e] at h
        obtain whole | front := List.prefix_concat_iff.mp h
        · exact Or.inr whole
        · exact Or.inl front
    obtain front | rfl := split
    · obtain ⟨done, is_front, eq⟩ := ih front
      exact ⟨done, is_front.trans (List.prefix_append _ _), eq⟩
    · exact ⟨cs ++ [c], List.prefix_rfl, by rw [calls_concat]⟩

end Recovered

namespace SqliteJournal

variable {n len : ℕ} {j : SqliteJournal n len} {opened : Database} {asked : List Call}

/-- What a journal answers from. -/
def live (j : SqliteJournal n len) : Recovered n len := ⟨j.mem, j.lastActive⟩

theorem push_eq {m : MemJournal n len} {a : Option ℕ} {e : Record} (room : j.room e = true) :
    SqliteJournal.push { j with mem := m, lastActive := a } e =
      { j with mem := m, lastActive := a, toWriter := j.toWriter ++ [e] } :=
  if_pos room

/-- A call whose record the ring has room for. -/
theorem call_eq (c : Call) (room : ∀ e ∈ (j.live.call c).2, j.room e = true) :
    j.call c = { j with
      mem := (j.live.call c).1.mem
      lastActive := (j.live.call c).1.lastActive
      toWriter := j.toWriter ++ (j.live.call c).2.toList } := by
  cases c with
  | put seq bytes =>
    dsimp only [Recovered.call, call, put, live] at room ⊢
    cases kept : (j.mem.put seq.toNat bytes).2 with
    | true =>
      simp only [kept, if_true] at room ⊢
      exact push_eq (room _ rfl)
    | false =>
      simp only [Bool.false_eq_true, if_false, Option.toList_none, List.append_nil]
  | markIn seq => exact push_eq (room _ rfl)
  | markOut seq =>
    dsimp only [Recovered.call, call, markOut, live] at room ⊢
    split
    · simp only [Option.toList_none, List.append_nil]
    · rename_i new
      rw [if_neg new] at room
      exact push_eq (room _ rfl)
  | markActive atMs => exact push_eq (room _ rfl)

/-- What a journal answers does not depend on its ring. -/
theorem live_push (j : SqliteJournal n len) (e : Record) : (j.push e).live = j.live := by
  unfold push
  split <;> rfl

theorem live_call (j : SqliteJournal n len) (c : Call) : (j.call c).live = (j.live.call c).1 := by
  cases c with
  | put seq bytes =>
    dsimp only [Recovered.call, call, put, live]
    cases kept : (j.mem.put seq.toNat bytes).2 with
    | true =>
      simp only [if_true]
      exact live_push _ _
    | false => rfl
  | markIn seq => exact live_push _ _
  | markOut seq =>
    dsimp only [Recovered.call, call, markOut, live]
    split
    · rfl
    · exact live_push _ _
  | markActive atMs => exact live_push _ _

theorem live_calls (j : SqliteJournal n len) (cs : List Call) :
    (j.calls cs).live = (j.live.calls cs).1 := by
  induction cs using List.reverseRecOn with
  | nil => rfl
  | append_singleton cs c ih =>
    rw [Recovered.calls_concat, ← ih, ← live_call]
    simp [calls]

/-- What the writer has done: the first records are in the database, the next in the open batch, and
the rest on the ring. -/
structure Written (opened : Database) (asked : List Call) (j : SqliteJournal n len) : Prop where
  live : j.live = ((opened.loaded n len).calls asked).1
  records : ∃ done batch, ((opened.loaded n len).calls asked).2 = done ++ batch ++ j.toWriter ∧
    j.db = done.foldl Database.apply opened ∧ j.batch = .of j.db batch
  marks : j.marks.Of j.db

theorem written_open (db : Database) (w : db.Wellformed n len) (opts : SqliteOptions) :
    Written db [] (SqliteJournal.open_ db opts : SqliteJournal n len) where
  live := rfl
  records := ⟨[], [], rfl, rfl, rfl⟩
  marks := by
    refine ⟨rfl, rfl, ?_⟩
    show db.lastActiveMs = db.lastActiveMs.filter _
    cases at_ : db.lastActiveMs with
    | none => rfl
    | some t => simp [Option.filter, w.instant t at_]

theorem Written.call {c : Call} (h : Written opened asked j)
    (room : ∀ e ∈ (j.live.call c).2, j.room e = true) :
    Written opened (asked ++ [c]) (j.call c) := by
  obtain ⟨live, ⟨done, batch, records, db, of⟩, marks⟩ := h
  rw [call_eq c room]
  refine ⟨?_, ⟨done, batch, ?_, db, of⟩, marks⟩
  · rw [Recovered.calls_concat, ← live]
    rfl
  · rw [Recovered.calls_concat, records, ← live, List.append_assoc _ j.toWriter]

/-- A batch that the database takes. -/
theorem Written.endBatch (h : Written opened asked j) :
    Written opened asked (j.endBatch true) := by
  unfold SqliteJournal.endBatch
  split
  · exact h
  · rename_i some_
    obtain ⟨live, ⟨done, batch, records, db, of⟩, marks⟩ := h
    have holds := Batch.holds_of marks batch
    rw [← of] at holds
    have commit := holds.commit some_
    refine ⟨live, ⟨done ++ batch, [], ?_, ?_, rfl⟩, ?_⟩
    · rw [List.append_nil]
      exact records
    · show j.batch.commit j.marks = _
      rw [commit, List.foldl_append, ← db]
    · show (j.batch.next j.marks).Of (j.batch.commit j.marks)
      rw [commit]
      exact holds.marks

theorem Written.pop {e : Record} {rest : List Record} (h : Written opened asked j)
    (ring : j.toWriter = e :: rest) :
    Written opened asked { j with toWriter := rest, batch := j.batch.add j.db e } := by
  obtain ⟨live, ⟨done, batch, records, db, of⟩, marks⟩ := h
  refine ⟨live, ⟨done, batch ++ [e], ?_, db, ?_⟩, marks⟩
  · rw [records, ring]
    simp
  · show j.batch.add j.db e = _
    rw [Batch.of_concat, ← of]

theorem Written.write (h : Written opened asked j) : Written opened asked (j.write true) := by
  unfold SqliteJournal.write
  split
  · exact h.endBatch
  · rename_i e rest ring
    dsimp only
    split
    · exact (h.pop ring).endBatch
    · exact h.pop ring

theorem toWriter_endBatch (j : SqliteJournal n len) (taken : Bool) :
    (j.endBatch taken).toWriter = j.toWriter := by
  unfold SqliteJournal.endBatch
  split
  · rfl
  · split <;> rfl

theorem toWriter_write (j : SqliteJournal n len) (taken : Bool) :
    (j.write taken).toWriter = j.toWriter.tail := by
  unfold SqliteJournal.write
  split
  · rename_i ring
    rw [toWriter_endBatch, ring]
    rfl
  · rename_i e rest ring
    rw [ring]
    dsimp only
    split
    · exact toWriter_endBatch _ _
    · rfl

theorem records_endBatch (j : SqliteJournal n len) (taken : Bool) :
    (j.endBatch taken).batch.records = 0 := by
  unfold SqliteJournal.endBatch
  split
  · assumption
  · split <;> rfl

/-- A writer that is told to stop empties the ring first. -/
theorem Written.drain (h : Written opened asked j) (turns : List Record) :
    Written opened asked (turns.foldl (fun j _ => j.write true) j) ∧
      (turns.foldl (fun j _ => j.write true) j).toWriter = j.toWriter.drop turns.length := by
  induction turns generalizing j with
  | nil => exact ⟨h, rfl⟩
  | cons _ turns ih =>
    obtain ⟨written, ring⟩ := ih h.write
    refine ⟨written, ring.trans ?_⟩
    rw [toWriter_write, List.drop_tail]
    rfl

/-- **A journal that is closed has everything in its database.** -/
theorem Written.close (h : Written opened asked j) :
    j.close.db = ((opened.loaded n len).calls asked).2.foldl Database.apply opened := by
  obtain ⟨written, ring⟩ := h.drain j.toWriter
  rw [List.drop_length] at ring
  have empty : j.close.toWriter = [] := by
    unfold SqliteJournal.close
    rw [toWriter_endBatch, ring]
  have written : Written opened asked j.close := written.endBatch
  obtain ⟨-, ⟨done, batch, records, db, of⟩, marks⟩ := written
  have holds := Batch.holds_of marks batch
  rw [← of] at holds
  have none : batch = [] := by
    refine List.length_eq_zero_iff.mp ?_
    rw [← holds.records]
    exact records_endBatch _ _
  rw [db, records, none, empty, List.append_nil, List.append_nil]

end SqliteJournal

/-! ### Over any number of processes -/

/-- The number of a message that a record puts in the table. -/
def Record.message (e : Record) : Option ℕ :=
  if e.seq = activityMark ∨ e.payload.length = inboundMark ∨ carriesSecret e.payload then none
  else some e.seq.toNat

/-- The numbers of the messages in a journal's database and on their way to it. -/
def SqliteJournal.numbers {n len : ℕ} (j : SqliteJournal n len) : Finset ℕ :=
  numbersOf (if j.batch.records = 0 then j.db.messages else j.batch.table) ∪
    (j.toWriter.filterMap Record.message).toFinset

theorem Database.numbers_apply (db : Database) (e : Record) :
    (db.apply e).numbers = db.numbers ∪ e.message.toList.toFinset := by
  unfold Database.apply Record.message Database.numbers
  split
  · rename_i mark
    rw [if_pos (Or.inl mark)]
    split
    · simp
    · split <;> simp
  · rename_i other
    split
    · rename_i inbound
      rw [if_pos (Or.inr (Or.inl inbound))]
      simp
    · rename_i filled
      split
      · rename_i secret
        rw [if_pos (Or.inr (Or.inr secret))]
        simp
      · rename_i clean
        rw [if_neg (by simp [other, filled, clean]), numbersOf_insertOrReplace]
        ext i
        simp

theorem Database.numbers_foldl (db : Database) (records : List Record) :
    (records.foldl Database.apply db).numbers =
      db.numbers ∪ (records.filterMap Record.message).toFinset := by
  induction records generalizing db with
  | nil => simp
  | cons e records ih =>
    rw [List.foldl_cons, ih, Database.numbers_apply]
    cases h : e.message with
    | none => simp [h]
    | some k =>
      rw [List.filterMap_cons_some h]
      ext i
      simp

namespace SqliteJournal

variable {n len : ℕ} {j : SqliteJournal n len} {opened : Database} {asked : List Call}

/-- The numbers of a journal are those its database will have. -/
theorem Written.numbers (h : Written opened asked j) : j.numbers =
    (((opened.loaded n len).calls asked).2.foldl Database.apply opened).numbers := by
  obtain ⟨-, ⟨done, batch, records, db, of⟩, marks⟩ := h
  have holds := Batch.holds_of marks batch
  rw [← of] at holds
  rw [records, List.foldl_append, List.foldl_append, ← db, Database.numbers_foldl]
  unfold SqliteJournal.numbers
  rw [holds.table]
  rfl

end SqliteJournal

namespace SqliteStore

variable {n len : ℕ} {s s' : SqliteStore n len}

/-- What is asked of the world: no message put carries a secret, records fit the ring, and the
database takes what is committed. -/
def Allowed : SqliteStore n len → Act → Prop
  | .up _ _ j, .call c => c.Clean ∧ ∀ e ∈ (j.live.call c).2, j.room e = true
  | _, .write taken => taken = true
  | _, _ => True

/-- What is asked of the calls: each is one whose record is taken for what it is, and whose message
stays where a ring would keep it. -/
def Keeps : SqliteStore n len → Act → Prop
  | .up _ _ j, .call c => c.Keeps n len j.numbers
  | _, _ => True

/-- The states of a database that is created, opened, closed and killed. -/
inductive Runs : SqliteStore n len → Prop
  | start : Runs (.down .created)
  | step {s s' : SqliteStore n len} {a : Act} (h : Runs s) (allowed : s.Allowed a)
      (keeps : s.Keeps a) (next : s.step a = some s') : Runs s'

/-- A journal restarts as it stopped: closed, as it was, and killed, as it was after some first
part of what it was asked. -/
def Restarts : SqliteStore n len → Prop
  | .down _ => True
  | .up opened asked j => ∀ opts : SqliteOptions,
      (SqliteJournal.open_ j.close.db opts : SqliteJournal n len).live.Same j.live ∧
      ∃ done, done <+: asked ∧ (SqliteJournal.open_ j.db opts : SqliteJournal n len).live.Same
        ((SqliteJournal.open_ opened opts : SqliteJournal n len).calls done).live

/-- What a database will give back after each part of what its journal was asked. -/
def Kept (opened : Database) (asked : List SqliteJournal.Call) (n len : ℕ) : Prop :=
  ∀ done, done <+: asked →
    let now := (opened.loaded n len).calls done
    (now.2.foldl Database.apply opened).Answers now.1 ∧
      (now.2.foldl Database.apply opened).Wellformed n len

theorem wellformed_created : Database.created.Wellformed n len where
  keyed := List.Pairwise.nil
  fits := fun m mem => by cases mem
  recent := fun k mem => by cases mem
  spent := fun k mem => by cases mem
  instant := fun t mem => by cases mem

/-- The calls whose records are in the database. -/
theorem Kept.front {opened : Database} {asked : List SqliteJournal.Call} {j : SqliteJournal n len}
    (kept : Kept opened asked n len) (written : SqliteJournal.Written opened asked j) :
    ∃ done, done <+: asked ∧ j.db.Answers ((opened.loaded n len).calls done).1 ∧
      j.db.Wellformed n len := by
  obtain ⟨-, ⟨first, batch, records, db, -⟩, -⟩ := written
  have is_first : first <+: ((opened.loaded n len).calls asked).2 := by
    rw [records, List.append_assoc]
    exact List.prefix_append _ _
  obtain ⟨done, front, eq⟩ := Recovered.calls_prefix _ is_first
  rw [db, ← eq]
  exact ⟨done, front, kept done front⟩

/-- What a run keeps. -/
def Good : SqliteStore n len → Prop
  | .down db => db.Wellformed n len
  | .up opened asked j => Kept opened asked n len ∧ SqliteJournal.Written opened asked j

theorem good_step {a : Act} (good : s.Good) (allowed : s.Allowed a) (keeps : s.Keeps a)
    (next : s.step a = some s') : s'.Good := by
  cases s with
  | down db =>
    cases a with
    | open_ opts =>
      obtain rfl := Option.some.inj next
      refine ⟨fun done front => ?_, SqliteJournal.written_open db good opts⟩
      obtain rfl := List.prefix_nil.mp front
      exact ⟨Database.answers_loaded good, good⟩
    | _ => cases next
  | up opened asked j =>
    obtain ⟨kept, written⟩ := good
    cases a with
    | open_ opts => cases next
    | call c =>
      obtain rfl := Option.some.inj next
      obtain ⟨clean, room⟩ := allowed
      refine ⟨fun done front => ?_, written.call room⟩
      obtain rfl | front := List.prefix_concat_iff.mp front
      · obtain ⟨answers, w⟩ := kept asked List.prefix_rfl
        have keeps : c.Keeps n len j.numbers := keeps
        rw [written.numbers] at keeps
        have record : ∀ (d : Database) (e : Option Record),
            e.toList.foldl Database.apply d = e.elim d d.apply := by
          intro d e
          cases e <;> rfl
        dsimp only
        rw [Recovered.calls_concat, List.foldl_append, record]
        exact answers.call w clean keeps
      · exact kept done front
    | write taken =>
      obtain rfl := Option.some.inj next
      obtain rfl : taken = true := allowed
      exact ⟨kept, written.write⟩
    | close =>
      obtain rfl := Option.some.inj next
      show j.close.db.Wellformed n len
      rw [written.close]
      exact (kept asked List.prefix_rfl).2
    | kill =>
      obtain rfl := Option.some.inj next
      obtain ⟨-, -, -, w⟩ := kept.front written
      exact w

/-- **A journal with a database restarts as it stopped**, whatever it was asked and however often it
was closed or killed, as long as every number put is the highest of its slot and leaves the highest
number of every slot among the last ones. -/
theorem sqlite_restarts (run : s.Runs) : s.Restarts := by
  have good : s.Good := by
    induction run with
    | start => exact wellformed_created
    | step _ allowed keeps next ih => exact good_step ih allowed keeps next
  cases s with
  | down db => trivial
  | up opened asked j =>
    obtain ⟨kept, written⟩ := good
    intro opts
    refine ⟨?_, ?_⟩
    · obtain ⟨answers, w⟩ := kept asked List.prefix_rfl
      rw [← written.close, ← written.live] at answers
      rw [← written.close] at w
      exact (Database.answers_loaded w).same answers
    · obtain ⟨done, front, answers, w⟩ := kept.front written
      refine ⟨done, front, ?_⟩
      rw [SqliteJournal.live_calls]
      exact (Database.answers_loaded w).same answers

/-- Numbers in turn, the third spent on a message that is not journalled: a restart forgets the
first, which the ring still holds. -/
theorem sqlite_forgets :
    let j : SqliteJournal 2 8 := (SqliteJournal.open_ .created {}).calls
      [.put 1 [65], .put 2 [66], .put 4 [67]]
    j.unwritten = 0 ∧ j.get 1 = some [65] ∧
      (SqliteJournal.open_ j.close.db {} : SqliteJournal 2 8).get 1 = none := by
  decide +kernel

instance (c : SqliteJournal.Call) : Decidable c.Clean :=
  match c with
  | .put _ bytes => inferInstanceAs (Decidable (carriesSecret bytes = false))
  | .markIn _ | .markOut _ | .markActive _ => isTrue trivial

instance (ks : Finset ℕ) (c : SqliteJournal.Call) : Decidable (c.Keeps n len ks) :=
  match c with
  | .put seq bytes => inferInstanceAs (Decidable (MemJournal.Fits n len bytes →
      seq ≠ 0 ∧ bytes ≠ [] ∧ Lasting n ks seq.toNat))
  | .markIn seq => inferInstanceAs (Decidable (seq ≠ 0))
  | .markOut _ => isTrue trivial
  | .markActive atMs => inferInstanceAs (Decidable (atMs.toNat ≤ i64Max))

instance (s : SqliteStore n len) (a : Act) : Decidable (s.Allowed a) :=
  match s, a with
  | .up _ _ j, .call c =>
    inferInstanceAs (Decidable (c.Clean ∧ ∀ e ∈ (j.live.call c).2, j.room e = true))
  | .up _ _ _, .write taken | .down _, .write taken => inferInstanceAs (Decidable (taken = true))
  | .up _ _ _, .open_ _ | .up _ _ _, .close | .up _ _ _, .kill | .down _, .open_ _
  | .down _, .call _ | .down _, .close | .down _, .kill => isTrue trivial

instance (s : SqliteStore n len) (a : Act) : Decidable (s.Keeps a) :=
  match s, a with
  | .up _ _ j, .call c => inferInstanceAs (Decidable (c.Keeps n len j.numbers))
  | .up _ _ _, .write _ | .up _ _ _, .open_ _ | .up _ _ _, .close | .up _ _ _, .kill
  | .down _, .write _ | .down _, .open_ _ | .down _, .call _ | .down _, .close
  | .down _, .kill => isTrue trivial

/-- A run, step by step, as far as each step is one that keeps. -/
def runsKept (s : SqliteStore n len) (as : List Act) : Option (SqliteStore n len) :=
  as.foldlM (fun s a => if s.Allowed a ∧ s.Keeps a then s.step a else none) s

theorem runs_of_runsKept {as : List Act} (from_ : s.Runs) (run : s.runsKept as = some s') :
    s'.Runs := by
  induction as generalizing s with
  | nil =>
    obtain rfl := Option.some.inj run
    exact from_
  | cons a as ih =>
    obtain ⟨mid, next, rest⟩ := Option.bind_eq_some_iff.mp run
    dsimp only at next
    split at next
    · rename_i ok
      exact ih (.step from_ ok.1 ok.2 next) rest
    · cases next

/-- Two messages and their marks, the first batch committed and the process killed; then one message
more. -/
def morning : List Act :=
  [.open_ {}, .call (.put 1 [65]), .write true, .write true, .call (.put 2 [66]), .call (.markIn 7),
    .kill, .open_ {}, .call (.put 2 [67]), .call (.markOut 3)]

theorem sqlite_restarts_morning : ∃ s : SqliteStore 4 8, s.Runs ∧ s.Restarts ∧
    (SqliteStore.down .created).runsKept morning = some s := by
  have run : ((SqliteStore.down .created : SqliteStore 4 8).runsKept morning).isSome := by
    decide +kernel
  obtain ⟨s, run⟩ := Option.isSome_iff_exists.mp run
  have runs := runs_of_runsKept .start run
  exact ⟨s, runs, sqlite_restarts runs, run⟩

end SqliteStore

end Fixbolt
