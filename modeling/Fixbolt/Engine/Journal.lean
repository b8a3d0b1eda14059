import Fixbolt.Session.State

/-!
# The ring journal of the engine, and resuming from a journal

`MemJournal` keeps the application messages sent in a ring addressed by number, and two marks: the
highest number consumed and the highest number spent. `Resumed.fromJournal` reads back from a
journal the numbers a new process continues from.
-/

namespace Fixbolt

/-- A journal that answers a restart as well. -/
class Recoverable (J : Type) extends Journal J where
  /-- The highest number consumed that it was told. -/
  highestIn : J → Option ℕ
  /-- The highest number spent that it was told. -/
  highestOut : J → Option ℕ
  /-- When the session was last active, if the journal knows. -/
  lastActive : J → Option ℕ := fun _ => none

/-- A mark never goes backwards. -/
def raise (mark : Option ℕ) (seq : ℕ) : Option ℕ := some (mark.elim seq (max · seq))

/-- A journal whose marks are the highest numbers it was told, that of a kept message among them. -/
class MarksHighest (J : Type) [Recoverable J] : Prop where
  highestIn_put : ∀ (j : J) (n : ℕ) (b : Bytes),
    Recoverable.highestIn (Journal.put j n b).1 = Recoverable.highestIn j
  highestOut_put : ∀ (j : J) (n : ℕ) (b : Bytes),
    Recoverable.highestOut (Journal.put j n b).1 =
      if (Journal.put j n b).2 then raise (Recoverable.highestOut j) n else Recoverable.highestOut j
  highestIn_markIn : ∀ (j : J) (n : ℕ),
    Recoverable.highestIn (Journal.markIn j n) = raise (Recoverable.highestIn j) n
  highestOut_markIn : ∀ (j : J) (n : ℕ),
    Recoverable.highestOut (Journal.markIn j n) = Recoverable.highestOut j
  highestIn_markOut : ∀ (j : J) (n : ℕ),
    Recoverable.highestIn (Journal.markOut j n) = Recoverable.highestIn j
  highestOut_markOut : ∀ (j : J) (n : ℕ),
    Recoverable.highestOut (Journal.markOut j n) = raise (Recoverable.highestOut j) n

/-- A journal that holds under a number nothing but the last message kept under it. -/
class KeepsLast (J : Type) [Journal J] : Prop where
  get_put : ∀ {j : J} {n k : ℕ} {b kept : Bytes}, Journal.get (Journal.put j n b).1 k = some kept →
    if k = n ∧ (Journal.put j n b).2 then kept = b else Journal.get j k = some kept
  get_markIn : ∀ (j : J) (n k : ℕ), Journal.get (Journal.markIn j n) k = Journal.get j k
  get_markOut : ∀ (j : J) (n k : ℕ), Journal.get (Journal.markOut j n) k = Journal.get j k

/-- A slot of the ring; `seq = 0` says it is empty. -/
structure Slot where
  seq : ℕ
  bytes : Bytes
deriving DecidableEq, Repr

/-- A ring of `n` slots of `len` bytes. -/
structure MemJournal (n len : ℕ) where
  slots : Vector Slot n
  highWater : Option ℕ
  highestIn : Option ℕ
  highestOut : Option ℕ

namespace MemJournal

variable {n len : ℕ}

/-- An empty journal. -/
def new (n len : ℕ) : MemJournal n len := ⟨Vector.replicate n ⟨0, []⟩, none, none, none⟩

/-- Keep a message in the slot of its number, unless it does not fit one. A slot records its length
in 16 bits. -/
def put (j : MemJournal n len) (seq : ℕ) (bytes : Bytes) : MemJournal n len × Bool :=
  if len < bytes.length ∨ n = 0 then (j, false)
  else if 65535 < bytes.length then (j, false)
  else
    ({ j with
        slots := j.slots.setIfInBounds (seq % n) ⟨seq, bytes⟩
        highWater := raise j.highWater seq
        highestOut := raise j.highestOut seq }, true)

/-- The message in the slot of a number, if it is that number's. -/
def get (j : MemJournal n len) (seq : ℕ) : Option Bytes :=
  (j.slots[seq % n]?).bind fun slot =>
    if slot.seq = seq ∧ slot.bytes ≠ [] then some slot.bytes else none

/-- A floor: every number below it fell out of the ring. -/
def oldest (j : MemJournal n len) : Option ℕ :=
  if n = 0 then none else j.highWater.map fun h => max (h - (min n u32Max - 1)) 1

/-- The highest number in a slot that holds a message. -/
def highest (j : MemJournal n len) : Option ℕ :=
  ((j.slots.toList.filter fun slot => slot.bytes ≠ []).map Slot.seq).max?

instance : Recoverable (MemJournal n len) where
  put := put
  get := get
  oldest := oldest
  markIn j seq := { j with highestIn := raise j.highestIn seq }
  markOut j seq := { j with highestOut := raise j.highestOut seq }
  highestIn := highestIn
  highestOut := highestOut

theorem put_eq (j : MemJournal n len) (seq : ℕ) (b : Bytes) :
    j.put seq b = (j, false) ∨ j.put seq b =
      ({ j with
        slots := j.slots.setIfInBounds (seq % n) ⟨seq, b⟩
        highWater := raise j.highWater seq
        highestOut := raise j.highestOut seq }, true) := by
  unfold put
  split
  · exact .inl rfl
  · split
    · exact .inl rfl
    · exact .inr rfl

instance : MarksHighest (MemJournal n len) where
  highestIn_put j seq b := by
    show (j.put seq b).1.highestIn = j.highestIn
    obtain h | h := j.put_eq seq b <;> rw [h]
  highestOut_put j seq b := by
    show (j.put seq b).1.highestOut =
      if (j.put seq b).2 then raise j.highestOut seq else j.highestOut
    obtain h | h := j.put_eq seq b <;> rw [h] <;> rfl
  highestIn_markIn _ _ := rfl
  highestOut_markIn _ _ := rfl
  highestIn_markOut _ _ := rfl
  highestOut_markOut _ _ := rfl

/-- One slot holds one number at a time: a message put where another was takes its place. -/
theorem get_put {j : MemJournal n len} {seq k : ℕ} {b kept : Bytes}
    (h : (j.put seq b).1.get k = some kept) :
    if k = seq ∧ (j.put seq b).2 then kept = b else j.get k = some kept := by
  obtain refused | put := j.put_eq seq b
  · rw [refused] at h ⊢
    simpa using h
  · rw [put] at h ⊢
    have within : seq % n < n := Nat.mod_lt _ (Nat.pos_of_ne_zero ?_)
    · simp only [get, Vector.getElem?_setIfInBounds] at h ⊢
      by_cases same : seq % n = k % n
      · rw [if_pos same, if_pos (same ▸ within)] at h
        simp only [Option.bind_some] at h
        split at h
        · rename_i hk
          rw [if_pos ⟨hk.1.symm, trivial⟩]
          exact (Option.some.inj h).symm
        · cases h
      · rw [if_neg same] at h
        have other : k ≠ seq := fun hk => same (by rw [hk])
        simpa [other] using h
    · rintro rfl
      simp [get] at h

instance : KeepsLast (MemJournal n len) where
  get_put := get_put
  get_markIn _ _ _ := rfl
  get_markOut _ _ _ := rfl

end MemJournal

/-- A journal, and the numbers a session continues from. -/
structure Resumed (J : Type) where
  journal : J
  nextOut : ℕ
  nextIn : ℕ
  lastActiveMs : Option ℕ

namespace Resumed

variable {J : Type} [Recoverable J]

/-- The number after a mark. -/
def after (mark : Option ℕ) : ℕ := mark.elim 1 fun h => min (h + 1) u32Max

/-- What a journal knows of its session, unless it knows nothing. -/
def fromJournal (journal : J) : Option (Resumed J) :=
  let out := Recoverable.highestOut journal
  let inb := Recoverable.highestIn journal
  let lastActiveMs := Recoverable.lastActive journal
  if out.isNone && inb.isNone && lastActiveMs.isNone then none
  else some ⟨journal, after out, after inb, lastActiveMs⟩

/-- The session a new process builds from a journal: resumed, or a new one. -/
def rebuilt (P : Params) (cfg : Config) (journal : J) : Session :=
  match fromJournal journal with
  | none => .new P cfg
  | some r =>
    match r.lastActiveMs with
    | none => .resume P cfg r.nextOut r.nextIn
    | some mark => .resumeAt P cfg r.nextOut r.nextIn mark

theorem rebuilt_nextOut (P : Params) (cfg : Config) (journal : J) :
    (rebuilt P cfg journal).nextOut = after (Recoverable.highestOut journal) := by
  unfold rebuilt fromJournal
  dsimp only
  split
  · rename_i h
    split at h
    · rename_i known
      obtain ⟨⟨out, -⟩, -⟩ : (_ ∧ _) ∧ _ := by simpa using known
      rw [out]
      rfl
    · cases h
  · rename_i r h
    split at h
    · cases h
    · obtain rfl := Option.some.inj h
      split <;> rfl

theorem rebuilt_nextIn (P : Params) (cfg : Config) (journal : J) :
    (rebuilt P cfg journal).nextIn = after (Recoverable.highestIn journal) := by
  unfold rebuilt fromJournal
  dsimp only
  split
  · rename_i h
    split at h
    · rename_i known
      obtain ⟨⟨-, inb⟩, -⟩ : (_ ∧ _) ∧ _ := by simpa using known
      rw [inb]
      rfl
    · cases h
  · rename_i r h
    split at h
    · cases h
    · obtain rfl := Option.some.inj h
      split <;> rfl

end Resumed

end Fixbolt
