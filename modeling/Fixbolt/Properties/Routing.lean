import Fixbolt.Engine.Shard
import Fixbolt.Properties.Scanning

/-!
# The shard of a Logon

The registry is asked about the identity in the Logon, and the route about the first fields of that
name in all that was read. The comp IDs are the Logon's, since it names both. A sub-ID that the Logon
does not carry is taken from what the counterparty sent behind it.

* `fieldValue_append`: a scan over a message and what stands behind it;
* `settled_spec`: what a socket that has settled went through;
* `routed_iff`: when the route is asked about the Logon's own identity.
-/

namespace Fixbolt

variable {msg front rest tag : Bytes} {pieces : List Bytes}

/-! ### A scan over a message and more -/

/-- All bytes are pieces with separators behind them, and a rest that has none. -/
theorem ended_rest (w : Bytes) : ∃ pieces rest, w = ended pieces ++ rest ∧
    (∀ piece ∈ pieces, SOH ∉ piece) ∧ SOH ∉ rest := by
  obtain ⟨whole, clean⟩ := splitOn_ended w
  have some_ : w.splitOn SOH ≠ [] := List.splitOn_ne_nil SOH w
  obtain ⟨pieces, rest, eq⟩ := List.eq_nil_or_concat' (w.splitOn SOH) |>.resolve_left some_
  rw [eq] at whole clean
  refine ⟨pieces, rest, ?_, fun x mem => clean x (by simp [mem]), clean rest (by simp)⟩
  have flat : ended (pieces ++ [rest]) = ended pieces ++ rest ++ [SOH] := by simp [ended]
  rw [flat] at whole
  exact (List.append_cancel_right whole).symm

theorem fieldValue_ended (clean : ∀ piece ∈ pieces, SOH ∉ piece) (open_ : SOH ∉ rest) :
    fieldValue (ended pieces ++ rest) tag = pieces.findSome? tag.isPrefixOf? := by
  show fieldValueLoop _ _ ((ended pieces ++ rest).length + 1) 0 = _
  refine fieldValueLoop_pieces rfl clean open_ ?_
  have := length_le_ended pieces
  rw [List.length_append]
  omega

/-- **The first field of a message, or of what stands behind it.** -/
theorem fieldValue_append : fieldValue (front ++ [SOH] ++ rest) tag =
    (fieldValue (front ++ [SOH]) tag).or (fieldValue rest tag) := by
  obtain ⟨flat, clean⟩ := splitOn_ended front
  obtain ⟨pieces, open_, rfl, clean', noSoh⟩ := ended_rest rest
  have whole : ended (front.splitOn SOH) ++ (ended pieces ++ open_) =
      ended (front.splitOn SOH ++ pieces) ++ open_ := by
    simp [ended]
  have alone : fieldValue (ended (front.splitOn SOH) ++ []) tag = _ :=
    fieldValue_ended clean List.not_mem_nil
  rw [List.append_nil, flat] at alone
  rw [← flat, whole, flat, alone, fieldValue_ended clean' noSoh, fieldValue_ended _ noSoh,
    List.findSome?_append]
  intro piece mem
  rcases List.mem_append.mp mem with mem | mem
  · exact clean piece mem
  · exact clean' piece mem

/-! ### A socket that has settled -/

/-- A message that was cut ends with a separator. -/
theorem Framer.cut_ends {n k : ℕ} {f : Framer n} (cut : f.cut = .message k) :
    ∃ front, f.bytes k = front ++ [SOH] := by
  unfold Framer.cut at cut
  dsimp only at cut
  split at cut
  · cases cut
  split at cut
  · split at cut <;> cases cut
  split at cut
  · split at cut <;> cases cut
  split at cut
  · cases cut
  split at cut
  · split at cut <;> cases cut
  split at cut
  · cases cut
  split at cut
  · rename_i found
    obtain rfl := Cut.message.inj cut
    obtain ⟨inside, is, -⟩ := List.findIdx?_eq_some_iff_getElem.mp found
    rw [List.getElem_drop] at is
    rw [List.length_drop] at inside
    have last := List.take_succ_eq_append_getElem (Nat.add_lt_of_lt_sub' inside)
    rw [eq_of_beq is] at last
    exact ⟨_, last⟩
  · split at cut <;> cases cut

namespace Pending

variable {PRE : ℕ} {registry : Registry} {nowMs : ℕ} {recv : Recv} {slot p : Pending PRE}

/-- The Logon of a socket that has settled. -/
def logon (p : Pending PRE) : Bytes := p.settled.elim [] fun (n, _) => p.rx.bytes n

/-- What was read behind it. -/
def behind (p : Pending PRE) : Bytes := p.settled.elim [] fun (n, _) => p.rx.buf.drop n

/-- Is the route asked about the Logon alone? Each sub-ID is in the Logon, or in no whole field of
what was read behind it. -/
def Alone (p : Pending PRE) : Prop :=
  ∀ tag ∈ [ascii "50=", ascii "57="],
    (fieldValue p.logon tag).isSome ∨ fieldValue p.behind tag = none

instance (p : Pending PRE) : Decidable p.Alone :=
  inferInstanceAs (Decidable (∀ tag ∈ [ascii "50=", ascii "57="], _))

theorem judge_settled (settled : (p.judge registry nowMs).1 = .settled) :
    ∃ n cfg id, (p.judge registry nowMs).2 = { p with settled := some (n, cfg) } ∧
      p.rx.cut = .message n ∧ identityOf (p.rx.bytes n) = some id ∧
        registry id (p.rx.bytes n) = some cfg := by
  unfold judge at settled ⊢
  split at settled
  · rename_i n cut
    dsimp only at settled
    split at settled
    · cases settled
    · rename_i logon
      split at settled
      · cases settled
      · rename_i cfg found
        obtain ⟨id, read, known⟩ := Option.bind_eq_some_iff.mp found
        rw [if_neg logon]
        exact ⟨n, cfg, id, by rw [found], cut, read, known⟩
  · cases settled
  · split at settled <;> cases settled

/-- **What a socket that has settled went through**: a whole message was cut, and the registry knows
the identity in it. -/
theorem settled_spec (settled : (slot.advance registry nowMs recv).1 = .settled) :
    ∃ front cfg id, (slot.advance registry nowMs recv).2.logon = front ++ [SOH] ∧
      (slot.advance registry nowMs recv).2.bytes = (slot.advance registry nowMs recv).2.logon ++
        (slot.advance registry nowMs recv).2.behind ∧
      (slot.advance registry nowMs recv).2.identity =
        identityOf (slot.advance registry nowMs recv).2.logon ∧
      (slot.advance registry nowMs recv).2.identity = some id ∧
      registry id (slot.advance registry nowMs recv).2.logon = some cfg := by
  have judged {q : Pending PRE} (settled : (q.judge registry nowMs).1 = .settled) :
      ∃ front cfg id, (q.judge registry nowMs).2.logon = front ++ [SOH] ∧
        (q.judge registry nowMs).2.bytes =
          (q.judge registry nowMs).2.logon ++ (q.judge registry nowMs).2.behind ∧
        (q.judge registry nowMs).2.identity = identityOf (q.judge registry nowMs).2.logon ∧
        (q.judge registry nowMs).2.identity = some id ∧
        registry id (q.judge registry nowMs).2.logon = some cfg := by
    obtain ⟨n, cfg, id, eq, cut, read, known⟩ := judge_settled settled
    obtain ⟨front, ends⟩ := Framer.cut_ends cut
    rw [eq]
    exact ⟨front, cfg, id, ends, (List.take_append_drop n q.rx.buf).symm, rfl, read, known⟩
  unfold advance at settled ⊢
  split at settled
  · rename_i full
    rw [if_pos full]
    exact judged settled
  · rename_i room
    rw [if_neg room]
    cases recv with
    | ready got => exact judged settled
    | idle => exact judged settled
    | ended refused => cases refused <;> cases settled

/-! ### The identity the route is asked about -/

/-- All that was read names the two sides that the Logon names, and sub-IDs of its own or behind it. -/
theorem asked_eq {id : Identity} (ends : p.logon = front ++ [SOH])
    (whole : p.bytes = p.logon ++ p.behind) (read : identityOf p.logon = some id) :
    Shards.asked p = some { id with
      senderSub := id.senderSub.or (fieldValue p.behind (ascii "50="))
      targetSub := id.targetSub.or (fieldValue p.behind (ascii "57=")) } := by
  have either (tag : Bytes) :
      fieldValue p.bytes tag = (fieldValue p.logon tag).or (fieldValue p.behind tag) := by
    rw [whole, ends, fieldValue_append]
  obtain ⟨sender, at49, read⟩ := Option.bind_eq_some_iff.mp read
  obtain ⟨target, at56, read⟩ := Option.bind_eq_some_iff.mp read
  obtain rfl := Option.some.inj read
  unfold Shards.asked identityOf
  rw [either, either, either, either, at49, at56]
  rfl

theorem or_eq_self {α : Type*} {x y : Option α} : x.or y = x ↔ x.isSome ∨ y = none := by
  cases x <;> simp

/-- **The route is asked about the Logon's identity exactly when each sub-ID is the Logon's or
nobody's.** -/
theorem asked_iff {id : Identity} (ends : p.logon = front ++ [SOH])
    (whole : p.bytes = p.logon ++ p.behind) (same : p.identity = identityOf p.logon)
    (read : p.identity = some id) : Shards.asked p = p.identity ↔ p.Alone := by
  have subs : id.senderSub = fieldValue p.logon (ascii "50=") ∧
      id.targetSub = fieldValue p.logon (ascii "57=") := by
    obtain ⟨sender, -, eq⟩ := Option.bind_eq_some_iff.mp (same ▸ read)
    obtain ⟨target, -, eq⟩ := Option.bind_eq_some_iff.mp eq
    obtain rfl := Option.some.inj eq
    exact ⟨rfl, rfl⟩
  rw [asked_eq ends whole (same ▸ read), read, Option.some.injEq, Alone, List.forall_mem_cons,
    List.forall_mem_singleton, ← subs.1, ← subs.2, ← or_eq_self, ← or_eq_self]
  constructor
  · intro eq
    exact ⟨congrArg Identity.senderSub eq, congrArg Identity.targetSub eq⟩
  · rintro ⟨sender, target⟩
    rw [sender, target]

end Pending

namespace HashRoute

/-- It answers with one of the shards. -/
theorem shardFor_lt {shards : ℕ} (id : Identity) (some_ : 0 < shards) :
    shardFor id shards < shards := by
  rw [shardFor, if_neg (Nat.ne_of_gt some_)]
  exact Nat.mod_lt _ some_

/-- The sub-IDs do not enter. -/
theorem shardFor_congr {id id' : Identity} {shards : ℕ} (sender : id.sender = id'.sender)
    (target : id.target = id'.target) : shardFor id shards = shardFor id' shards := by
  unfold shardFor
  rw [sender, target]

end HashRoute

namespace Shards

variable {PRE : ℕ} {registry : Registry} {nowMs : ℕ} {recv : Recv} {p p' : Pending PRE}

/-- Where a connection goes depends on it only by the identity that the route is asked about. -/
theorem handStarted_congr {s : Shards PRE} (same : asked p = asked p') :
    (s.handStarted p).1 = (s.handStarted p').1 := by
  unfold handStarted
  dsimp only
  rw [same]
  cases asked p' with
  | none => rfl
  | some id =>
    dsimp only
    split
    · rfl
    · split <;> rfl

/-- What a settled connection can rely on. -/
structure Routed (registry : Registry) (p : Pending PRE) : Prop where
  /-- The registry knows the identity in the Logon. -/
  known : ∃ id cfg, p.identity = some id ∧ registry id p.logon = some cfg
  /-- The route is asked about that one, if no sub-ID is found behind the Logon only. -/
  asked_iff : asked p = p.identity ↔ p.Alone
  /-- `HashRoute` is asked about its comp IDs at any rate. -/
  hashed : ∀ id ∈ p.identity, ∃ id' ∈ asked p, id'.sender = id.sender ∧ id'.target = id.target

theorem routed {slot : Pending PRE} (settled : (slot.advance registry nowMs recv).1 = .settled) :
    Routed registry (slot.advance registry nowMs recv).2 := by
  obtain ⟨front, cfg, id, ends, whole, same, read, known⟩ := Pending.settled_spec settled
  refine ⟨⟨id, cfg, read, known⟩, Pending.asked_iff ends whole same read, fun id' mem => ?_⟩
  obtain rfl := Option.some.inj (read.symm.trans mem)
  exact ⟨_, Pending.asked_eq ends whole (same ▸ read), rfl, rfl⟩

/-- `HashRoute` sends two connections that name the same comp IDs to one shard. -/
theorem handStarted_hash {s : Shards PRE} {id id' : Identity} (hash : s.route = hashRoute)
    (of : asked p = some id) (of' : asked p' = some id') (sender : id.sender = id'.sender)
    (target : id.target = id'.target) : (s.handStarted p).1 = (s.handStarted p').1 := by
  obtain ⟨senders, route, state⟩ := s
  obtain rfl : route = hashRoute := hash
  unfold handStarted hashRoute
  dsimp only
  rw [of, of']
  dsimp only
  rw [HashRoute.shardFor_congr sender target]
  split
  · rfl
  · split <;> rfl

/-- **A connection is routed by its Logon alone exactly when each sub-ID is in the Logon, or in no
whole field that was read behind it.** Two connections with one Logon of which this is so reach one
shard; by `HashRoute` any two do, and it answers with one of the shards and looks at the comp IDs
only. -/
theorem routed_iff (PRE : ℕ) :
    (∀ registry nowMs recv (slot : Pending PRE), (slot.advance registry nowMs recv).1 = .settled →
      Routed registry (slot.advance registry nowMs recv).2) ∧
    (∀ registry nowMs nowMs' recv recv' (slot slot' : Pending PRE),
      (slot.advance registry nowMs recv).1 = .settled →
      (slot'.advance registry nowMs' recv').1 = .settled →
      (slot.advance registry nowMs recv).2.logon = (slot'.advance registry nowMs' recv').2.logon →
      ∀ s : Shards PRE, s.route = hashRoute ∨ (slot.advance registry nowMs recv).2.Alone ∧
        (slot'.advance registry nowMs' recv').2.Alone →
        (s.handStarted (slot.advance registry nowMs recv).2).1 =
          (s.handStarted (slot'.advance registry nowMs' recv').2).1) ∧
    ∀ shards, 0 < shards → ∀ id, HashRoute.shardFor id shards < shards ∧
      ∀ id' : Identity, id'.sender = id.sender → id'.target = id.target →
        HashRoute.shardFor id' shards = HashRoute.shardFor id shards := by
  refine ⟨fun registry nowMs recv slot settled => routed settled, ?_, fun shards some_ id =>
    ⟨HashRoute.shardFor_lt id some_, fun id' sender target =>
      HashRoute.shardFor_congr sender target⟩⟩
  intro registry nowMs nowMs' recv recv' slot slot' settled settled' one s policy
  obtain ⟨front, cfg, id, -, -, same, read, -⟩ := Pending.settled_spec settled
  obtain ⟨front', cfg', id', -, -, same', read', -⟩ := Pending.settled_spec settled'
  have identity : (slot.advance registry nowMs recv).2.identity =
      (slot'.advance registry nowMs' recv').2.identity := by
    rw [same, same', one]
  have first := routed settled
  have second := routed settled'
  rcases policy with hash | ⟨alone, alone'⟩
  · obtain rfl : id = id' := Option.some.inj (read.symm.trans (identity.trans read'))
    obtain ⟨a, asked, sender, target⟩ := first.hashed id read
    obtain ⟨b, asked', sender', target'⟩ := second.hashed id read'
    exact handStarted_hash hash asked asked' (sender.trans sender'.symm) (target.trans target'.symm)
  · exact handStarted_congr
      ((first.asked_iff.mpr alone).trans (identity.trans (second.asked_iff.mpr alone').symm))

/-- A Logon without sub-IDs. -/
def bareLogon : Bytes :=
  ascii "8=F" ++ SOH :: ascii "9=15" ++ SOH :: ascii "35=A" ++ SOH :: ascii "49=A" ++ SOH ::
    ascii "56=B" ++ SOH :: ascii "10=000" ++ [SOH]

/-- A field of the next message. -/
def nextSub : Bytes := ascii "8=F" ++ SOH :: ascii "50=X" ++ [SOH]

/-- A socket that nothing was read from. -/
def fresh : Pending 64 := ⟨⟨0, []⟩, .new 64, 1000, none⟩

def anyone : Registry := fun _ _ => some (Config.acceptor (ascii "F") (ascii "B") (ascii "A"))

theorem routed_iff_bare : Routed anyone (fresh.advance anyone 0 (.ready bareLogon)).2 ∧
    (fresh.advance anyone 0 (.ready bareLogon)).2.Alone ∧
    HashRoute.shardFor ⟨ascii "A", ascii "B", none, none⟩ 4 < 4 :=
  have all := routed_iff 64
  ⟨all.1 anyone 0 (.ready bareLogon) fresh (by decide +kernel), by decide +kernel,
    (all.2.2 4 (by decide) _).1⟩

/-- **A sub-ID behind the Logon is taken for the Logon's.** -/
theorem routed_by_what_follows : ¬ ∀ (registry : Registry) nowMs recv (slot : Pending 64),
    (slot.advance registry nowMs recv).1 = .settled →
      asked (slot.advance registry nowMs recv).2 = (slot.advance registry nowMs recv).2.identity := by
  intro alone
  have same := alone anyone 0 (.ready (bareLogon ++ nextSub)) fresh (by decide +kernel)
  revert same
  decide +kernel

end Shards

end Fixbolt
