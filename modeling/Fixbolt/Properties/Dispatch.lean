import Fixbolt.Engine.Dispatch
import Fixbolt.Properties.Ring

/-!
# What goes through the application's rings

Each ring is a queue, and each end reads into `M` bytes: a record that is longer than that was
accepted and is dropped. So a message arrives when it has room for its header beside it, and so does
a reply, and nothing else is lost.

* `Exchange.Good`: the two queues, and how far each end is;
* `Exchange.good_step`: a step of either thread keeps that;
* `dispatch_lossless`: what arrives, when every record fits.
-/

namespace Fixbolt

namespace Delivery

/-- A delivery as the application reads it. -/
def arriving (d : Delivery) : Delivery := { d with stamp := stampField d.stamp }

theorem stampField_length (stamp : Bytes) : (stampField stamp).length = stampLen := by
  rw [stampField, List.length_append, List.length_take, List.length_replicate]
  omega

theorem fixed_length (d : Delivery) : d.fixed.length = outHeader := by
  simp only [fixed, List.length_append, toLe_length, List.length_singleton, stampField_length]
  rfl

theorem record_length (d : Delivery) : d.record.length = outHeader + d.msg.length := by
  rw [record, List.length_append, fixed_length]

theorem ofNat_toLe_conn (conn : UInt64) : UInt64.ofNat (ofLe (toLe 8 conn.toNat)) = conn := by
  rw [ofLe_toLe conn.toNat_lt, UInt64.ofNat_toNat]

theorem ofNat_toLe_seq (seq : UInt32) : UInt32.ofNat (ofLe (toLe 4 seq.toNat)) = seq := by
  rw [ofLe_toLe seq.toNat_lt, UInt32.ofNat_toNat]

/-- A field of a record, behind `n` bytes. -/
theorem take_field {xs ys zs : Bytes} {n k : ℕ} (behind : xs.length = n) (long : ys.length = k) :
    ((xs ++ (ys ++ zs)).drop n).take k = ys := by
  rw [List.drop_left' behind, List.take_left' long]

/-- Whether the last processed number is in a record. -/
def hasLast (d : Delivery) : UInt8 := if d.lastProcessed.isSome then 1 else 0

/-- A record, field behind field. -/
theorem record_eq (d : Delivery) : d.record = toLe connLen d.conn.toNat ++
    (toLe seqLen d.seq.toNat ++ ([d.hasLast] ++
      (toLe lastProcessedLen (d.lastProcessed.getD 0).toNat ++ (stampField d.stamp ++ d.msg)))) := by
  simp only [record, fixed, hasLast, List.append_assoc]

theorem read_lastProcessed (d : Delivery) : (read d.record).lastProcessed = d.lastProcessed := by
  have front : d.record = (toLe connLen d.conn.toNat ++ toLe seqLen d.seq.toNat) ++
      (d.hasLast :: (toLe lastProcessedLen (d.lastProcessed.getD 0).toNat ++
        (stampField d.stamp ++ d.msg))) := by
    rw [record_eq, List.append_assoc]
    rfl
  have flag : d.record[outHasLast]? = some d.hasLast := by
    rw [front, List.getElem?_append_right (by simp [connLen, seqLen, outHasLast, outSeq, outConn])]
    simp [connLen, seqLen, outHasLast, outSeq, outConn]
  have bytes : (d.record.drop outLastProcessed).take lastProcessedLen =
      toLe lastProcessedLen (d.lastProcessed.getD 0).toNat := by
    have : d.record = (toLe connLen d.conn.toNat ++ toLe seqLen d.seq.toNat ++ [d.hasLast]) ++
        (toLe lastProcessedLen (d.lastProcessed.getD 0).toNat ++ (stampField d.stamp ++ d.msg)) := by
      rw [front]
      simp only [List.append_assoc, List.cons_append, List.nil_append]
    rw [this]
    exact take_field (by simp [connLen, seqLen, outLastProcessed, outHasLast, outSeq, outConn,
      hasLastLen]) (toLe_length _ _)
  unfold read
  dsimp only
  rw [flag, bytes, lastProcessedLen, ofNat_toLe_seq, hasLast]
  cases d.lastProcessed with
  | none => rfl
  | some n => rfl

/-- What was sent is what is read. -/
theorem read_record (d : Delivery) : read d.record = d.arriving := by
  have conn : (read d.record).conn = d.conn := by
    show UInt64.ofNat (ofLe ((d.record.drop 0).take connLen)) = _
    rw [record_eq, List.drop_zero, List.take_left' (toLe_length _ _), connLen, ofNat_toLe_conn]
  have seq : (read d.record).seq = d.seq := by
    show UInt32.ofNat (ofLe ((d.record.drop connLen).take seqLen)) = _
    rw [record_eq, take_field (toLe_length _ _) (toLe_length _ _), seqLen, ofNat_toLe_seq]
  have stamp : (read d.record).stamp = stampField d.stamp := by
    have split : d.record = (toLe connLen d.conn.toNat ++ toLe seqLen d.seq.toNat ++ [d.hasLast] ++
        toLe lastProcessedLen (d.lastProcessed.getD 0).toNat) ++ (stampField d.stamp ++ d.msg) := by
      rw [record_eq]
      simp only [List.append_assoc]
    show (d.record.drop outStamp).take stampLen = _
    rw [split]
    exact take_field (by simp [connLen, seqLen, outStamp, outLastProcessed, outHasLast, outSeq,
      outConn, hasLastLen, lastProcessedLen]) (stampField_length _)
  have msg : (read d.record).msg = d.msg := List.drop_left' d.fixed_length
  show Delivery.mk (read d.record).conn (read d.record).seq (read d.record).stamp
    (read d.record).lastProcessed (read d.record).msg = _
  rw [conn, seq, stamp, read_lastProcessed, msg]
  rfl

end Delivery

theorem reply_length (conn : UInt64) (bytes : Bytes) :
    (reply conn bytes).length = backHeader + bytes.length := by
  rw [reply, List.length_append, toLe_length]

namespace Exchange

open Fixbolt.Ring

/-- Does a message reach the handler, once the ring has it? -/
def arrives (M : ℕ) (d : Delivery) : Bool := outHeader + d.msg.length ≤ M

/-- Does a reply reach the engine, once the ring has it? -/
def returns (M : ℕ) (r : Delivery × Bytes) : Bool := backHeader + r.2.length ≤ M

/-- A reply as the ring holds it. -/
def replyRecord (r : Delivery × Bytes) : Bytes := reply r.1.conn r.2

/-- A reply as the engine gets it. -/
def tagged (r : Delivery × Bytes) : UInt64 × Bytes := (r.1.conn, r.2)

/-- Where the engine's thread is in its push. -/
def EngineAt (ring : Ring) : RingDispatch → Prop
  | .delivering d => ∃ done, ring.producer = .writing d.record done
  | _ => ring.producer = .idle

/-- Where the application's thread is in its push. -/
def AppAt (ring : Ring) : RingApp → Prop
  | .replying _ d bytes => ∃ done, ring.producer = .writing (reply d.conn bytes) done
  | _ => ring.producer = .idle

/-- The rings hold the queues `q` and `p`. -/
structure Good (M : ℕ) (x : Exchange) (q : Fifo Delivery) (p : Fifo (Delivery × Bytes)) : Prop where
  toApp : x.toApp.Good (q.map Delivery.record)
  fromApp : x.fromApp.Good (p.map replyRecord)
  toRoom : RoomIs M x.toApp.consumer
  fromRoom : RoomIs M x.fromApp.consumer
  taken : x.taken = q.pushed
  handed : x.handed = (q.popped.filter (arrives M)).map Delivery.arriving
  replied : x.replied = p.pushed
  emitted : x.emitted = (p.popped.filter (returns M)).map tagged
  dropped : x.dropped = (p.popped.filter fun r => !returns M r).length
  engine : EngineAt x.toApp x.engine
  app : AppAt x.fromApp x.app

variable {M : ℕ} {x x' : Exchange} {q : Fifo Delivery} {p : Fifo (Delivery × Bytes)}

theorem good_start (a b : ℕ) : (start a b).Good M .empty .empty where
  toApp := good_pair a
  fromApp := good_pair b
  toRoom := trivial
  fromRoom := trivial
  taken := rfl
  handed := rfl
  replied := rfl
  emitted := rfl
  dropped := rfl
  engine := rfl
  app := rfl

theorem Good.deliver {d : Delivery} (h : x.Good M q p) (idle : x.engine = .idle)
    (next : x.deliver M d = some x') : x'.Good M q p := by
  unfold Exchange.deliver at next
  split at next
  · cases next
    exact { h with }
  · obtain ⟨ring, offer, eq⟩ := Option.map_eq_some_iff.mp next
    split at eq
    · cases eq
      exact { h with }
    · rename_i busy
      cases eq
      have good := h.toApp.offer offer
      have engine := h.engine
      rw [idle] at engine
      simp only [Ring.step, show x.toApp.producer = .idle from engine] at offer
      split at offer
      · cases offer
        exact { h with toApp := good, engine := ⟨0, rfl⟩ }
      · cases offer
        exact absurd engine busy

theorem Good.answered {done : ℕ} {d : Delivery} {answer : Answer} (h : x.Good M q p)
    (idle : x.fromApp.producer = .idle) (next : x.answered M done d answer = some x') :
    x'.Good M q p := by
  cases answer with
  | silent =>
    cases next
    exact { h with app := idle }
  | beyond =>
    cases next
    exact { h with app := idle }
  | bytes bytes =>
    simp only [Exchange.answered] at next
    split at next
    · cases next
    · obtain ⟨ring, offer, eq⟩ := Option.map_eq_some_iff.mp next
      split at eq
      · cases eq
        exact { h with app := idle }
      · rename_i busy
        cases eq
        have good := h.fromApp.offer offer
        simp only [Ring.step, idle] at offer
        split at offer
        · cases offer
          exact { h with fromApp := good, app := ⟨0, rfl⟩ }
        · cases offer
          exact absurd idle busy

/-- The producer's end of a ring that the other thread read from. -/
theorem EngineAt.congr {ring ring' : Ring} {e : RingDispatch} (h : EngineAt ring e)
    (same : ring'.producer = ring.producer) : EngineAt ring' e := by
  unfold EngineAt at *
  rw [same]
  exact h

theorem AppAt.congr {ring ring' : Ring} {a : RingApp} (h : AppAt ring a)
    (same : ring'.producer = ring.producer) : AppAt ring' a := by
  unfold AppAt at *
  rw [same]
  exact h

theorem report_reply {r : Delivery × Bytes} (h : returns M r = true) :
    report (replyRecord r) M = reply r.1.conn r.2 := by
  have fits : (replyRecord r).length ≤ M := by
    rw [replyRecord, reply_length]
    exact of_decide_eq_true h
  rw [report, if_pos fits]
  rfl

theorem report_long_reply {r : Delivery × Bytes} (h : returns M r = false) :
    report (replyRecord r) M = [] := by
  have long : ¬ (replyRecord r).length ≤ M := by
    rw [replyRecord, reply_length]
    exact of_decide_eq_false h
  rw [report, if_neg long]

theorem report_delivery {d : Delivery} (h : arrives M d = true) : report d.record M = d.record := by
  rw [report, if_pos]
  rw [d.record_length]
  exact of_decide_eq_true h

theorem report_long_delivery {d : Delivery} (h : arrives M d = false) : report d.record M = [] := by
  rw [report, if_neg]
  rw [d.record_length]
  exact of_decide_eq_false h

/-- `collect` has popped a reply. -/
theorem Good.collected {ring : Ring} {r : Delivery × Bytes} {p' : Fifo (Delivery × Bytes)}
    (h : x.Good M q p) (good : ring.Good (p'.map replyRecord))
    (producer : ring.producer = x.fromApp.producer) (room : RoomIs M ring.consumer)
    (pop : p.pop? = some (r, p')) :
    (x.collected ring (.record (report (replyRecord r) M))).Good M q p' := by
  obtain ⟨pushed, popped, -⟩ := Fifo.pop?_some pop
  have app : AppAt ring x.app := h.app.congr producer
  have replied : x.replied = p'.pushed := by rw [pushed, h.replied]
  unfold Exchange.collected
  cases fits : returns M r with
  | true =>
    have long : ¬ (reply r.1.conn r.2).length < backHeader := by
      rw [reply_length]
      omega
    have conn : UInt64.ofNat (ofLe ((reply r.1.conn r.2).take backHeader)) = r.1.conn := by
      rw [reply, List.take_left' (toLe_length _ _), backHeader, Delivery.ofNat_toLe_conn]
    have bytes : (reply r.1.conn r.2).drop backHeader = r.2 := List.drop_left' (toLe_length _ _)
    dsimp only
    rw [report_reply fits, if_neg long, conn, bytes]
    refine { h with
      fromApp := good, fromRoom := room, app := app, replied := replied, emitted := ?_, dropped := ?_ }
    · show x.emitted ++ [(r.1.conn, r.2)] = _
      rw [popped, List.filter_append, List.filter_singleton, fits, List.map_append, h.emitted]
      rfl
    · show x.dropped = _
      rw [popped, List.filter_append, List.filter_singleton, fits, h.dropped]
      exact congrArg List.length (List.append_nil _).symm
  | false =>
    dsimp only
    rw [report_long_reply fits, if_pos (by decide)]
    refine { h with
      fromApp := good, fromRoom := room, app := app, replied := replied, emitted := ?_, dropped := ?_ }
    · show x.emitted = _
      rw [popped, List.filter_append, List.filter_singleton, fits, h.emitted]
      exact congrArg (List.map tagged) (List.append_nil _).symm
    · show x.dropped + 1 = _
      rw [popped, List.filter_append, List.filter_singleton, fits, List.length_append, h.dropped]
      rfl

/-- `pump` has popped a message. -/
theorem Good.pumped {ring : Ring} {d : Delivery} {q' : Fifo Delivery} {done : ℕ} (h : x.Good M q p)
    (good : ring.Good (q'.map Delivery.record)) (producer : ring.producer = x.toApp.producer)
    (room : RoomIs M ring.consumer) (pop : q.pop? = some (d, q')) (pumping : x.app = .pumping done) :
    (x.pumped done ring (.record (report d.record M))).Good M q' p := by
  obtain ⟨pushed, popped, -⟩ := Fifo.pop?_some pop
  have engine : EngineAt ring x.engine := h.engine.congr producer
  have taken : x.taken = q'.pushed := by rw [pushed, h.taken]
  unfold Exchange.pumped
  cases fits : arrives M d with
  | true =>
    have long : ¬ d.record.length < outHeader := by
      rw [d.record_length]
      omega
    dsimp only
    rw [report_delivery fits, if_neg long, d.read_record]
    have app := h.app
    rw [pumping] at app
    refine { h with
      toApp := good, toRoom := room, engine := engine, taken := taken, handed := ?_, app := app }
    show x.handed ++ [d.arriving] = _
    rw [popped, List.filter_append, List.filter_singleton, fits, List.map_append, h.handed]
    rfl
  | false =>
    dsimp only
    rw [report_long_delivery fits, if_pos (by decide)]
    refine { h with toApp := good, toRoom := room, engine := engine, taken := taken, handed := ?_ }
    show x.handed = _
    rw [popped, List.filter_append, List.filter_singleton, fits, h.handed]
    exact congrArg (List.map Delivery.arriving) (List.append_nil _).symm

theorem Good.engineStep (h : x.Good M q p) (next : x.engineStep M = some x') :
    ∃ q' p', x'.Good M q' p' := by
  unfold Exchange.engineStep at next
  split at next
  · cases next
  · rename_i d delivering
    obtain ⟨⟨ring, last⟩, pushing, eq⟩ := Option.map_eq_some_iff.mp next
    have engine := h.engine
    rw [delivering] at engine
    obtain ⟨done, writing⟩ := engine
    obtain ⟨consumer, -, outcome⟩ := h.toApp.pushing writing pushing
    have room : RoomIs M ring.consumer := by
      rw [consumer]
      exact h.toRoom
    cases last with
    | true =>
      cases eq
      obtain ⟨good, idle⟩ := outcome
      refine ⟨q.push d, p, { h with
        toApp := ?_, toRoom := room, taken := ?_, handed := ?_, engine := idle }⟩
      · rw [Fifo.map_push]
        exact good
      · exact congrArg (· ++ [d]) h.taken
      · rw [Fifo.popped_push]
        exact h.handed
    | false =>
      cases eq
      obtain ⟨good, writing'⟩ := outcome
      refine ⟨q, p, { h with toApp := good, toRoom := room, engine := ?_ }⟩
      show EngineAt ring x.engine
      rw [delivering]
      exact ⟨done + 1, writing'⟩
  · rename_i collecting
    obtain ⟨⟨ring, popping⟩, popped, rfl⟩ := Option.map_eq_some_iff.mp next
    obtain ⟨producer, -, room, outcome⟩ := h.fromApp.popping h.fromRoom popped
    have app : AppAt ring x.app := h.app.congr producer
    cases popping with
    | more => exact ⟨q, p, { h with fromApp := outcome, fromRoom := room, app := app }⟩
    | empty =>
      have engine := h.engine
      rw [collecting] at engine
      exact ⟨q, p, { h with fromApp := outcome.1, fromRoom := room, app := app, engine := engine }⟩
    | record bytes =>
      obtain ⟨record, p', pop, rfl, good⟩ := outcome
      obtain ⟨r, p', taken, rfl, rfl⟩ := Fifo.pop?_map pop
      exact ⟨q, p', h.collected good producer room taken⟩

theorem Good.appStep (h : x.Good M q p) (next : x.appStep M = some x') :
    ∃ q' p', x'.Good M q' p' := by
  unfold Exchange.appStep at next
  split at next
  · cases next
  · rename_i done pumping
    obtain ⟨⟨ring, popping⟩, popped, rfl⟩ := Option.map_eq_some_iff.mp next
    obtain ⟨producer, -, room, outcome⟩ := h.toApp.popping h.toRoom popped
    have engine : EngineAt ring x.engine := h.engine.congr producer
    cases popping with
    | more => exact ⟨q, p, { h with toApp := outcome, toRoom := room, engine := engine }⟩
    | empty =>
      have app := h.app
      rw [pumping] at app
      exact ⟨q, p, { h with toApp := outcome.1, toRoom := room, engine := engine, app := app }⟩
    | record bytes =>
      obtain ⟨record, q', pop, rfl, good⟩ := outcome
      obtain ⟨d, q', taken, rfl, rfl⟩ := Fifo.pop?_map pop
      exact ⟨q', p, h.pumped good producer room taken pumping⟩
  · cases next
  · rename_i done d bytes replying
    obtain ⟨⟨ring, last⟩, pushing, eq⟩ := Option.map_eq_some_iff.mp next
    have app := h.app
    rw [replying] at app
    obtain ⟨written, writing⟩ := app
    obtain ⟨consumer, -, outcome⟩ := h.fromApp.pushing writing pushing
    have room : RoomIs M ring.consumer := by
      rw [consumer]
      exact h.fromRoom
    cases last with
    | true =>
      cases eq
      obtain ⟨good, idle⟩ := outcome
      refine ⟨q, p.push (d, bytes), { h with
        fromApp := ?_, fromRoom := room, replied := ?_, emitted := ?_, dropped := ?_, app := idle }⟩
      · rw [Fifo.map_push]
        exact good
      · exact congrArg (· ++ [(d, bytes)]) h.replied
      · rw [Fifo.popped_push]
        exact h.emitted
      · rw [Fifo.popped_push]
        exact h.dropped
    | false =>
      cases eq
      obtain ⟨good, writing'⟩ := outcome
      refine ⟨q, p, { h with fromApp := good, fromRoom := room, app := ?_ }⟩
      show AppAt ring x.app
      rw [replying]
      exact ⟨written + 1, writing'⟩

/-- A step of either thread keeps the queues. -/
theorem good_step {a : Act} (h : x.Good M q p) (next : x.step M a = some x') :
    ∃ q' p', x'.Good M q' p' := by
  cases a with
  | deliver d =>
    simp only [step] at next
    split at next
    · rename_i idle
      exact ⟨q, p, h.deliver idle next⟩
    · cases next
  | collect =>
    simp only [step] at next
    split at next
    · rename_i idle
      cases next
      have engine := h.engine
      rw [idle] at engine
      exact ⟨q, p, { h with engine := engine }⟩
    · cases next
  | takeRefusal =>
    simp only [step] at next
    split at next
    · cases next
      exact ⟨q, p, { h with }⟩
    · cases next
  | engine => exact h.engineStep next
  | pump =>
    simp only [step] at next
    split at next
    · rename_i idle
      cases next
      have app := h.app
      rw [idle] at app
      exact ⟨q, p, { h with app := app }⟩
    · cases next
  | answer answer =>
    simp only [step] at next
    split at next
    · rename_i handling
      have app := h.app
      rw [handling] at app
      exact ⟨q, p, h.answered app next⟩
    · cases next
  | app => exact h.appStep next

/-- No message and no reply of a step is one that a ring takes and its reader has no room for. -/
def Act.Roomy (M : ℕ) (x : Exchange) : Act → Prop
  | .deliver d => d.msg.length ≤ M → fits x.toApp.shared d.record.length → arrives M d = true
  | .answer (.bytes bytes) =>
    fits x.fromApp.shared (backHeader + bytes.length) → backHeader + bytes.length ≤ M
  | _ => True

/-- No step of a run is one. -/
def RoomyRun (M : ℕ) (x : Exchange) : List Act → Prop
  | [] => True
  | a :: as => a.Roomy M x ∧ ∀ x', x.step M a = some x' → x'.RoomyRun M as

/-- The message being pushed has room. -/
def EngineFits (M : ℕ) : RingDispatch → Prop
  | .delivering d => arrives M d = true
  | _ => True

def AppFits (M : ℕ) : RingApp → Prop
  | .replying _ d bytes => returns M (d, bytes) = true
  | _ => True

/-- All that was taken has room where it is read. -/
structure Fits (M : ℕ) (x : Exchange) : Prop where
  taken : ∀ d ∈ x.taken, arrives M d = true
  replied : ∀ r ∈ x.replied, returns M r = true
  engine : EngineFits M x.engine
  app : AppFits M x.app

/-- A push that was begun is one there was room for. -/
theorem fits_of_offer {ring ring' : Ring} {record : Bytes}
    (offer : ring.step (.offer record) = some ring') (busy : ring'.producer ≠ .idle) :
    fits ring.shared record.length = true := by
  simp only [Ring.step] at offer
  split at offer
  · rename_i idle
    split at offer
    · rename_i fit
      exact fit.2
    · cases offer
      exact absurd idle busy
  · cases offer

theorem Fits.deliver {d : Delivery} (h : x.Fits M) (roomy : Act.Roomy M x (.deliver d))
    (next : x.deliver M d = some x') : x'.Fits M := by
  unfold Exchange.deliver at next
  split at next
  · cases next
    exact { h with }
  · rename_i short
    obtain ⟨ring, offer, eq⟩ := Option.map_eq_some_iff.mp next
    split at eq
    · cases eq
      exact { h with }
    · rename_i busy
      cases eq
      exact { h with engine := roomy (Nat.not_lt.mp short) (fits_of_offer offer busy) }

theorem Fits.answered {done : ℕ} {d : Delivery} {answer : Answer} (h : x.Fits M)
    (roomy : Act.Roomy M x (.answer answer)) (next : x.answered M done d answer = some x') :
    x'.Fits M := by
  cases answer with
  | silent =>
    cases next
    exact { h with app := trivial }
  | beyond =>
    cases next
    exact { h with app := trivial }
  | bytes bytes =>
    simp only [Exchange.answered] at next
    split at next
    · cases next
    · obtain ⟨ring, offer, eq⟩ := Option.map_eq_some_iff.mp next
      split at eq
      · cases eq
        exact { h with app := trivial }
      · rename_i busy
        cases eq
        have room := fits_of_offer offer busy
        rw [reply_length] at room
        exact { h with app := decide_eq_true (roomy room) }

theorem Fits.engineStep (h : x.Fits M) (next : x.engineStep M = some x') : x'.Fits M := by
  unfold Exchange.engineStep at next
  split at next
  · cases next
  · rename_i d delivering
    obtain ⟨⟨ring, last⟩, -, eq⟩ := Option.map_eq_some_iff.mp next
    have engine := h.engine
    rw [delivering] at engine
    cases last with
    | true =>
      cases eq
      refine { h with taken := ?_, engine := trivial }
      intro d' mem
      rcases List.mem_append.mp mem with mem | mem
      · exact h.taken d' mem
      · rw [List.mem_singleton.mp mem]
        exact engine
    | false =>
      cases eq
      exact { h with }
  · obtain ⟨⟨ring, popping⟩, -, rfl⟩ := Option.map_eq_some_iff.mp next
    cases popping with
    | more => exact { h with }
    | empty => exact { h with engine := trivial }
    | record bytes =>
      unfold Exchange.collected
      dsimp only
      split
      · exact { h with }
      · exact { h with }

theorem Fits.appStep (h : x.Fits M) (next : x.appStep M = some x') : x'.Fits M := by
  unfold Exchange.appStep at next
  split at next
  · cases next
  · obtain ⟨⟨ring, popping⟩, -, rfl⟩ := Option.map_eq_some_iff.mp next
    cases popping with
    | more => exact { h with }
    | empty => exact { h with app := trivial }
    | record bytes =>
      unfold Exchange.pumped
      dsimp only
      split
      · exact { h with }
      · exact { h with app := trivial }
  · cases next
  · rename_i done d bytes replying
    obtain ⟨⟨ring, last⟩, -, eq⟩ := Option.map_eq_some_iff.mp next
    have app := h.app
    rw [replying] at app
    cases last with
    | true =>
      cases eq
      refine { h with replied := ?_, app := trivial }
      intro r mem
      rcases List.mem_append.mp mem with mem | mem
      · exact h.replied r mem
      · rw [List.mem_singleton.mp mem]
        exact app
    | false =>
      cases eq
      exact { h with }

theorem fits_step {a : Act} (h : x.Fits M) (roomy : a.Roomy M x) (next : x.step M a = some x') :
    x'.Fits M := by
  cases a with
  | engine => exact h.engineStep next
  | app => exact h.appStep next
  | deliver d =>
    simp only [step] at next
    split at next
    · exact h.deliver roomy next
    · cases next
  | answer answer =>
    simp only [step] at next
    split at next
    · exact h.answered roomy next
    · cases next
  | collect =>
    simp only [step] at next
    split at next
    · cases next
      exact { h with engine := trivial }
    · cases next
  | takeRefusal =>
    simp only [step] at next
    split at next
    · cases next
      exact { h with }
    · cases next
  | pump =>
    simp only [step] at next
    split at next
    · cases next
      exact { h with app := trivial }
    · cases next

/-- Everything taken was passed on in its order, but for what still lies in the ring. -/
def Lossless (x : Exchange) : Prop :=
  (∃ waiting : List Delivery, x.taken.map Delivery.arriving = x.handed ++ waiting.map Delivery.arriving ∧
    x.toApp.shared.free + (stream (waiting.map Delivery.record)).length =
      x.toApp.shared.capacity) ∧
  (∃ waiting : List (Delivery × Bytes), x.replied.map tagged = x.emitted ++ waiting.map tagged ∧
    x.fromApp.shared.free + (stream (waiting.map replyRecord)).length =
      x.fromApp.shared.capacity) ∧
  x.dropped = 0

theorem Good.lossless (h : x.Good M q p) (fits : x.Fits M) : x.Lossless := by
  have arrived : q.popped.filter (arrives M) = q.popped := by
    refine List.filter_eq_self.mpr fun d mem => fits.taken d ?_
    rw [h.taken]
    exact q.popped_prefix.mem mem
  have returned : p.popped.filter (returns M) = p.popped := by
    refine List.filter_eq_self.mpr fun r mem => fits.replied r ?_
    rw [h.replied]
    exact p.popped_prefix.mem mem
  refine ⟨⟨q.pending, ?_, ?_⟩, ⟨p.pending, ?_, ?_⟩, ?_⟩
  · rw [h.taken, h.handed, arrived, ← List.map_append, q.popped_append_pending]
  · rw [← Fifo.pending_map]
    exact h.toApp.free
  · rw [h.replied, h.emitted, returned, ← List.map_append, p.popped_append_pending]
  · rw [← Fifo.pending_map]
    exact h.fromApp.free
  · rw [h.dropped, List.length_eq_zero_iff, List.filter_eq_nil_iff]
    intro r mem
    rw [← returned] at mem
    rw [(List.mem_filter.mp mem).2]
    decide

/-- **When no message and no reply that a ring takes is longer than its reader has room for beside the
header, nothing is lost.** -/
theorem exchange_lossless {a b : ℕ} {as : List Act} (run : (start a b).runs M as = some x)
    (roomy : (start a b).RoomyRun M as) : x.Lossless := by
  suffices ∀ as x₀ q p, Exchange.Good M x₀ q p → x₀.Fits M → x₀.runs M as = some x →
      x₀.RoomyRun M as → x.Lossless from
    this as (start a b) _ _ (good_start a b)
      ⟨by rintro d ⟨⟩, by rintro r ⟨⟩, trivial, trivial⟩ run roomy
  intro as
  induction as with
  | nil =>
    intro x₀ q p good fits run _
    cases run
    exact good.lossless fits
  | cons act as ih =>
    intro x₀ q p good fits run roomy
    obtain ⟨mid, next, run⟩ := Option.bind_eq_some_iff.mp run
    obtain ⟨q', p', good'⟩ := good_step good next
    exact ih mid q' p' good' (fits_step fits roomy.1 next) run (roomy.2 mid next)

theorem roomyRun_of_forall {as : List Act} (h : ∀ act ∈ as, ∀ x, act.Roomy M x) :
    x.RoomyRun M as := by
  induction as generalizing x with
  | nil => trivial
  | cons act as ih =>
    exact ⟨h act List.mem_cons_self x, fun x' _ =>
      ih fun act mem => h act (List.mem_cons_of_mem _ mem)⟩

/-- A message of two bytes on connection 7. -/
def orderOnSeven : Delivery where
  conn := 7
  seq := 2
  stamp := List.replicate 21 48
  lastProcessed := none
  msg := [56, 61]

/-- Deliver it, and pump it with so many accesses of the ring. -/
def deliverAndPump (accesses : ℕ) : List Act :=
  .deliver orderOnSeven :: (List.replicate 45 .engine ++ .pump :: List.replicate accesses .app)

/-- With a buffer that holds the header beside it, it is handed over. -/
theorem exchange_lossless_order :
    ∃ x, (start 64 64).runs 40 (deliverAndPump 47) = some x ∧ x.handed = [orderOnSeven] ∧
      x.Lossless := by
  have run : (((start 64 64).runs 40 (deliverAndPump 47)).map fun x => x.handed) =
      some [orderOnSeven] := by
    decide +kernel
  obtain ⟨x, run, handed⟩ := Option.map_eq_some_iff.mp run
  refine ⟨x, run, handed, exchange_lossless run ?_⟩
  have all : ∀ act ∈ deliverAndPump 47, act = .deliver orderOnSeven ∨ act = .engine ∨
      act = .pump ∨ act = .app := by
    decide
  refine roomyRun_of_forall fun act mem x => ?_
  rcases all act mem with rfl | rfl | rfl | rfl
  · exact fun _ _ => by decide
  · trivial
  · trivial
  · trivial

/-- With one byte less it is taken, and then dropped. -/
theorem exchange_loses_long : ¬ ∀ (M a b : ℕ) (as : List Act) (x : Exchange),
    (start a b).runs M as = some x → x.Lossless := by
  intro lossless
  have run : (((start 64 64).runs 39 (deliverAndPump 7)).map fun x =>
      (x.taken, x.handed, x.toApp.shared.free, x.toApp.shared.capacity)) =
        some ([orderOnSeven], [], 64, 64) := by
    decide +kernel
  obtain ⟨x, run, eq⟩ := Option.map_eq_some_iff.mp run
  simp only [Prod.mk.injEq] at eq
  obtain ⟨taken, handed, free, capacity⟩ := eq
  obtain ⟨waiting, all, room⟩ := (lossless 39 64 64 _ x run).1
  rw [taken, handed] at all
  rw [free, capacity] at room
  cases waiting with
  | nil => cases all
  | cons d rest =>
    rw [List.map_cons, stream_cons, List.length_append, framed_length] at room
    omega

end Exchange

end Fixbolt
