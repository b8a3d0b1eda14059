import Fixbolt.Session.Moves

/-!
# The functions of a session as moves

What a session sends, how it ends and what it does with each type of message, as runs of `Acting`
on the books. `Settles` is what judging leads to: the link is up exactly when the session is
alive.
-/

namespace Fixbolt

open History Relation

/-! ### Reading histories that grow -/

section Readings

variable {h : List Event}

@[simp] theorem judging_judged (s : Session) (b : Bytes) : judging (.judged s b :: h) = some (s, b) :=
  rfl

@[simp] theorem judging_called (s : Session) (c : Call) : judging (.called s c :: h) = none := rfl

theorem judging_cons {e : Event} (he : e.focus = none) : judging (e :: h) = judging h := by
  rw [judging, newest_cons_of_none he, judging]

@[simp] theorem judging_emitted (e : Emission) : judging (.emitted e :: h) = judging h :=
  judging_cons rfl

@[simp] theorem judging_restarted (s : Session) : judging (.restarted s :: h) = judging h :=
  judging_cons rfl

@[simp] theorem judging_loggedOn : judging (.loggedOn :: h) = judging h := judging_cons rfl

@[simp] theorem judging_held (n : ℕ) (b : Bytes) : judging (.held n b :: h) = judging h :=
  judging_cons rfl

@[simp] theorem judging_delivered (s : Session) (b : Bytes) :
    judging (.delivered s b :: h) = judging h :=
  judging_cons rfl

@[simp] theorem judging_stored (n : ℕ) (b : Bytes) (kept : Bool) :
    judging (.stored n b kept :: h) = judging h :=
  judging_cons rfl

@[simp] theorem judging_ended (why : DropReason) : judging (.ended why :: h) = judging h :=
  judging_cons rfl

@[simp] theorem lastSeen_called (s : Session) (c : Call) : lastSeen (.called s c :: h) = some s := rfl

@[simp] theorem lastSeen_judged (s : Session) (b : Bytes) :
    lastSeen (.judged s b :: h) = some s :=
  rfl

@[simp] theorem lastSeen_restarted (s : Session) : lastSeen (.restarted s :: h) = some s := rfl

@[simp] theorem lastSeen_emitted (e : Emission) : lastSeen (.emitted e :: h) = lastSeen h :=
  newest_cons_of_none rfl h

@[simp] theorem lastSeen_loggedOn : lastSeen (.loggedOn :: h) = lastSeen h :=
  newest_cons_of_none rfl h

theorem callOf_cons {e : Event} (he : e.isCall = false) : callOf (e :: h) = callOf h := by
  cases e with
  | called => cases he
  | _ => rfl

@[simp] theorem callOf_called (s : Session) (c : Call) : callOf (.called s c :: h) = some (s, c) :=
  rfl

theorem sinceCall_cons {e : Event} (he : e.isCall = false) :
    sinceCall (e :: h) = e :: sinceCall h :=
  since_cons_of_neg he h

@[simp] theorem sinceCall_called (s : Session) (c : Call) : sinceCall (.called s c :: h) = [] := rfl

theorem sinceConnect_cons {e : Event} (he : e.isConnect = false) :
    sinceConnect (e :: h) = e :: sinceConnect h :=
  since_cons_of_neg he h

theorem sinceRestart_cons {e : Event} (he : e.isRestart = false) :
    sinceRestart (e :: h) = e :: sinceRestart h :=
  since_cons_of_neg he h

/-- The message under judgement was judged in the current call. -/
theorem mem_sinceCall_of_judging {s : Session} {b : Bytes} (hj : judging h = some (s, b)) :
    .judged s b ∈ sinceCall h := by
  induction h with
  | nil => cases hj
  | cons e h ih =>
    cases e with
    | called => cases hj
    | judged t d =>
      obtain ⟨rfl, rfl⟩ : t = s ∧ d = b := by simpa using hj
      exact List.mem_cons_self
    | _ =>
      rw [sinceCall_cons rfl]
      exact List.mem_cons_of_mem _ (ih ((judging_cons rfl).symm.trans hj))

end Readings

/-! ### Sending and ending -/

section Sending

variable {P : Params} {R : Rules} {w w' : Scene}

theorem Session.slotsFor_number (s : Session) (extra : List (ℕ × Bytes)) :
    (s.slotsFor none extra).lookup 34 = some (renderU32 s.nextOut) := rfl

theorem Session.slotsFor_lookup (s : Session) (number : Option ℕ) (extra : List (ℕ × Bytes))
    {tag : ℕ} (h : tag ≠ 34 ∧ tag ≠ 52 ∧ tag ≠ 369) :
    (s.slotsFor number extra).lookup tag = extra.lookup tag := by
  obtain ⟨h34, h52, h369⟩ := h
  have e34 : (tag == 34) = false := by simp [h34]
  have e52 : (tag == 52) = false := by simp [h52]
  have e369 : (tag == 369) = false := by simp [h369]
  cases hp : s.cfg.lastProcessed <;> simp [Session.slotsFor, hp, List.lookup_cons, e34, e52, e369]

namespace Scene

/-- What is known of a scene after one of the session's own messages went out. -/
theorem sendAs_eq {which : Which} {number : Option ℕ} {extra : List (ℕ × Bytes)}
    (h : w.sendAs P which number extra = some w') :
    ∃ bytes, w' = (w.upd (·.sent number)).log
      (.emitted (.templated which (w.ses.slotsFor number extra) bytes)) := by
  unfold sendAs at h
  split at h
  · cases h
  · dsimp only at h
    split at h
    · cases h
    · split at h
      · cases h
      · exact ⟨_, (Option.some.inj h).symm⟩

/-- What a message under the next number changes. -/
structure Sent (w w' : Scene) (which : Which) (extra : List (ℕ × Bytes)) : Prop where
  ledger : w'.ses.ledger = w.ses.ledger.spend
  hist : ∃ bytes, w'.hist = .emitted (.templated which (w.ses.slotsFor none extra) bytes) :: w.hist
  cfg : w'.ses.cfg = w.ses.cfg

theorem send_sent {which : Which} {extra : List (ℕ × Bytes)} (h : w.send P which extra = some w') :
    Sent w w' which extra := by
  obtain ⟨bytes, rfl⟩ := sendAs_eq h
  exact ⟨rfl, ⟨bytes, rfl⟩, rfl⟩

theorem Sent.alive {which : Which} {extra : List (ℕ × Bytes)} (h : Sent w w' which extra) :
    w'.ses.Alive ↔ w.ses.Alive := by
  rw [← Session.ledger_alive, h.ledger]
  exact Iff.rfl

theorem Sent.acting {which : Which} {extra : List (ℕ × Bytes)} (h : Sent w w' which extra)
    (alive : w.ses.Alive) (hw : which ≠ .gapFill) : Acting P R w.books w'.books := by
  obtain ⟨bytes, hh⟩ := h.hist
  rw [books, books, h.ledger, hh]
  exact .sent alive hw (Session.slotsFor_number w.ses extra)

/-- The session is alive after one move, and its count and its queue stand. -/
structure Holds (w w' : Scene) : Prop where
  alive : w'.ses.Alive
  count : w'.ses.nextIn = w.ses.nextIn
  queue : w'.ses.queue = w.ses.queue
  seen : lastSeen w'.hist = lastSeen w.hist
  now : judging w'.hist = judging w.hist
  cfg : w'.ses.cfg = w.ses.cfg
  gap : w'.ses.resendFrom = w.ses.resendFrom ∧ w'.ses.resendTo = w.ses.resendTo

theorem Sent.holds {which : Which} {extra : List (ℕ × Bytes)} (h : Sent w w' which extra)
    (alive : w.ses.Alive) : Holds w w' := by
  obtain ⟨bytes, hh⟩ := h.hist
  refine ⟨h.alive.mpr alive, congrArg Ledger.nextIn h.ledger, congrArg Ledger.queue h.ledger, ?_, ?_,
    h.cfg, congrArg Ledger.resendFrom h.ledger, congrArg Ledger.resendTo h.ledger⟩
  · rw [hh, lastSeen_emitted]
  · rw [hh, judging_emitted]

theorem Holds.refl (alive : w.ses.Alive) : Holds w w := ⟨alive, rfl, rfl, rfl, rfl, rfl, rfl, rfl⟩

/-- A closing position stays one while the count, the queue and what was shown stand. -/
theorem Holds.closing {why : Option DropReason} (h : Holds w w')
    (c : Closing P w.ses.ledger w.hist why) : Closing P w'.ses.ledger w'.hist why := by
  have hc : w'.ses.ledger.nextIn = w.ses.ledger.nextIn := h.count
  have hq : w'.ses.ledger.queue = w.ses.ledger.queue := h.queue
  cases c with
  | unmoved seen count queue =>
    exact .unmoved (h.seen.trans seen) (count.trans hc.symm) (queue.trans hq.symm)
  | unanswered now arr consumed count queue =>
    exact .unanswered (h.now.trans now) arr consumed (hc.trans count) (hq.trans queue)
  | faulted now arr consumed fault ends count queue =>
    exact .faulted (h.now.trans now) arr consumed fault ends (hc.trans count) (hq.trans queue)
  | skipped now live bad high count queue =>
    exact .skipped (h.now.trans now) live bad high (hc.trans count) (hq.trans queue)

/-- Trying to send is at most one move. -/
theorem trySend_acts (which : Which) (extra : List (ℕ × Bytes)) (alive : w.ses.Alive)
    (hw : which ≠ .gapFill) :
    ReflTransGen (Acting P R) w.books (w.trySend P which extra).books ∧
      Holds w (w.trySend P which extra) := by
  unfold trySend
  cases h : w.send P which extra with
  | none => exact ⟨.refl, .refl alive⟩
  | some w' => exact ⟨.single ((send_sent h).acting alive hw), (send_sent h).holds alive⟩

theorem endSession_books (w : Scene) (why : DropReason) :
    ∃ resets, ShowsEnd w.ses.ledger resets ∧
      (w.endSession why).books = Books.ended w.ses.ledger w.hist why resets := by
  by_cases hr : w.ses.endResets why = true
  · refine ⟨some (w.ses.endWith why), ?_, ?_⟩
    · rintro s ⟨⟩
      simp [Session.ledger, Session.endWith, hr, Ledger.ended, Ledger.restart]
    · simp [endSession, hr, books, Books.ended, logRestart, log, upd, Session.ledger,
        Session.endWith, Ledger.ended, Ledger.restart]
  · refine ⟨none, by rintro s ⟨⟩, ?_⟩
    simp [endSession, hr, books, Books.ended, log, upd, Session.ledger, Session.endWith,
      Ledger.ended]

theorem endSession_acting {why : DropReason} (c : Closing P w.ses.ledger w.hist (some why)) :
    Acting P R w.books (w.endSession why).books := by
  obtain ⟨resets, shows, hb⟩ := w.endSession_books why
  rw [hb]
  exact .ended c shows

theorem endSession_state (w : Scene) (why : DropReason) :
    (w.endSession why).ses.state = .disconnected := by
  unfold endSession
  split <;> rfl

theorem endSession_dead (w : Scene) (why : DropReason) : ¬ (w.endSession why).ses.Alive :=
  fun h => h.1 (w.endSession_state why)

theorem cut_dead (w : Scene) : ¬ w.cut.ses.Alive := fun h => h.2 rfl

theorem cut_acting (c : Closing P w.ses.ledger w.hist none) :
    Acting P R w.books w.cut.books :=
  .cut c

end Scene

end Sending

/-! ### What judging leads to -/

/-- A refusal ends the session. -/
def Scene.orEnd : Scene × Except Refusal Link → Scene × Link
  | (w, .ok link) => (w, link)
  | (w, .error why) => (w.endSession why.toDropReason, .dropped)

/-- Where judging a message leaves the session: it made its moves, and the link is up exactly when
the session is alive. -/
structure Settles (P : Params) (R : Rules) (x : Books)
    (r : Scene × Except Refusal Link) : Prop where
  acts : ReflTransGen (Acting P R) x (Scene.orEnd r).1.books
  link : (Scene.orEnd r).2 = .up ↔ (Scene.orEnd r).1.ses.Alive

/-- A session that is judging the message `m` of the bytes `b`, which `s` was shown: the count and
the queue are still what the message is judged against. -/
structure Judging (P : Params) (w : Scene) (s : Session) (b : Bytes) (m : Inbound) : Prop where
  now : judging w.hist = some (s, b)
  arr : s.arrives P b = some m
  alive : w.ses.Alive
  count : w.ses.nextIn = m.countAt s
  queue : w.ses.queue = s.queue
  gap : w.ses.resendFrom = s.resendFrom ∧ w.ses.resendTo = s.resendTo
  seen : ∃ t, lastSeen w.hist = some t ∧ t.nextIn = w.ses.nextIn ∧ t.queue = w.ses.queue

section Settling

variable {P : Params} {R : Rules} {w w' : Scene} {s : Session}
  {b : Bytes} {m : Inbound}

theorem Settles.after {x y : Books} {r : Scene × Except Refusal Link}
    (h : ReflTransGen (Acting P R) x y) (hr : Settles P R y r) :
    Settles P R x r :=
  ⟨h.trans hr.acts, hr.link⟩

theorem Settles.up {x : Books} (acts : ReflTransGen (Acting P R) x w.books)
    (alive : w.ses.Alive) : Settles P R x (w, .ok .up) :=
  ⟨acts, iff_of_true rfl alive⟩

theorem Settles.dropped {x : Books} (acts : ReflTransGen (Acting P R) x w.books)
    (dead : ¬ w.ses.Alive) : Settles P R x (w, .ok .dropped) :=
  ⟨acts, iff_of_false nofun dead⟩

theorem Settles.refused {x : Books} {why : Refusal}
    (acts : ReflTransGen (Acting P R) x w.books)
    (c : Closing P w.ses.ledger w.hist (some why.toDropReason)) :
    Settles P R x (w, .error why) :=
  ⟨acts.tail (Scene.endSession_acting c), iff_of_false nofun (w.endSession_dead _)⟩

namespace Judging

theorem unmoved (j : Judging P w s b m) {why : Option DropReason} :
    Closing P w.ses.ledger w.hist why := by
  obtain ⟨t, seen, count, queue⟩ := j.seen
  exact .unmoved seen count queue

theorem holds (j : Judging P w s b m) (h : Scene.Holds w w') : Judging P w' s b m where
  now := h.now.trans j.now
  arr := j.arr
  alive := h.alive
  count := h.count.trans j.count
  queue := h.queue.trans j.queue
  gap := ⟨h.gap.1.trans j.gap.1, h.gap.2.trans j.gap.2⟩
  seen := by
    obtain ⟨t, seen, count, queue⟩ := j.seen
    exact ⟨t, h.seen.trans seen, count.trans h.count.symm, queue.trans h.queue.symm⟩

end Judging

namespace Scene

theorem ended_settles {why : DropReason} (c : Closing P w.ses.ledger w.hist (some why)) :
    Settles P R w.books (w.endSession why, .ok .dropped) :=
  .dropped (.single (endSession_acting c)) (w.endSession_dead why)

/-- A last Logout, and the link is cut. -/
theorem goodbye_settles (extra : List (ℕ × Bytes)) (alive : w.ses.Alive)
    (c : Closing P w.ses.ledger w.hist none) :
    Settles P R w.books ((w.trySend P .logout extra).cut, .ok .dropped) := by
  obtain ⟨acts, holds⟩ := trySend_acts (R := R) .logout extra alive (P := P) (by decide)
  exact .dropped (acts.tail (cut_acting (holds.closing c))) (cut_dead _)

theorem garbled_settles (bytes : Bytes) (alive : w.ses.Alive)
    (c : ∀ why, Closing P w.ses.ledger w.hist why) :
    Settles P R w.books ((w.garbled bytes).map id .ok) := by
  unfold garbled
  split
  · exact ended_settles (c _)
  · exact .up .refl alive

theorem logoutWith_settles (why : SessionText) (alive : w.ses.Alive)
    (c : Closing P w.ses.ledger w.hist none) :
    Settles P R w.books ((w.logoutWith P why).map id .ok) :=
  goodbye_settles _ alive c

theorem logoutNow_settles (text : Bytes) (alive : w.ses.Alive)
    (c : Closing P w.ses.ledger w.hist none) :
    Settles P R w.books ((w.logoutNow P text).map id .ok) := by
  unfold logoutNow
  rw [if_neg (by simpa [Session.Alive] using alive)]
  exact goodbye_settles _ alive c

theorem sendReject_settles (r : Reject) (alive : w.ses.Alive)
    (fails : Closing P w.ses.ledger w.hist (some .cannotSend))
    (ends : r.endsSession → Closing P w.ses.ledger w.hist none) :
    Settles P R w.books ((w.sendReject P r).map id .ok) := by
  unfold sendReject
  cases h : w.send P .reject r.slots with
  | none => exact ended_settles fails
  | some w' =>
    have step := (send_sent h).acting (R := R) alive (P := P) (by decide)
    have holds := (send_sent h).holds alive
    dsimp only
    split
    · exact .after (.single step) (goodbye_settles [] holds.alive (holds.closing (ends ‹_›)))
    · exact .up (.single step) holds.alive

theorem enqueue_acts (j : Judging P w s b m) (ahead : m.RunsAhead s) :
    ReflTransGen (Acting P R) w.books (w.enqueue m.seq b).books ∧
      judging (w.enqueue m.seq b).hist = some (s, b) ∧
      (w.enqueue m.seq b).ses.ledger = { w.ses.ledger with queue := (w.enqueue m.seq b).ses.queue } := by
  unfold enqueue
  split
  · exact ⟨.refl, j.now, rfl⟩
  · rename_i short
    split
    · exact ⟨.refl, j.now, rfl⟩
    · rename_i i hi
      have step : Acting P R w.books
          ((w.upd fun s => { s with queue := s.queue.set i ⟨m.seq, b⟩ }).log (.held m.seq b)).books :=
        .held (l := w.ses.ledger) (h := w.hist) j.now j.arr ahead j.count j.queue (not_lt.mp short) hi
      exact ⟨.single step, (judging_held _ _).trans j.now, rfl⟩

theorem tooHigh_settles (j : Judging P w s b m) (ahead : m.RunsAhead s) :
    Settles P R w.books ((w.tooHigh P m.seq b).map id .ok) := by
  obtain ⟨acts, now, ledger⟩ := enqueue_acts (R := R) j ahead
  unfold tooHigh
  generalize w.enqueue m.seq b = v at acts now ledger ⊢
  have alive : v.ses.Alive := by
    rw [← Session.ledger_alive, ledger]
    exact j.alive
  have count : v.ses.ledger.nextIn = m.countAt s := by
    rw [ledger]
    exact j.count
  dsimp only
  split
  · exact .up acts alive
  · rename_i hopen
    have open_ : v.ses.ledger.resendFrom = 0 ∨ m.seq < v.ses.ledger.resendFrom := by
      simp only [Session.ledger]
      omega
    generalize ha : (v.upd fun s => { s with resendFrom := s.nextIn, resendTo := m.seq - 1 }) = u
    have hl : u.ses.ledger = v.ses.ledger.missing m.seq := by rw [← ha]; rfl
    have hh : u.hist = v.hist := by rw [← ha]; rfl
    have hn : u.ses.nextOut = v.ses.nextOut := by rw [← ha]; rfl
    cases h : u.send P .resendRequest [(7, renderU32 v.ses.nextIn), (16, ascii "0")] with
    | some w' =>
      obtain ⟨hl', ⟨bytes, hh'⟩, -⟩ := send_sent h
      have step : Acting P R v.books w'.books := by
        rw [books, books, hl', hl, hh', hh]
        refine .asked now j.arr ahead count open_ alive ?_ ?_
        · rw [Session.slotsFor_number, hn]
          rfl
        · rw [Session.slotsFor_lookup _ _ _ (by decide)]
          rfl
      refine .up (acts.tail step) ((send_sent h).alive.mpr ?_)
      rw [← Session.ledger_alive, hl]
      exact alive
    | none =>
      obtain ⟨resets, shows, hb⟩ := u.endSession_books .cannotSend
      refine .dropped (acts.tail ?_) (u.endSession_dead _)
      rw [hl] at shows
      rw [hl, hh] at hb
      exact hb ▸ .askFailed now j.arr ahead count shows

end Scene

/-! ### The message types -/

theorem Scene.Holds.of_ledger (alive : w.ses.Alive) (ledger : w'.ses.ledger = w.ses.ledger)
    (hist : w'.hist = w.hist) (cfg : w'.ses.cfg = w.ses.cfg) : Scene.Holds w w' where
  alive := by
    rw [← Session.ledger_alive, ledger]
    exact alive
  count := congrArg Ledger.nextIn ledger
  queue := congrArg Ledger.queue ledger
  seen := by rw [hist]
  now := by rw [hist]
  cfg := cfg
  gap := ⟨congrArg Ledger.resendFrom ledger, congrArg Ledger.resendTo ledger⟩

theorem Inbound.eq_of_isLogon (h : m.isLogon) :
    m.isLogout = false ∧ m.isResendRequest = false ∧ m.isSequenceReset = false := by
  have ht : m.msgType = ascii "A" := by simpa [Inbound.isLogon] using h
  simp only [Inbound.isLogout, Inbound.isResendRequest, Inbound.isSequenceReset, ht]
  decide

theorem Inbound.eq_of_isLogout (h : m.isLogout) :
    m.isLogon = false ∧ m.isResendRequest = false ∧ m.isSequenceReset = false := by
  have ht : m.msgType = ascii "5" := by simpa [Inbound.isLogout] using h
  simp only [Inbound.isLogon, Inbound.isResendRequest, Inbound.isSequenceReset, ht]
  decide

theorem Inbound.eq_of_isSequenceReset (h : m.isSequenceReset) :
    m.isLogon = false ∧ m.isLogout = false ∧ m.isResendRequest = false := by
  have ht : m.msgType = ascii "4" := by simpa [Inbound.isSequenceReset] using h
  simp only [Inbound.isLogon, Inbound.isLogout, Inbound.isResendRequest, ht]
  decide

theorem Scene.placeLogon_settles (j : Judging P w s b m) (logon : m.isLogon)
    (notLow : m.countAt s ≤ m.seq) : Settles P R w.books (w.placeLogon P m b) := by
  unfold placeLogon
  split
  · rename_i ahead
    exact tooHigh_settles j ⟨.inr logon, j.count ▸ ahead⟩
  · rename_i behind
    rw [j.count] at behind
    have consumed : m.Consumed s :=
      .inr (.inr ⟨by simp [(Inbound.eq_of_isLogon logon).2.2], by omega⟩)
    have stays : m.isLogout → s.faultOn P b ≠ none := fun h => by
      simp [(Inbound.eq_of_isLogon logon).1] at h
    exact .up (.single (.advanced (l := w.ses.ledger) j.now j.arr consumed stays j.count j.queue
      j.gap j.alive)) j.alive

/-- What the counterparty has not seen becomes owed. -/
theorem Scene.owe_acts (j : Judging P w s b m) (logon : m.isLogon) (fault : s.faultOn P b = none)
    {before : ℕ} (start : before = if m.resetSeq then 1 else s.nextOut)
    (out : w.ses.nextOut = if P.speaksFirst then before else wrapU32 (before + 1)) :
    ReflTransGen (Acting P R) w.books (w.upd (·.owe before m.nextExpected)).books ∧
      Judging P (w.upd (·.owe before m.nextExpected)) s b m := by
  unfold Session.owe
  cases hn : m.nextExpected with
  | none => exact ⟨.refl, j⟩
  | some want =>
    dsimp only [upd]
    split
    · rename_i hw
      have asks : m.asksBack s := by simp [Inbound.asksBack, logon, hn, ← start, hw]
      have owes : m.owes P s = some ⟨want, wrapU32 (w.ses.nextOut + u32Max)⟩ := by
        simp [Inbound.owes, logon, (Inbound.eq_of_isLogon logon).2.1, hn, ← start, out, hw]
      exact ⟨.single (.owed (l := w.ses.ledger) j.now j.arr j.alive asks owes fault),
        j.holds ⟨j.alive, rfl, rfl, rfl, rfl, rfl, rfl, rfl⟩⟩
    · exact ⟨.refl, j⟩

/-- A Logon that is not behind the count, from the acceptance on. -/
theorem Scene.logonAccepted_settles (j : Judging P w s b m) (logon : m.isLogon)
    (fault : s.faultOn P b = none) (notLow : m.countAt s ≤ m.seq)
    (out : w.ses.nextOut = if m.resetSeq then 1 else s.nextOut) (encrypt heartBt : Bytes) :
    Settles P R w.books (w.logonAccepted P m b encrypt heartBt) := by
  unfold logonAccepted
  dsimp only
  generalize hv : (w.upd fun s =>
    { s with beatMs := ((asU32? heartBt).map (· * 1000)).getD 0, state := .loggedOn }).log
      .loggedOn = v
  have first : Acting P R w.books v.books := by
    rw [← hv]
    exact .loggedOn (l := w.ses.ledger) j.now j.arr logon j.alive
  have jv : Judging P v s b m := by
    refine j.holds ?_
    rw [← hv]
    exact ⟨⟨nofun, nofun⟩, rfl, rfl, lastSeen_loggedOn, judging_loggedOn, rfl, rfl, rfl⟩
  refine .after (.single first) ?_
  -- the answer, unless this end spoke first
  generalize ho : (if P.speaksFirst then some v
    else v.send P .logon (logonAnswer v.ses m encrypt heartBt)) = answer
  cases answer with
  | none => exact .refused .refl jv.unmoved
  | some u =>
    have same : v.ses.nextOut = w.ses.nextOut := by rw [← hv]; rfl
    have answered : ReflTransGen (Acting P R) v.books u.books ∧ Judging P u s b m ∧
        u.ses.nextOut = if P.speaksFirst then w.ses.nextOut else wrapU32 (w.ses.nextOut + 1) := by
      split at ho
      · obtain rfl := Option.some.inj ho
        exact ⟨.refl, jv, by rw [same, if_pos ‹_›]⟩
      · refine ⟨.single ((send_sent ho).acting jv.alive (by decide)),
          jv.holds ((send_sent ho).holds jv.alive), ?_⟩
        rw [if_neg ‹_›, ← same]
        exact congrArg Ledger.nextOut (send_sent ho).ledger
    obtain ⟨acts, ju, spent⟩ := answered
    obtain ⟨owes, jt⟩ := owe_acts (R := R) ju logon fault out spent
    exact .after (acts.trans owes) (placeLogon_settles jt logon notLow)

theorem Scene.judgeLogon_settles (j : Judging P w s b m) (logon : m.isLogon)
    (fault : s.faultOn P b = none) (notLow : m.countAt s ≤ m.seq)
    (out : w.ses.nextOut = if m.resetSeq then 1 else s.nextOut) :
    Settles P R w.books (w.judgeLogon P m b) := by
  unfold judgeLogon
  split
  · exact .refused .refl j.unmoved
  · split
    · dsimp only
      generalize hv : (w.upd fun s => { s with peerApplVerId := m.theirApplVerId }) = v
      have hb : v.books = w.books := by rw [← hv]; rfl
      have jv : Judging P v s b m := j.holds (.of_ledger j.alive (by rw [← hv]; rfl)
        (by rw [← hv]; rfl) (by rw [← hv]; rfl))
      have hout : v.ses.nextOut = w.ses.nextOut := by rw [← hv]; rfl
      rw [← hb]
      split
      · have same : (v.upd (·.noteDropReason .nextExpectedTooHigh)).ses.ledger = v.ses.ledger := by
          simp only [upd, Session.noteDropReason]
          split <;> rfl
        have cfg : (v.upd (·.noteDropReason .nextExpectedTooHigh)).ses.cfg = v.ses.cfg := by
          simp only [upd, Session.noteDropReason]
          split <;> rfl
        have ju := jv.holds (.of_ledger jv.alive same rfl cfg)
        have hs := logoutNow_settles (R := R)
          (ascii "NextExpectedMsgSeqNum too high") ju.alive ju.unmoved
        rwa [show (v.upd (·.noteDropReason .nextExpectedTooHigh)).books = v.books from by
          rw [books, same]; rfl] at hs
      · exact logonAccepted_settles jv logon fault notLow (hout.trans out) _ _
    · exact .refused .refl j.unmoved

theorem Scene.judgeTooLow_settles (j : Judging P w s b m) :
    Settles P R w.books ((w.judgeTooLow P m).map id .ok) := by
  unfold judgeTooLow
  split
  · exact logoutWith_settles _ j.alive j.unmoved
  · split
    · exact .up .refl j.alive
    · split
      · exact sendReject_settles _ j.alive j.unmoved fun _ => j.unmoved
      · split
        · exact sendReject_settles _ j.alive j.unmoved fun _ => j.unmoved
        · exact .up .refl j.alive

theorem Scene.judgeSequenceReset_settles {h : List Event} (j : Judging P w s b m)
    (hist : w.hist = .judged s b :: h) (ledger : w.ses.ledger = s.ledger)
    (reset : m.isSequenceReset) (fault : s.faultOn P b = none) :
    Settles P R w.books (w.judgeSequenceReset P m) := by
  unfold judgeSequenceReset
  split
  · exact .up .refl j.alive
  · rename_i n new
    split
    · rename_i up
      have step := Acting.moved (R := R) (h := h) ledger.symm j.arr reset fault new up j.alive
      rw [← hist] at step
      exact .up (.single step) j.alive
    · split
      · exact sendReject_settles _ j.alive j.unmoved fun _ => j.unmoved
      · exact .up .refl j.alive

/-- A message with an unreadable tag. -/
theorem Scene.judgeBadTag_settles {h : List Event} {pos : ℕ} (alive : w.ses.Alive)
    (hist : w.hist = .judged s b :: h) (ledger : w.ses.ledger = s.ledger)
    (live : w.ses.state = .loggedOn) (bad : (frameOf P b).outcome = .error (.badTag pos)) :
    Settles P R w.books ((w.judgeBadTag P (viewOf P b) pos b).map id .ok) := by
  have count : s.nextIn = w.ses.nextIn := (congrArg Ledger.nextIn ledger).symm
  have queue : s.queue = w.ses.queue := (congrArg Ledger.queue ledger).symm
  have unmoved : ∀ why, Closing P w.ses.ledger w.hist why := fun _ =>
    .unmoved (by rw [hist]; exact lastSeen_judged s b) count queue
  unfold judgeBadTag
  dsimp only
  split
  · exact garbled_settles _ alive unmoved
  · rename_i signed
    have reads : badTagNumber P b = Inbound.number (viewOf P b) 34 := by
      have signed : (tagTextAt b pos).any isSignedInteger = true := by simpa using signed
      simp only [badTagNumber, bad, signed, if_true]
    unfold skipBadTag
    split
    · rename_i seq hseq
      split
      · rename_i high
        have step := Acting.skipped (P := P) (R := R) (h := h) ledger.symm live
          (reads.trans hseq) high
        rw [← hist] at step
        generalize hv : (w.upd fun s => { s with nextIn := wrapU32 (seq + 1) }) = v
        have hb : v.books = ⟨{ w.ses.ledger with nextIn := wrapU32 (seq + 1) }, w.hist⟩ := by
          rw [← hv]
          rfl
        have fails : Closing P v.ses.ledger v.hist (some .cannotSend) := by
          rw [← hv]
          exact .skipped (by rw [← judging_judged s b, ← hist]; rfl)
            ((congrArg Ledger.state ledger).symm.trans live) (reads.trans hseq) (count ▸ high) rfl
            queue.symm
        refine .after (.single (hb ▸ step)) (sendReject_settles _ ?_ fails ?_)
        · rw [← hv]
          exact alive
        · intro ends
          simp [Reject.endsSession] at ends
      · exact sendReject_settles _ alive (unmoved _) fun _ => unmoved _
    · exact sendReject_settles _ alive (unmoved _) fun _ => unmoved _

/-! ### Messages in order -/

/-- A session that consumed the message under judgement and has not yet answered it. -/
structure Answering (P : Params) (w : Scene) (s : Session) (b : Bytes) (m : Inbound) : Prop where
  now : judging w.hist = some (s, b)
  arr : s.arrives P b = some m
  alive : w.ses.Alive
  consumed : m.Consumed s
  count : w.ses.nextIn = wrapU32 (m.seq + 1)
  queue : w.ses.queue = s.queue
  out : w.ses.nextOut = s.nextOut

theorem Answering.unanswered (a : Answering P w s b m) :
    Closing P w.ses.ledger w.hist (some .cannotSend) :=
  .unanswered a.now a.arr a.consumed a.count a.queue

theorem Scene.judgeTestRequest_settles (a : Answering P w s b m) :
    Settles P R w.books (w.judgeTestRequest P m) := by
  unfold judgeTestRequest
  cases h : w.send P .heartbeat [(112, m.testReqId.getD [])] with
  | none => exact .refused .refl a.unanswered
  | some w' =>
    exact .up (.single ((send_sent h).acting a.alive (by decide))) ((send_sent h).alive.mpr a.alive)

theorem Scene.judgeResendRequest_settles (a : Answering P w s b m) (asks : m.isResendRequest)
    (fault : s.faultOn P b = none) : Settles P R w.books (w.judgeResendRequest m) := by
  unfold judgeResendRequest
  split
  · rename_i begin_ hb
    dsimp only
    split
    · rename_i le
      have owes : m.owes P s = some ⟨begin_, resendEnd w.ses.nextOut m.endSeqNo⟩ := by
        rw [a.out] at le ⊢
        simp [Inbound.owes, asks, hb, le]
      exact .up (.single (.owed (l := w.ses.ledger) a.now a.arr a.alive
        (by simp [Inbound.asksBack, asks]) owes fault)) a.alive
    · exact .up .refl a.alive
  · exact .up .refl a.alive

/-- A Logout without fault: `w'` is the session once it consumed it. -/
theorem Scene.judgeLogout_settles (j : Judging P w s b m) (logout : m.isLogout)
    (fault : s.faultOn P b = none) (ledger : w'.ses.ledger = w.ses.ledger.advance m.seq)
    (hist : w'.hist = w.hist) :
    Settles P R w.books (w'.judgeLogout P) := by
  have count : w.ses.ledger.nextIn = s.nextIn := by
    have := j.count
    rwa [Inbound.countAt, (Inbound.eq_of_isLogout logout).1, Bool.false_and, if_neg nofun] at this
  have alive : w'.ses.Alive := by
    rw [← Session.ledger_alive, ledger]
    exact j.alive
  have left : ∀ why, why = .peerLogout ∨ why = .cannotSend →
      Acting P R w.books (w'.endSession why).books := fun why hwhy => by
    obtain ⟨resets, shows, hb⟩ := w'.endSession_books why
    rw [hb, ledger, hist]
    exact .peerLeft j.now j.arr logout hwhy fault count j.queue (ledger ▸ shows)
  unfold judgeLogout
  split
  · exact .dropped (.single (left _ (.inl rfl))) (w'.endSession_dead _)
  · cases h : w'.send P .logout [] with
    | none => exact ⟨.single (left _ (.inr rfl)), iff_of_false nofun (w'.endSession_dead _)⟩
    | some u =>
      -- the books cannot tell whether the number was consumed before or after the answer
      obtain ⟨hl, ⟨bytes, hh⟩, -⟩ := send_sent h
      have sent : Acting P R w.books
          ⟨w.ses.ledger.spend, .emitted (.templated .logout (w'.ses.slotsFor none []) bytes) ::
            w.hist⟩ := by
        refine .sent j.alive (by decide) ((Session.slotsFor_number _ _).trans ?_)
        exact congrArg (some ∘ renderU32) (congrArg Ledger.nextOut ledger)
      obtain ⟨resets, shows, hb⟩ := u.endSession_books .peerLogout
      have same : u.ses.ledger = (w.ses.ledger.spend).advance m.seq := by rw [hl, ledger]; rfl
      refine .dropped (.tail (.single sent) ?_) (u.endSession_dead _)
      rw [hb, same, hh, hist]
      exact .peerLeft ((judging_emitted _).trans j.now) j.arr logout (.inl rfl) fault count
        j.queue (same ▸ shows)

theorem Session.consume_ledger (s : Session) (m : Inbound) :
    (s.consume m).ledger =
      if m.isSequenceReset || m.isLogon then s.ledger else s.ledger.advance m.seq := by
  unfold consume
  split <;> rfl

theorem Session.consume_cfg (s : Session) (m : Inbound) : (s.consume m).cfg = s.cfg := by
  unfold consume
  split <;> rfl

theorem Inbound.eq_of_isApplication (h : m.isApplication) :
    m.isLogon = false ∧ m.isLogout = false ∧ m.isResendRequest = false ∧
      m.isSequenceReset = false := by
  have hm : m.msgType ∉ sessionOwned := by simpa [Inbound.isApplication] using h
  simp only [sessionOwned, List.mem_cons, not_or] at hm
  simp [Inbound.isLogon, Inbound.isLogout, Inbound.isResendRequest, Inbound.isSequenceReset, hm]

end Settling

end Fixbolt
