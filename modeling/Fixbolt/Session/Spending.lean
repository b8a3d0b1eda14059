import Fixbolt.Session.Adding

/-!
# What a refusal costs

An answer under the next number spends that number and moves no other count. `Pays` is a stretch of
answers; `Spares` is one that may have ended the session, under its reset policy. The lemmas go
through the ways in which a Logon is refused.

* `Scene.judgeLogon_spares`: a Logon is either refused, and spares the counts, or accepted;
* `Scene.judgeTooLow_spares`, `Scene.judgeBadTag_spares`: the refusals before that.
-/

namespace Fixbolt

open History Relation

namespace Event

/-- A message that goes out. -/
def goesOut : Event → Bool
  | emitted _ => true
  | _ => false

/-- A message that is taken up. -/
def isJudged : Event → Bool
  | judged _ _ => true
  | _ => false

end Event

/-- How many messages went out in a stretch of history. -/
def answers (h : List Event) : ℕ := h.countP Event.goesOut

/-- The next number out once `k` more were spent. -/
def spending (k n : ℕ) : ℕ := (fun n => wrapU32 (n + 1))^[k] n

theorem spending_add (k l n : ℕ) : spending (k + l) n = spending k (spending l n) :=
  Function.iterate_add_apply _ k l n

/-- A number of the source's width is spent modulo that width. -/
theorem spending_eq {n : ℕ} (fits : n < u32Size) (k : ℕ) : spending k n = wrapU32 (n + k) := by
  induction k with
  | zero => exact (Nat.mod_eq_of_lt fits).symm
  | succ k ih =>
    rw [Nat.add_comm k 1, spending_add, ih]
    show (((n + k) % u32Size) + 1) % u32Size = _
    rw [Nat.mod_add_mod, wrapU32, Nat.add_comm 1 k, Nat.add_assoc]

/-- Answers went out, each under the next number, and nothing else was counted. -/
structure Pays (w v : Scene) : Prop where
  cfg : v.ses.cfg = w.ses.cfg
  count : v.ses.nextIn = w.ses.nextIn
  said : ∃ new, v.hist = new ++ w.hist ∧ (∀ e ∈ new, e.isJudged = false) ∧
    v.ses.nextOut = spending (answers new) w.ses.nextOut

/-- Answers went out, and then the session may have ended. -/
inductive Spares (w : Scene) : Scene → Prop
  | kept {v : Scene} (pays : Pays w v) : Spares w v
  | ended {v : Scene} (pays : Pays w v) (why : DropReason) : Spares w (v.endSession why)

/-- A Logon was accepted, after the scene `w`. -/
structure LogsOn (w : Scene) (r : Scene × Except Refusal Link) : Prop where
  link : ∃ link, r.2 = .ok link
  hist : ∃ new, r.1.hist = new ++ w.hist ∧ .loggedOn ∈ new ∧ ∀ e ∈ new, e.isJudged = false

/-- A Logon was refused at no other cost, or it was accepted. -/
def Weighs (w : Scene) (r : Scene × Except Refusal Link) : Prop :=
  Spares w (Scene.orEnd r).1 ∨ LogsOn w r

section Spending

variable {P : Params} {w w' v : Scene} {r : Scene × Except Refusal Link}

namespace Pays

theorem refl (w : Scene) : Pays w w := ⟨rfl, rfl, [], rfl, List.forall_mem_nil _, rfl⟩

theorem trans (h : Pays w w') (h' : Pays w' v) : Pays w v := by
  obtain ⟨new, hist, plain, out⟩ := h.said
  obtain ⟨more, hist', plain', out'⟩ := h'.said
  refine ⟨h'.cfg.trans h.cfg, h'.count.trans h.count, more ++ new, ?_, ?_, ?_⟩
  · rw [hist', hist, List.append_assoc]
  · intro e mem
    exact (List.mem_append.mp mem).elim (plain' e) (plain e)
  · rw [out', out, ← spending_add, answers, answers, answers, List.countP_append]

/-- The session changes in nothing that is counted. -/
theorem upd {f : Session → Session} (cfg : (f w.ses).cfg = w.ses.cfg)
    (count : (f w.ses).nextIn = w.ses.nextIn) (out : (f w.ses).nextOut = w.ses.nextOut) :
    Pays w (w.upd f) :=
  ⟨cfg, count, [], rfl, List.forall_mem_nil _, out⟩

/-- An event that is no message is noted. -/
theorem log (w : Scene) {e : Event} (mute : e.goesOut = false) (fresh : e.isJudged = false) :
    Pays w (w.log e) := by
  refine ⟨rfl, rfl, [e], rfl, List.forall_mem_singleton.mpr fresh, ?_⟩
  show w.ses.nextOut = spending (List.countP Event.goesOut [e]) w.ses.nextOut
  rw [List.countP_singleton, mute]
  rfl

theorem spares (h : Pays w w') (s : Spares w' v) : Spares w v := by
  cases s with
  | kept pays => exact .kept (h.trans pays)
  | ended pays why => exact .ended (h.trans pays) why

theorem logsOn (h : Pays w w') (a : LogsOn w' r) : LogsOn w r := by
  obtain ⟨new, hist, plain, -⟩ := h.said
  obtain ⟨more, hist', on, plain'⟩ := a.hist
  refine ⟨a.link, more ++ new, ?_, List.mem_append_left new on, ?_⟩
  · rw [hist', hist, List.append_assoc]
  · intro e mem
    exact (List.mem_append.mp mem).elim (plain' e) (plain e)

theorem weighs (h : Pays w w') (o : Weighs w' r) : Weighs w r :=
  o.imp h.spares h.logsOn

end Pays

namespace Scene

theorem send_pays {which : Which} {extra : List (ℕ × Bytes)} (h : w.send P which extra = some v) :
    Pays w v := by
  obtain ⟨ledger, ⟨bytes, hist⟩, cfg⟩ := send_sent h
  exact ⟨cfg, congrArg Ledger.nextIn ledger, [_], hist, List.forall_mem_singleton.mpr rfl,
    congrArg Ledger.nextOut ledger⟩

theorem trySend_pays (which : Which) (extra : List (ℕ × Bytes)) :
    Pays w (w.trySend P which extra) := by
  unfold trySend
  cases h : w.send P which extra with
  | none => exact .refl w
  | some v => exact send_pays h

/-- A last Logout, and the link is cut. -/
theorem cut_pays (extra : List (ℕ × Bytes)) : Pays w (w.trySend P .logout extra).cut :=
  (trySend_pays .logout extra).trans (.upd rfl rfl rfl)

theorem logoutNow_pays (text : Bytes) : Pays w (w.logoutNow P text).1 := by
  unfold logoutNow
  split
  · exact .refl w
  · exact cut_pays _

theorem garbled_spares (b : Bytes) : Spares w (w.garbled b).1 := by
  unfold garbled
  split
  · exact .ended (.refl w) _
  · exact .kept (.refl w)

theorem sendReject_spares (q : Reject) : Spares w (w.sendReject P q).1 := by
  unfold sendReject
  cases h : w.send P .reject q.slots with
  | none => exact .ended (.refl w) _
  | some v =>
    dsimp only
    split
    · exact .kept ((send_pays h).trans (cut_pays []))
    · exact .kept (send_pays h)

theorem judgeTooLow_spares (m : Inbound) : Spares w (w.judgeTooLow P m).1 := by
  unfold judgeTooLow
  split
  · exact .kept (cut_pays _)
  · split
    · exact .kept (.refl w)
    · split
      · exact sendReject_spares _
      · split
        · exact sendReject_spares _
        · exact .kept (.refl w)

/-! ### A Logon -/

theorem owe_pays (before : ℕ) (want : Option ℕ) : Pays w (w.upd (·.owe before want)) := by
  have same : (w.ses.owe before want).cfg = w.ses.cfg ∧ (w.ses.owe before want).nextIn = w.ses.nextIn ∧
      (w.ses.owe before want).nextOut = w.ses.nextOut := by
    unfold Session.owe
    split
    · split <;> exact ⟨rfl, rfl, rfl⟩
    · exact ⟨rfl, rfl, rfl⟩
  exact .upd same.1 same.2.1 same.2.2

/-- What a session notes by itself takes up no message. -/
theorem admits_unjudged : Admits fun e => e.isJudged = false where
  held _ _ := rfl
  ended _ := rfl
  restarted _ := rfl
  delivered _ _ := rfl
  stored _ _ _ := rfl
  templated _ _ _ _ := rfl
  reply _ _ := rfl
  originated _ _ := rfl
  replayed _ _ := rfl

/-- A Logon that gets this far is refused only because its answer cannot be sent. -/
theorem logonAccepted_weighs (m : Inbound) (b encrypt heartBt : Bytes) :
    Weighs w (w.logonAccepted P m b encrypt heartBt) := by
  unfold logonAccepted
  dsimp only
  generalize hv : (w.upd fun s =>
    { s with beatMs := ((asU32? heartBt).map (· * 1000)).getD 0, state := .loggedOn }).log
      .loggedOn = v
  have on : Pays w v := by
    rw [← hv]
    exact .trans (.upd rfl rfl rfl) (.log _ rfl rfl)
  have noted : v.hist = .loggedOn :: w.hist := by
    rw [← hv]
    rfl
  generalize ho : (if P.speaksFirst then some v
    else v.send P .logon (logonAnswer v.ses m encrypt heartBt)) = answer
  cases answer with
  | none => exact .inl (.ended on _)
  | some u =>
    have answered : Adds (fun e => e.isJudged = false) v u := by
      split at ho
      · exact .of_hist (congrArg Scene.hist (Option.some.inj ho).symm)
      · obtain ⟨bytes, hist⟩ := (send_sent ho).hist
        exact .one rfl hist
    obtain ⟨link, placed⟩ := placeLogon_added (P := P)
      (w := u.upd (·.owe w.ses.nextOut m.nextExpected)) admits_unjudged m b
    obtain ⟨more, hist, plain⟩ := (answered.trans (.upd _)).trans placed
    refine .inr ⟨link, more ++ [.loggedOn], ?_, by simp, ?_⟩
    · rw [hist, noted, List.append_assoc]
      rfl
    · intro e mem
      obtain mem | mem := List.mem_append.mp mem
      · exact plain e mem
      · rw [List.mem_singleton.mp mem]
        rfl

theorem noteDropReason_pays (why : DropReason) : Pays w (w.upd (·.noteDropReason why)) := by
  have same : (w.ses.noteDropReason why).cfg = w.ses.cfg ∧
      (w.ses.noteDropReason why).nextIn = w.ses.nextIn ∧
      (w.ses.noteDropReason why).nextOut = w.ses.nextOut := by
    unfold Session.noteDropReason
    split <;> exact ⟨rfl, rfl, rfl⟩
  exact .upd same.1 same.2.1 same.2.2

theorem judgeLogon_weighs (m : Inbound) (b : Bytes) : Weighs w (w.judgeLogon P m b) := by
  unfold judgeLogon
  split
  · exact .inl (.ended (.refl w) _)
  · split
    · dsimp only
      generalize hv : (w.upd fun s => { s with peerApplVerId := m.theirApplVerId }) = v
      have stored : Pays w v := by
        rw [← hv]
        exact .upd rfl rfl rfl
      split
      · exact .inl (.kept ((stored.trans (noteDropReason_pays _)).trans (logoutNow_pays _)))
      · exact stored.weighs (logonAccepted_weighs m b _ _)
    · exact .inl (.ended (.refl w) _)

/-- A message with an unreadable tag: its number is passed where it can be read. -/
theorem judgeBadTag_spares {b : Bytes} {pos : ℕ}
    (bad : (frameOf P b).outcome = .error (.badTag pos)) :
    Spares w (w.judgeBadTag P (viewOf P b) pos b).1 ∨ ∃ n, badTagNumber P b = some n ∧
      Spares (w.upd fun s => { s with nextIn := wrapU32 (n + 1) })
        (w.judgeBadTag P (viewOf P b) pos b).1 := by
  unfold judgeBadTag
  dsimp only
  split
  · exact .inl (garbled_spares b)
  · rename_i signed
    have signed : (tagTextAt b pos).any isSignedInteger = true := by simpa using signed
    unfold skipBadTag
    split
    · rename_i n number
      split
      · refine .inr ⟨n, ?_, sendReject_spares _⟩
        simp only [badTagNumber, bad, signed, if_true, number]
      · exact .inl (sendReject_spares _)
    · exact .inl (sendReject_spares _)

end Scene

end Spending

end Fixbolt
