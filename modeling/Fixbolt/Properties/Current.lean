import Fixbolt.Engine.Journal
import Fixbolt.Properties.Setting
import Fixbolt.Session.Errands

/-!
# What is resent is of the current numbering

A journal is not told of a restart of the counts: it goes on holding what was kept before.

* `AsksCurrent`: the steps after which a resend comes by no message of an older numbering;
* `replayed_current`: while every step is one of these, what is resent went out under the counts
  that hold.
-/

namespace Fixbolt

open History Relation

variable {P : Params} {R : Rules}

/-- The message that an event keeps under a number. -/
def Event.keptAs (n : ℕ) : Event → Option Bytes
  | .stored k b true => if k = n then some b else none
  | _ => none

/-- The number under which an event keeps a message. -/
def Event.keptUnder : Event → Option ℕ
  | .stored n _ true => some n
  | _ => none

/-- The numbers under which messages were kept. -/
def keptNumbers (h : List Event) : List ℕ := h.filterMap Event.keptUnder

/-- Of all numbers that messages were kept under, does a resend come by fresh ones only? -/
def Replay.Current (r : Replay) (all fresh : List ℕ) : Prop := ∀ n ∈ all, r.Covers n → n ∈ fresh

instance (r : Replay) (all fresh : List ℕ) : Decidable (r.Current all fresh) :=
  inferInstanceAs (Decidable (∀ n ∈ all, _ → _))

/-- The numbers that messages are kept under once a message was taken up: none if it restarts the
counts. -/
def freshFor (m : Inbound) (old : List Event) : List ℕ :=
  if m.isLogon && m.resetSeq then [] else keptNumbers (sinceRestart old)

/-- Does a step leave what is owed free of an older numbering? A message asks back no number that
was kept before the last restart alone, and a restart finds nothing owed that was kept. -/
def AsksCurrent (P : Params) : Event → List Event → Prop
  | .judged s b, old => ∀ m ∈ s.arrives P b, s.faultOn P b = none → ∀ r ∈ m.owes P s,
      r.Current (keptNumbers old) (freshFor m old)
  | .restarted s, old => ∀ r ∈ s.owed, r.Current (keptNumbers old) []
  | _, _ => True

instance : ∀ (e : Event) (old : List Event), Decidable (AsksCurrent P e old)
  | .judged s b, _ =>
    inferInstanceAs (Decidable (∀ m ∈ s.arrives P b, s.faultOn P b = none → ∀ r ∈ m.owes P s, _))
  | .restarted s, _ => inferInstanceAs (Decidable (∀ r ∈ s.owed, _))
  | .called _ _, _ | .emitted _, _ | .stored _ _ _, _ | .held _ _, _ | .delivered _ _, _
  | .loggedOn, _ | .ended _, _ => isTrue trivial

/-! ### What is owed -/

/-- Does a resend come by messages of the current numbering only? -/
def CurrentAt (h : List Event) (r : Replay) : Prop :=
  r.Current (keptNumbers h) (keptNumbers (sinceRestart h))

/-- Was a message resent that was kept under the counts that hold? -/
def ResentCurrent : Event → List Event → Prop
  | .emitted (.replayed n _), old => n ∈ keptNumbers old → n ∈ keptNumbers (sinceRestart old)
  | _, _ => True

/-- An event that neither restarts the counts nor resends. -/
def Event.onward : Event → Bool
  | .restarted _ | .emitted (.replayed _ _) => false
  | _ => true

theorem Event.isRestart_of_onward {e : Event} (h : e.onward) : e.isRestart = false := by
  cases e with
  | restarted => cases h
  | _ => rfl

theorem resentCurrent_of_onward {e : Event} (h : e.onward) (old : List Event) :
    ResentCurrent e old := by
  cases e with
  | emitted e =>
    cases e with
    | replayed => cases h
    | _ => trivial
  | _ => trivial

theorem CurrentAt.cons {h : List Event} {r : Replay} (c : CurrentAt h r) {e : Event}
    (he : e.isRestart = false) : CurrentAt (e :: h) r := by
  intro n hn covers
  rw [sinceRestart_cons he]
  rw [keptNumbers, List.filterMap_cons] at hn ⊢
  cases hk : e.keptUnder with
  | none =>
    rw [hk] at hn
    exact c n hn covers
  | some k =>
    rw [hk] at hn
    obtain rfl | hn := List.mem_cons.mp hn
    · exact List.mem_cons_self
    · exact List.mem_cons_of_mem _ (c n hn covers)

/-- What may become owed and what is, and what was resent, is of the current numbering. -/
structure OwesCurrent (P : Params) (x : Books) : Prop where
  asked : x.led.Alive → ∀ s b, judging x.hist = some (s, b) → ∀ m ∈ s.arrives P b,
    s.faultOn P b = none → ∀ r ∈ m.owes P s, CurrentAt x.hist r
  owed : ∀ r ∈ x.led.owed, CurrentAt x.hist r
  resent : Always ResentCurrent x.hist

namespace OwesCurrent

variable {x y : Books} {l l' : Ledger} {h : List Event}

/-- A move that changes no more than the ledger. -/
theorem still (o : OwesCurrent P x) (hist : y.hist = x.hist) (alive : y.led.Alive → x.led.Alive)
    (owed : ∀ r ∈ y.led.owed, r ∈ x.led.owed) : OwesCurrent P y := by
  obtain ⟨l', h'⟩ := y
  obtain rfl : h' = x.hist := hist
  exact ⟨fun up => o.asked (alive up), fun r hr => o.owed r (owed r hr), o.resent⟩

/-- An event that neither restarts, resends nor shows a message. -/
theorem log (o : OwesCurrent P x) {e : Event} (hist : y.hist = e :: x.hist) (onward : e.onward)
    (blind : e.focus = none) (alive : y.led.Alive → x.led.Alive)
    (owed : ∀ r ∈ y.led.owed, r ∈ x.led.owed) : OwesCurrent P y := by
  obtain ⟨l', h'⟩ := y
  obtain rfl : h' = e :: x.hist := hist
  have next : ∀ {r}, CurrentAt x.hist r → CurrentAt (e :: x.hist) r :=
    fun c => c.cons (Event.isRestart_of_onward onward)
  refine ⟨fun up s b now m arr fault r hr => ?_, fun r hr => next (o.owed r (owed r hr)),
    resentCurrent_of_onward onward _, o.resent⟩
  exact next (o.asked (alive up) s b ((judging_cons blind).symm.trans now) m arr fault r hr)

/-- A message is kept, and goes out. -/
theorem wrote (o : OwesCurrent P x) {n : ℕ} {b : Bytes} {kept : Bool} {e : Emission}
    (hist : y.hist = .emitted e :: .stored n b kept :: x.hist) (onward : (Event.emitted e).onward)
    (alive : y.led.Alive → x.led.Alive) (owed : ∀ r ∈ y.led.owed, r ∈ x.led.owed) :
    OwesCurrent P y := by
  have kept : OwesCurrent P ⟨x.led, .stored n b kept :: x.hist⟩ :=
    o.log rfl rfl rfl id fun r => id
  exact kept.log hist onward rfl alive owed

theorem ended (o : OwesCurrent P ⟨l, h⟩) (l' : Ledger) (why : DropReason)
    (resets : Option Session) : OwesCurrent P (Books.ended l' h why resets) := by
  refine ⟨fun up => absurd up (Books.ended_dead _ _ _ _), ?_, ?_⟩
  · cases resets <;> exact fun r hr => by cases hr
  · cases resets with
    | none => exact ⟨trivial, o.resent⟩
    | some t => exact ⟨trivial, trivial, o.resent⟩

/-- The counts restart, and nothing that was kept is owed. -/
theorem restarted (o : OwesCurrent P ⟨l, h⟩) {t : Session}
    (owed : ∀ r ∈ l'.owed, r.Current (keptNumbers h) [])
    (asked : ∀ s b, judging h = some (s, b) → ∀ m ∈ s.arrives P b, s.faultOn P b = none →
      ∀ r ∈ m.owes P s, r.Current (keptNumbers h) []) :
    OwesCurrent P ⟨l', .restarted t :: h⟩ :=
  ⟨fun _ s b now => asked s b ((judging_restarted t).symm.trans now), owed, trivial, o.resent⟩

/-- A message is shown that asks for nothing of an older numbering. -/
theorem judged (o : OwesCurrent P ⟨l, h⟩) {s : Session} {b : Bytes}
    (asks : AsksCurrent P (.judged s b) h) (owed : ∀ r ∈ l'.owed, r ∈ l.owed) :
    OwesCurrent P ⟨l', .judged s b :: h⟩ := by
  refine ⟨fun _ t d now m arr fault r hr => ?_,
    fun r hr => (o.owed r (owed r hr)).cons rfl, trivial, o.resent⟩
  obtain ⟨rfl, rfl⟩ : s = t ∧ b = d := by simpa using now
  have current : CurrentAt h r := by
    intro n hn covers
    have fresh := asks m arr fault r hr n hn covers
    unfold freshFor at fresh
    split at fresh
    · cases fresh
    · exact fresh
  exact current.cons rfl

end OwesCurrent

/-- One move leaves what is owed of the current numbering. -/
theorem acting_owesCurrent {x y : Books} (h : Acting P R x y) (ok : Always (AsksCurrent P) y.hist)
    (o : OwesCurrent P x) : OwesCurrent P y := by
  cases h with
  | connected => exact ⟨fun _ s b now => (by cases now), o.owed, o.resent⟩
  | @connectedAnew l h s t before after =>
    have same : t.owed = l.owed := congrArg Ledger.owed after
    refine o.restarted (fun r hr => ok.1 r (same ▸ hr)) fun s b now => by cases now
  | closed => exact o.still rfl (fun up => absurd rfl up.1) fun r => id
  | ticked => exact o.still rfl id fun r => id
  | rolled => exact o.restarted (fun r hr => by cases hr) fun s b now => by cases now
  | setOut => exact o.still rfl id fun r => id
  | setIn => exact o.still rfl id fun r => id
  | announced => exact o.log rfl rfl rfl id fun r => id
  | originated => exact o.wrote rfl rfl id fun r => id
  | sent => exact o.log rfl rfl rfl id fun r => id
  | spoke owes => exact o.still rfl (fun _ => by simp [Ledger.Alive, owes]) fun r => id
  | saidGoodbye live => exact o.still rfl (fun _ => by simp [Ledger.Alive, live]) fun r => id
  | cut => exact o.still rfl (fun up => absurd rfl up.2) fun r => id
  | ended => exact o.ended _ _ _
  | judged => exact o.judged ok.1 fun r => id
  | judgedHeld => exact o.judged ok.1 fun r => id
  | @restarted l h s t b m before arr resets after =>
    have same : t.owed = l.owed := congrArg Ledger.owed after
    refine o.restarted (fun r hr => ok.1 r (same ▸ hr)) ?_
    intro u d now m' arr' fault r hr
    obtain ⟨rfl, rfl⟩ : s = u ∧ b = d := by simpa using now
    obtain rfl := Option.some.inj (arr.symm.trans arr')
    have asks := ok.2.1 m arr fault r hr
    rwa [freshFor, if_pos resets] at asks
  | loggedOn now arr logon alive => exact o.log rfl rfl rfl (fun _ => alive) fun r => id
  | owed now arr alive asks owes fault =>
    refine ⟨o.asked, fun q hq => ?_, o.resent⟩
    exact Option.some.inj hq ▸ o.asked alive _ _ now _ arr fault _ owes
  | held => exact o.log rfl rfl rfl id fun r => id
  | asked => exact o.log rfl rfl rfl id fun r => id
  | askFailed => exact o.ended _ _ _
  | advanced => exact o.still rfl id fun r => id
  | skipped => exact o.still rfl id fun r => id
  | moved => exact o.still rfl id fun r => id
  | peerLeft => exact o.ended _ _ _
  | delivered => exact o.log rfl rfl rfl id fun r => id
  | replied => exact o.wrote rfl rfl id fun r => id

/-- A resend in progress comes by what is owed. -/
theorem replaying_owesCurrent {x y : Books} (h : Replaying x y) (o : OwesCurrent P x) :
    OwesCurrent P y := by
  cases h with
  | filled => exact o.log rfl rfl rfl id fun r => id
  | @replayed l h n bytes owes covers =>
    obtain ⟨r, hr⟩ := Option.isSome_iff_exists.mp owes
    refine ⟨fun up s b now m arr fault q hq => ?_, fun q hq => (o.owed q hq).cons rfl,
      fun hn => o.owed r hr n hn (covers r hr), o.resent⟩
    exact (o.asked up s b ((judging_emitted _).symm.trans now) m arr fault q hq).cons rfl
  | @progressed l h r owes left =>
    obtain ⟨o', ho⟩ := Option.isSome_iff_exists.mp owes
    refine ⟨o.asked, fun q hq n hn covers => ?_, o.resent⟩
    exact o.owed o' ho n hn ((left q hq o' ho).covers covers)
  | gaveUp => exact o.ended _ _ _

theorem moves_oweCurrent {x y : Books} (h : ReflTransGen (Move P R) x y)
    (ok : Always (AsksCurrent P) y.hist) (start : OwesCurrent P x) : OwesCurrent P y := by
  induction h with
  | refl => exact start
  | tail _ step ih =>
    cases step with
    | @called l h s c shows =>
      have before := ih ok.2
      exact ⟨fun _ s b now => (by cases now), fun r hr => (before.owed r hr).cons rfl, trivial,
        before.resent⟩
    | acting step => exact acting_owesCurrent step ok (ih (step.goesOn.always ok))
    | replaying step => exact replaying_owesCurrent step (ih (step.goesOn.always ok))

/-! ### What the journal holds -/

/-- What is newest since an event is newest of all. -/
theorem newest_of_since {ε α : Type*} {f : ε → Option α} {p : ε → Bool} {h : List ε} {a : α}
    (ha : newest f (since p h) = some a) : newest f h = some a := by
  induction h with
  | nil => cases ha
  | cons e h ih =>
    cases hp : p e with
    | true =>
      rw [since_cons_of_pos hp] at ha
      cases ha
    | false =>
      rw [since_cons_of_neg hp] at ha
      cases hf : f e with
      | none => rw [newest_cons_of_none hf] at ha ⊢; exact ih ha
      | some c => rw [newest_cons_of_some hf] at ha ⊢; exact ha

theorem exists_newest_of_mem {n : ℕ} {h : List Event} (hn : n ∈ keptNumbers h) :
    ∃ b, newest (Event.keptAs n) h = some b := by
  obtain ⟨e, he, under⟩ := List.mem_filterMap.mp hn
  refine Option.isSome_iff_exists.mp (List.findSome?_isSome_iff.mpr ⟨e, he, ?_⟩)
  cases e with
  | stored k b kept =>
    cases kept with
    | true => simp_all [Event.keptUnder, Event.keptAs]
    | false => cases under
  | _ => cases under

theorem stored_of_newest {n : ℕ} {h : List Event} {b : Bytes}
    (hb : newest (Event.keptAs n) h = some b) : .stored n b true ∈ h := by
  obtain ⟨e, he, as⟩ := exists_mem_of_newest hb
  cases e with
  | stored k d kept =>
    cases kept with
    | true =>
      simp only [Event.keptAs] at as
      split at as
      · rename_i same
        obtain rfl := Option.some.inj as
        exact same ▸ he
      · cases as
    | false => cases as
  | _ => cases as

theorem mem_keptNumbers {n : ℕ} {h : List Event} {b : Bytes} (hb : .stored n b true ∈ h) :
    n ∈ keptNumbers h :=
  List.mem_filterMap.mpr ⟨_, hb, rfl⟩

/-- Did an application message go out under a number, since the last restart? -/
def SentSince (h : List Event) (n : ℕ) (b : Bytes) : Prop :=
  ∃ e, (e = .reply n b ∨ e = .originated n b) ∧ .emitted e ∈ sinceRestart h

/-- Is a message resent that was the last to be kept under its number? -/
def Recalled (P : Params) : Event → List Event → Prop
  | .emitted (.replayed n bytes), old => ∃ kept stamp,
      newest (Event.keptAs n) old = some kept ∧
        asResend P.dict.toDictionary P.appScratch kept stamp = some bytes ∧
        (.stored n kept true ∈ sinceRestart old → SentSince old n kept)
  | _, _ => True

/-- The journal holds what was kept last, and what was kept went out. -/
structure Recalls {A J : Type} [Journal J] (P : Params) (w : World A J) : Prop where
  holds : ∀ n kept, Journal.get w.journal n = some kept →
    newest (Event.keptAs n) w.hist = some kept
  sent : ∀ n b, .stored n b true ∈ sinceRestart w.hist → SentSince w.hist n b
  resent : Always (Recalled P) w.hist

section Journals

variable {A J : Type} [Journal J] {w : World A J}

theorem SentSince.cons {h : List Event} {n : ℕ} {b : Bytes} (sent : SentSince h n b) {e : Event}
    (he : e.isRestart = false) : SentSince (e :: h) n b := by
  obtain ⟨m, is, out⟩ := sent
  exact ⟨m, is, by rw [sinceRestart_cons he]; exact List.mem_cons_of_mem _ out⟩

/-- An event that keeps nothing. -/
theorem Recalls.log (r : Recalls P w) {v : Scene} {app : A} {e : Event} (hist : v.hist = e :: w.hist)
    (keeps : e.keptUnder = none) (restart : e.isRestart = false) (recalled : Recalled P e w.hist) :
    Recalls P { w with toScene := v, app := app } := by
  have none : ∀ n, e.keptAs n = none := by
    intro n
    cases e with
    | stored k b kept => cases kept <;> first | rfl | cases keeps
    | _ => rfl
  refine ⟨fun n kept hg => ?_, fun n b hb => ?_, ?_⟩ <;> simp only [hist] at *
  · rw [newest_cons_of_none (none n)]
    exact r.holds n kept hg
  · rw [sinceRestart_cons restart] at hb
    obtain rfl | hb := List.mem_cons.mp hb
    · cases keeps
    · exact (r.sent n b hb).cons restart
  · exact ⟨recalled, r.resent⟩

theorem Recalls.still (r : Recalls P w) {v : Scene} {app : A} (hist : v.hist = w.hist) :
    Recalls P { w with toScene := v, app := app } :=
  ⟨hist ▸ r.holds, hist ▸ r.sent, hist ▸ r.resent⟩

theorem idle_keeps {e : Event} (idle : e.idle) (old : List Event) :
    e.keptUnder = none ∧ e.isRestart = false ∧ Recalled P e old := by
  cases e with
  | emitted e =>
    cases e with
    | replayed => cases idle
    | _ => exact ⟨rfl, rfl, trivial⟩
  | _ => first | exact ⟨rfl, rfl, trivial⟩ | cases idle

theorem newest_stored (n k : ℕ) (b : Bytes) (kept : Bool) (h : List Event) :
    newest (Event.keptAs n) (.stored k b kept :: h) =
      if n = k ∧ kept then some b else newest (Event.keptAs n) h := by
  cases kept with
  | false => rw [newest_cons_of_none rfl, if_neg (by simp)]
  | true =>
    by_cases same : n = k
    · rw [if_pos ⟨same, rfl⟩, newest_cons_of_some]
      simp [Event.keptAs, same]
    · rw [if_neg (by simp [same]), newest_cons_of_none]
      simp [Event.keptAs, Ne.symm same]

variable [KeepsLast J]

/-- What a journal holds once it was given a message. -/
theorem get_of_put {j j' : J} {n k : ℕ} {b last : Bytes} {kept : Bool}
    (put : Journal.put j n b = (j', kept) ∨ j' = j ∧ kept = false)
    (holds : Journal.get j' k = some last) :
    if k = n ∧ kept then last = b else Journal.get j k = some last := by
  obtain put | ⟨rfl, rfl⟩ := put
  · have now : Journal.get (Journal.put j n b).1 k = some last := by rw [put]; exact holds
    simpa [put] using KeepsLast.get_put now
  · simpa using holds

theorem errand_recalls {x y : World A J} (h : Errand P x y) (r : Recalls P x) : Recalls P y := by
  cases h with
  | @idle v app out hist =>
    obtain hist | ⟨e, idle, hist⟩ := hist
    · exact r.still hist
    · obtain ⟨keeps, restart, recalled⟩ := idle_keeps (P := P) idle x.hist
      exact r.log hist keeps restart recalled
  | @resent v n bytes out kept hist =>
    obtain ⟨last, stamp, holds, laid⟩ := kept
    exact r.log hist rfl rfl ⟨last, stamp, r.holds n last holds, laid, r.sent n last⟩
  | spent fresh number out hist => exact r.log hist rfl rfl trivial
  | announced found announces pos before fresh out hist => exact r.log hist rfl rfl trivial
  | set found pos out hist => exact r.still hist
  | @restarted v out hist =>
    refine ⟨fun n kept hg => ?_, fun n b hb => ?_, ?_⟩ <;> simp only [hist] at *
    · exact r.holds n kept hg
    · cases hb
    · exact ⟨trivial, r.resent⟩
  | @wrote v e bytes j kept fresh put out hist =>
    have restart : (Event.emitted e).isRestart = false := rfl
    refine ⟨fun n last hg => ?_, fun n b hb => ?_, ?_⟩ <;> simp only [hist] at *
    · rw [newest_cons_of_none rfl, newest_stored]
      have now := get_of_put put hg
      split at now
      · rw [now]
        exact if_pos ‹_›
      · rw [if_neg ‹_›]
        exact r.holds n last now
    · rw [sinceRestart_cons rfl, sinceRestart_cons rfl] at hb
      have emitted : SentSince (.emitted e :: .stored x.ses.nextOut bytes kept :: x.hist)
          x.ses.nextOut bytes :=
        ⟨e, fresh, by rw [sinceRestart_cons rfl]; exact List.mem_cons_self⟩
      obtain hb | hb := List.mem_cons.mp hb
      · cases hb
      · obtain same | hb := List.mem_cons.mp hb
        · obtain ⟨rfl, rfl, -⟩ : n = x.ses.nextOut ∧ b = bytes ∧ true = kept := by simpa using same
          exact emitted
        · exact ((r.sent n b hb).cons rfl).cons rfl
    · refine ⟨?_, trivial, r.resent⟩
      obtain rfl | rfl := fresh <;> trivial

theorem errands_recall {x y : World A J} (h : World.Errands P x y) (r : Recalls P x) :
    Recalls P y := by
  induction h with
  | refl => exact r
  | tail _ errand ih => exact errand_recalls errand ih

omit [KeepsLast J] in
theorem Recalls.told (r : Recalls P w) {j : J}
    (same : ∀ n, Journal.get j n = Journal.get w.journal n) : Recalls P { w with journal := j } :=
  ⟨fun n kept hg => r.holds n kept ((same n).symm.trans hg), r.sent, r.resent⟩

theorem tellJournal_recalls (r : Recalls P w) : Recalls P w.tellJournal := by
  unfold World.tellJournal
  split
  · exact r.told fun n => KeepsLast.get_markOut _ _ n
  · exact r

theorem markIn_recalls (r : Recalls P w) : Recalls P w.markIn := by
  unfold World.markIn
  split
  · exact r.told fun n => KeepsLast.get_markIn _ _ n
  · exact r

variable [Application A]

theorem perform_recalls (r : Recalls P w) (c : Call) : Recalls P (w.perform P c).1 := by
  have called : Recalls P { w with hist := .called w.ses c :: w.hist } :=
    r.log (v := ⟨w.ses, .called w.ses c :: w.hist⟩) rfl rfl rfl trivial
  obtain ⟨u, errands, told⟩ := World.perform_errands (P := P) w c
  have before := errands_recall errands called
  generalize (w.perform P c).1 = v at told ⊢
  cases told with
  | both b => exact tellJournal_recalls (markIn_recalls before)
  | spent own => exact tellJournal_recalls before
  | nothing holds => exact before
  | untouched own found => exact before

end Journals

/-! ### Runs -/

section Runs

variable {A J : Type} [Application A] [Journal J]

/-- The worlds of a session with one journal, which held nothing when the session was made. -/
inductive Recorded (P : Params) : World A J → Prop
  | start {s : Session} (initial : World.Initial P s) (app : A) (journal : J)
      (empty : ∀ n, Journal.get journal n = none) : Recorded P ⟨⟨s, []⟩, app, journal⟩
  | step {w : World A J} (h : Recorded P w) (c : Call) (fits : c.fits) :
    Recorded P (w.perform P c).1

theorem Recorded.reachable {w : World A J} (h : Recorded P w) : World.Reachable P w := by
  induction h with
  | start initial app journal => exact .init initial app journal
  | step _ c fits ih => exact ih.step c fits

theorem Recorded.run {w : World A J} (h : Recorded P w) (cs : List Call)
    (fits : ∀ c ∈ cs, c.fits) : Recorded P (w.run P cs) := by
  induction cs generalizing w with
  | nil => exact h
  | cons c cs ih =>
    exact ih (h.step c (fits c (by simp))) fun d hd => fits d (by simp [hd])

theorem reachable_owesCurrent {w : World A J} (h : World.Reachable P w)
    (ok : Always (AsksCurrent P) w.hist) : OwesCurrent P w.books := by
  obtain ⟨s, hs, moves⟩ :=
    World.reachable_moves (R := .free) (fun _ _ _ _ _ => trivial) trivial h
  refine moves_oweCurrent moves ok ⟨fun _ t b now => (by cases now), fun r hr => ?_, trivial⟩
  cases hs <;> cases hr

variable [KeepsLast J]

theorem recorded_recalls {w : World A J} (h : Recorded P w) : Recalls P w := by
  induction h with
  | @start s initial app journal empty =>
    refine ⟨fun n kept hg => ?_, fun n b hb => ?_, trivial⟩
    · rw [empty n] at hg
      cases hg
    · cases hb
  | step _ c _ ih => exact perform_recalls ih c

/-- **A resend is of the current numbering.** In every run of a session with one journal, while no
message asks back what was kept before the last restart alone and no restart finds such a number
owed, each message resent under a number is the resend of the last one kept under it, and that one
went out under this number since the last restart. -/
theorem replayed_current {w : World A J} (h : Recorded P w) (ok : Always (AsksCurrent P) w.hist)
    (new : List Event) (n : ℕ) (bytes : Bytes) (old : List Event)
    (hist : w.hist = new ++ .emitted (.replayed n bytes) :: old) :
    ∃ kept stamp e, newest (Event.keptAs n) (sinceRestart old) = some kept ∧
      asResend P.dict.toDictionary P.appScratch kept stamp = some bytes ∧
      (e = .reply n kept ∨ e = .originated n kept) ∧ .emitted e ∈ sinceRestart old := by
  have current : Always ResentCurrent w.hist := (reachable_owesCurrent h.reachable ok).resent
  have recalled := (recorded_recalls h).resent
  rw [hist] at current recalled
  obtain ⟨kept, stamp, last, laid, sent⟩ := recalled.of_append
  have fresh : n ∈ keptNumbers (sinceRestart old) :=
    current.of_append (mem_keptNumbers (stored_of_newest last))
  obtain ⟨b, newest_⟩ := exists_newest_of_mem fresh
  obtain rfl : b = kept := Option.some.inj ((newest_of_since newest_).symm.trans last)
  obtain ⟨e, is, out⟩ := sent (stored_of_newest newest_)
  exact ⟨b, stamp, e, newest_, laid, is, out⟩

end Runs

instance : KeepsLast KeepAll where
  get_put {j n k b kept} h := by
    rw [KeepAll.get_put] at h
    by_cases same : k = n
    · rw [if_pos same] at h
      rw [if_pos ⟨same, rfl⟩]
      exact (Option.some.inj h).symm
    · rw [if_neg same] at h
      rw [if_neg fun both => same both.1]
      exact h
  get_markIn _ _ _ := rfl
  get_markOut _ _ _ := rfl

/-- Did an application message go out for the first time? -/
def Event.writes : Event → Bool
  | .emitted (.reply _ _) | .emitted (.originated _ _) => true
  | _ => false

/-- Was a kept message resent? -/
def Event.isReplayed : Event → Bool
  | .emitted (.replayed _ _) => true
  | _ => false

theorem exists_of_isReplayed {h : List Event} (hd : h.head?.any Event.isReplayed) :
    ∃ n bytes old, h = .emitted (.replayed n bytes) :: old := by
  cases h with
  | nil => cases hd
  | cons d old =>
    cases d with
    | emitted e =>
      cases e with
      | replayed n bytes => exact ⟨n, bytes, old, rfl⟩
      | _ => cases hd
    | _ => cases hd

namespace Setting

theorem threeSent_recorded : Recorded acceptor threeSent :=
  Recorded.run (.start (.new _) _ _ fun _ => rfl) _ (by simp [Call.fits])

/-- The counterparty asks for the orders from the second number on. -/
def askAgain : Bytes := theirs "2" 2 [(7, ascii "2"), (16, ascii "0")]

/-- The three orders were sent, and are asked back. -/
def askedBack : World Silent KeepAll := threeSent.run acceptor [.receivedWith askAgain]

/-- The three orders were sent, both counts restarted with `141=Y`, and what is asked back is the
number of a TestRequest. -/
def askedAnew : World Silent KeepAll :=
  threeSent.run acceptor
    [.receivedWith (theirs "A" 1 [(98, ascii "0"), (108, ascii "30"), (141, ascii "Y")]),
      .sendTestRequest (ascii "T"), .receivedWith askAgain]

end Setting

open Setting in
theorem replayed_current_order :
    ∃ n bytes old kept e, askedBack.hist = .emitted (.replayed n bytes) :: old ∧
      (e = .reply n kept ∨ e = .originated n kept) ∧ .emitted e ∈ sinceRestart old := by
  have recorded : Recorded acceptor askedBack := threeSent_recorded.run _ (by simp [Call.fits])
  obtain ⟨n, bytes, old, hist⟩ := exists_of_isReplayed (h := askedBack.hist) (by decide +kernel)
  obtain ⟨kept, -, e, -, -, is, out⟩ := replayed_current recorded (by decide +kernel) [] n
    bytes old (hist.trans (List.nil_append _).symm)
  exact ⟨n, bytes, old, kept, e, hist, is, out⟩

open Setting in
/-- After a restart the number of a TestRequest is asked back, and an order that was kept under it
before is resent. -/
theorem older_order_resent :
    ¬ ∀ w : World Silent KeepAll, Recorded acceptor w → ∀ new n bytes old,
      w.hist = new ++ .emitted (.replayed n bytes) :: old →
        ∃ kept stamp e, asResend acceptor.dict.toDictionary acceptor.appScratch kept stamp =
            some bytes ∧
          (e = .reply n kept ∨ e = .originated n kept) ∧ .emitted e ∈ sinceRestart old := by
  intro h
  have recorded : Recorded acceptor askedAnew := threeSent_recorded.run _ (by simp [Call.fits])
  obtain ⟨n, bytes, old, hist⟩ := exists_of_isReplayed (h := askedAnew.hist) (by decide +kernel)
  obtain ⟨kept, -, e, -, is, out⟩ := h _ recorded [] n bytes old
    (hist.trans (List.nil_append _).symm)
  have quiet : (sinceRestart askedAnew.hist).any Event.writes = false := by decide +kernel
  rw [hist, sinceRestart_cons rfl, List.any_cons, Bool.or_eq_false_iff, List.any_eq_false] at quiet
  refine quiet.2 _ out ?_
  obtain rfl | rfl := is <;> rfl

end Fixbolt
