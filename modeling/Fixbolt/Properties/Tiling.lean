import Fixbolt.Lib.Tiling
import Fixbolt.Properties.Setting
import Fixbolt.Session.Deeds
import Fixbolt.Session.Resend

/-!
# The answer to a ResendRequest

What is asked back is answered in batches, over as many calls as it takes.

* `replayLoop_tiles`: one batch covers the next numbers that are owed;
* `resend_tiles`: the batches together are the tiling of the range asked for, while every number
  that comes up can be laid out.
-/

namespace Fixbolt

open History

/-! ### One batch -/

/-- What a message of an answer covers: a resend its own number, a gap fill those up to its
`36=`. -/
def Emission.piece : Emission → Option Piece
  | .replayed n _ => some (.one n)
  | .templated .gapFill slots _ =>
    if slots.lookup 43 = some (ascii "Y") ∧ slots.lookup 123 = some (ascii "Y") then
      match (slots.lookup 34).bind asU32?, (slots.lookup 36).bind asU32? with
      | some from_, some upto => some (.run from_ upto)
      | _, _ => none
    else none
  | _ => none

/-- The same, of an event. -/
def Event.piece : Event → Option Piece
  | .emitted e => e.piece
  | _ => none

/-- What the messages of an answer cover, oldest first. -/
def pieces (h : List Event) : List Piece := (h.filterMap Event.piece).reverse

theorem pieces_append (new old : List Event) : pieces (new ++ old) = pieces old ++ pieces new := by
  simp [pieces]

/-- An event that is part of an answer from a journal. -/
def Answers (P : Params) {J : Type} [Journal J] (j : J) (e : Event) : Prop :=
  (∃ n bytes, e = .emitted (.replayed n bytes) ∧ Resends P j n bytes) ∨
    ∃ slots bytes, e = .emitted (.templated .gapFill slots bytes) ∧ e.piece.isSome

/-- A session that differs in nothing but what a batch notes. -/
def SameVoice (s t : Session) : Prop :=
  ∃ sent lost, t = { s with lastSentMs := sent, resendBeyondJournal := lost }

/-- Everything that may come up in `[b, e]` can be laid out now: the messages held, and the gap
fills. -/
structure CanAnswer (P : Params) {J : Type} [Journal J] (j : J) (b e : ℕ) (s : Session) : Prop where
  resends : ∀ n kept, b ≤ n → n ≤ e → Journal.get j n = some kept →
    s.out.isSome ∧ (asResend P.dict.toDictionary P.appScratch kept s.stampNow).isSome
  fills : ∀ from_ upto, b ≤ from_ → from_ < upto → upto ≤ e + 1 →
    (Scene.fill P ⟨s, []⟩ from_ upto).isSome

instance (P : Params) {J : Type} [Journal J] (j : J) (b e : ℕ) (s : Session) :
    Decidable (CanAnswer P j b e s) :=
  decidable_of_iff
    ((∀ n < e + 1, b ≤ n → ∀ kept ∈ Journal.get j n,
        s.out.isSome ∧ (asResend P.dict.toDictionary P.appScratch kept s.stampNow).isSome) ∧
      ∀ upto < e + 2, ∀ from_ < upto, b ≤ from_ → (Scene.fill P ⟨s, []⟩ from_ upto).isSome)
    ⟨fun h => ⟨fun n kept low high holds => h.1 n (by omega) low kept holds,
        fun from_ upto low lt le => h.2 upto (by omega) from_ lt low⟩,
      fun h => ⟨fun n high low kept holds => h.resends n kept low (by omega) holds,
        fun upto high from_ lt low => h.fills from_ upto low lt (by omega)⟩⟩

section Batch

variable {P : Params} {J : Type} [Journal J] {j : J} {b e : ℕ} {s t : Session} {w w' : Scene}

theorem SameVoice.refl (s : Session) : SameVoice s s := ⟨s.lastSentMs, s.resendBeyondJournal, rfl⟩

theorem SameVoice.trans {u : Session} (h : SameVoice s t) (h' : SameVoice t u) : SameVoice s u := by
  obtain ⟨a, c, rfl⟩ := h
  obtain ⟨a', c', rfl⟩ := h'
  exact ⟨a', c', rfl⟩

/-- Whether a gap fill can be laid out does not depend on what a batch notes. -/
theorem fill_isSome (voice : SameVoice s w.ses) {from_ upto : ℕ}
    (fills : (Scene.fill P ⟨s, []⟩ from_ upto).isSome) : (w.fill P from_ upto).isSome := by
  obtain ⟨sent, lost, same⟩ := voice
  have slots : ∀ extra, w.ses.slotsFor (some from_) extra = s.slotsFor (some from_) extra := by
    rw [same]
    exact fun _ => rfl
  have stamp : w.ses.stampNow = s.stampNow := by rw [same]; rfl
  have out : w.ses.out = s.out := by rw [same]
  revert fills
  unfold Scene.fill Scene.sendAs
  rw [out, slots, stamp]
  dsimp only
  generalize s.slotsFor (some from_) [(43, ascii "Y"), (122, s.stampNow), (36, renderU32 upto),
    (123, ascii "Y")] = all
  cases s.out with
  | none => exact id
  | some o =>
    dsimp only
    split
    · exact id
    · split
      · exact id
      · exact fun _ => rfl

/-- A gap fill covers what it was asked to. -/
theorem fill_piece {from_ upto : ℕ} (low : from_ < u32Size) (high : upto < u32Size)
    (sent : w.fill P from_ upto = some w') :
    SameVoice w.ses w'.ses ∧ ∃ slots bytes,
      w'.hist = .emitted (.templated .gapFill slots bytes) :: w.hist ∧
        (Emission.templated .gapFill slots bytes).piece = some (.run from_ upto) := by
  obtain ⟨bytes, rfl⟩ := Scene.sendAs_eq sent
  refine ⟨⟨w.ses.nowMs, w.ses.resendBeyondJournal, rfl⟩, _, bytes, rfl, ?_⟩
  have number := fun tag => @Session.slotsFor_lookup w.ses (some from_)
    [(43, ascii "Y"), (122, w.ses.stampNow), (36, renderU32 upto), (123, ascii "Y")] tag
  have own : (w.ses.slotsFor (some from_) [(43, ascii "Y"), (122, w.ses.stampNow),
      (36, renderU32 upto), (123, ascii "Y")]).lookup 34 = some (renderU32 from_) := rfl
  have last : List.lookup 36 [(43, ascii "Y"), (122, w.ses.stampNow), (36, renderU32 upto),
      (123, ascii "Y")] = some (renderU32 upto) := rfl
  simp only [Emission.piece, own, number 43 (by decide), number 123 (by decide),
    number 36 (by decide), last, Option.bind_some, asU32?_renderU32 low, asU32?_renderU32 high]
  rfl

theorem replay_piece {n : ℕ} (sent : w.replay P j n = some (some w')) :
    SameVoice w.ses w'.ses ∧ ∃ bytes, w'.hist = .emitted (.replayed n bytes) :: w.hist ∧
      Resends P j n bytes := by
  unfold Scene.replay at sent
  split at sent
  · cases sent
  · rename_i kept holds
    split at sent
    · cases sent
    · split at sent
      · cases sent
      · rename_i bytes laid
        obtain rfl := Option.some.inj (Option.some.inj sent)
        exact ⟨⟨w.ses.nowMs, w.ses.resendBeyondJournal, rfl⟩, bytes, rfl, kept, _, holds, laid⟩

/-- A number that is held is resent, and one that is not is left to a gap fill. -/
theorem replay_cases (voice : SameVoice s w.ses) (can : CanAnswer P j b e s) {n : ℕ} (low : b ≤ n)
    (high : n ≤ e) :
    Holds j n ∧ (∃ w', w.replay P j n = some (some w')) ∨
      ¬ Holds j n ∧ w.replay P j n = some none := by
  unfold Scene.replay Holds
  cases holds : Journal.get j n with
  | none => exact .inr ⟨by simp, rfl⟩
  | some kept =>
    obtain ⟨out, laid⟩ := can.resends n kept low high holds
    obtain ⟨sent, lost, same⟩ := voice
    have stamp : w.ses.stampNow = s.stampNow := by rw [same]; rfl
    have templates : w.ses.out.isNone = false := by rw [same]; simpa using out
    obtain ⟨bytes, hb⟩ := Option.isSome_iff_exists.mp laid
    refine .inl ⟨rfl, ?_⟩
    simp only [templates, Bool.false_eq_true, if_false, stamp, hb]
    exact ⟨_, rfl⟩

/-- What a batch does to the scene it finds, from the number `n` on. -/
structure Batch (P : Params) (j : J) (e : ℕ) (budget : ℕ) (w : Scene) (n : ℕ) (w' : Scene)
    (n' : ℕ) : Prop where
  voice : SameVoice w.ses w'.ses
  tiles : ∃ new, w'.hist = new ++ w.hist ∧ new.length ≤ budget ∧ (∀ x ∈ new, Answers P j x) ∧
    Tiles (Holds j) e n (pieces new) n'
  within : n' ≤ e + 1
  goes : n ≤ e → 0 < budget → n < n'

theorem Batch.head {budget n m n' : ℕ} {v : Scene} {x : Event} {p : Piece}
    (voice : SameVoice w.ses v.ses) (hist : v.hist = x :: w.hist) (answers : Answers P j x)
    (piece : x.piece = some p) (lt : n < m) (first : Tiles (Holds j) e n [p] m)
    (rest : Batch P j e budget v m w' n') : Batch P j e (budget + 1) w n w' n' := by
  obtain ⟨new, hnew, short, all, tiles⟩ := rest.tiles
  refine ⟨voice.trans rest.voice, ⟨new ++ [x], ?_, ?_, ?_, ?_⟩, rest.within, fun _ _ => ?_⟩
  · rw [hnew, hist, List.append_assoc]
    rfl
  · simpa using short
  · intro y hy
    obtain hy | hy := List.mem_append.mp hy
    · exact all y hy
    · obtain rfl := List.mem_singleton.mp hy
      exact answers
  · rw [pieces_append, show pieces [x] = [p] by simp [pieces, piece]]
    exact first.append tiles
  · exact lt.trans_le tiles.le

/-- **One batch covers the next numbers that are owed.** -/
theorem replayLoop_tiles (floors : KeepsFloor j) (small : e < u32Max) (can : CanAnswer P j b e s)
    (budget : ℕ) (w : Scene) (n : ℕ) (voice : SameVoice s w.ses) (low : b ≤ n)
    (high : n ≤ e + 1) :
    ∃ w' n', Scene.replayLoop P j budget w ⟨n, e⟩ = (w', some ⟨n', e⟩) ∧
      Batch P j e budget w n w' n' := by
  have size : u32Size = u32Max + 1 := by decide
  have nothing : ∀ x ∈ ([] : List Event), Answers P j x := fun x hx => absurd hx List.not_mem_nil
  induction budget generalizing w n with
  | zero =>
    exact ⟨w, n, rfl, .refl _, ⟨[], rfl, Nat.le_refl _, nothing, .nil _⟩, high,
      fun _ h => absurd h (by omega)⟩
  | succ budget ih =>
    unfold Scene.replayLoop
    by_cases past : e < n
    · rw [if_pos past]
      exact ⟨w, n, rfl, .refl _, ⟨[], rfl, Nat.zero_le _, nothing, .nil _⟩, high,
        fun le => absurd le (by omega)⟩
    · rw [if_neg past]
      have le : n ≤ e := by omega
      dsimp only
      obtain ⟨holds, v, sent⟩ | ⟨missing, skip⟩ := replay_cases voice can low le
      · obtain ⟨same, bytes, hist, resends⟩ := replay_piece sent
        have next : wrapU32 (n + 1) = n + 1 := Nat.mod_eq_of_lt (by omega)
        obtain ⟨w', n', run, rest⟩ := ih v (n + 1) (voice.trans same) (Nat.le_succ_of_le low)
          (Nat.succ_le_succ le)
        rw [sent, next]
        exact ⟨w', n', run, .head same hist (.inl ⟨n, bytes, rfl, resends⟩) rfl
          (Nat.lt_succ_self n) (.one le holds (.nil _)) rest⟩
      · obtain ⟨low', high', gone, found⟩ := fillEnd_spec floors small le missing
        rw [skip]
        dsimp only
        generalize Scene.fillEnd j n e = upto at low' high' gone found ⊢
        generalize hu : (w.upd fun s =>
          { s with
            resendBeyondJournal := wrapU32 (s.resendBeyondJournal +
              Scene.lostBelowFloor j n upto) }) = u
        have counted : SameVoice w.ses u.ses := ⟨_, _, by rw [← hu]; rfl⟩
        have hist : u.hist = w.hist := by rw [← hu]; rfl
        obtain ⟨v, sent⟩ := Option.isSome_iff_exists.mp
          (fill_isSome (voice.trans counted) (can.fills n upto low low' high'))
        obtain ⟨same, slots, bytes, hv, piece⟩ := fill_piece (by omega) (by omega) sent
        obtain ⟨w', n', run, rest⟩ := ih v upto ((voice.trans counted).trans same) (by omega) high'
        have covers : (Event.emitted (.templated .gapFill slots bytes)).piece =
            some (.run n upto) := piece
        rw [sent]
        exact ⟨w', n', run, .head (counted.trans same) (hv.trans (by rw [hist]))
          (.inr ⟨slots, bytes, rfl, by rw [covers]; rfl⟩) covers low'
          (.run low' high' gone found (.nil _)) rest⟩

/-- What is left of `[b, e]` from the number `n` on. -/
def owedFrom (n e : ℕ) : Option Replay := if n ≤ e then some ⟨n, e⟩ else none

/-- **One call sends the next batch.** -/
theorem continueReplay_tiles (floors : KeepsFloor j) (small : e < u32Max)
    (can : CanAnswer P j b e w.ses) {n : ℕ} (low : b ≤ n) (high : n ≤ e + 1)
    (owed : w.ses.owed = owedFrom n e) :
    (w.continueReplay P j).2 = true ∧ (w.continueReplay P j).1.ses.nextOut = w.ses.nextOut ∧
      ∃ n' new, (w.continueReplay P j).1.ses.owed = owedFrom n' e ∧ n' ≤ e + 1 ∧
        min (n + 1) (e + 1) ≤ n' ∧ (w.continueReplay P j).1.hist = new ++ w.hist ∧
        new.length ≤ max w.ses.cfg.resendBatch 1 ∧ (∀ x ∈ new, Answers P j x) ∧
        Tiles (Holds j) e n (pieces new) n' := by
  unfold owedFrom at owed
  unfold Scene.continueReplay
  split at owed
  · rename_i due
    obtain ⟨w', n', run, batch⟩ := replayLoop_tiles (P := P) floors small can
      (max w.ses.cfg.resendBatch 1) w n (.refl _) low high
    obtain ⟨sent, lost, same⟩ := batch.voice
    obtain ⟨new, hist, short, all, tiles⟩ := batch.tiles
    have goes := batch.goes due (by omega)
    rw [owed]
    dsimp only
    rw [run]
    refine ⟨rfl, ?_, n', new, rfl, batch.within, by omega, hist, short, all, tiles⟩
    simp [Scene.upd, same]
  · rename_i past
    rw [owed]
    refine ⟨rfl, rfl, n, [], ?_, high, by omega, rfl, Nat.zero_le _, ?_, .nil _⟩
    · rw [owedFrom, if_neg past]
      exact owed
    · exact fun x hx => absurd hx List.not_mem_nil

end Batch

/-! ### All batches -/

/-- The calls that answer a ResendRequest: before each of them `between` happens to the session. -/
def answering (P : Params) {J : Type} [Journal J] (j : J) (between : ℕ → Session → Session)
    (w : Scene) : ℕ → Scene × Bool
  | 0 => (w, true)
  | i + 1 =>
    match answering P j between w i with
    | (v, true) => (v.upd (between i)).continueReplay P j
    | (v, false) => (v, false)

/-- The scene that the `i`-th of these calls finds. -/
def beforeCall (P : Params) {J : Type} [Journal J] (j : J) (between : ℕ → Session → Session)
    (w : Scene) (i : ℕ) : Scene :=
  (answering P j between w i).1.upd (between i)

section Answer

variable {P : Params} {J : Type} [Journal J] {j : J} {b e : ℕ} {between : ℕ → Session → Session}

theorem answering_succ {w : Scene} {i : ℕ} (up : (answering P j between w i).2 = true) :
    answering P j between w (i + 1) = (beforeCall P j between w i).continueReplay P j := by
  rw [answering, beforeCall]
  generalize answering P j between w i = r at up ⊢
  obtain ⟨v, ok⟩ := r
  subst up
  rfl

theorem answering_tiles {w : Scene} (floors : KeepsFloor j) (small : e < u32Max)
    (leaves : ∀ i s, (between i s).owed = s.owed) (start : w.ses.owed = owedFrom b e)
    (within : b ≤ e + 1) (can : ∀ i, CanAnswer P j b e (beforeCall P j between w i).ses) (i : ℕ) :
    (answering P j between w i).2 = true ∧
      ∃ n new, (answering P j between w i).1.ses.owed = owedFrom n e ∧ n ≤ e + 1 ∧
        min (b + i) (e + 1) ≤ n ∧ (answering P j between w i).1.hist = new ++ w.hist ∧
        Tiles (Holds j) e b (pieces new) n := by
  induction i with
  | zero => exact ⟨rfl, b, [], start, within, by omega, rfl, .nil _⟩
  | succ i ih =>
    obtain ⟨up, n, new, owed, high, low, hist, tiles⟩ := ih
    have found : (beforeCall P j between w i).ses.owed = owedFrom n e :=
      (leaves i _).trans owed
    obtain ⟨ok, -, n', more, owed', high', low', hist', -, -, tiles'⟩ :=
      continueReplay_tiles floors small (can i) tiles.le high found
    rw [answering_succ up]
    refine ⟨ok, n', more ++ new, owed', high', by omega, ?_, ?_⟩
    · rw [hist', List.append_assoc, ← hist]
      rfl
    · rw [pieces_append]
      exact tiles.append tiles'

/-- Once nothing is owed the calls do nothing. -/
theorem answering_done {w : Scene} {i : ℕ} (up : (answering P j (fun _ s => s) w i).2 = true)
    (done : (answering P j (fun _ s => s) w i).1.ses.owed = none) (k : ℕ) :
    answering P j (fun _ s => s) w (i + k) = answering P j (fun _ s => s) w i := by
  induction k with
  | zero => rfl
  | succ k ih =>
    rw [← ih] at up done
    have found : (beforeCall P j (fun _ s => s) w (i + k)).ses.owed = none := done
    rw [← add_assoc, answering_succ up, ← ih]
    unfold Scene.continueReplay
    rw [found]
    exact Prod.ext rfl up.symm

/-- A call that could not send what came up is the last one. -/
theorem answering_stopped {w : Scene} {i : ℕ} (stops : (answering P j between w i).2 = false)
    (k : ℕ) : answering P j between w (i + k) = answering P j between w i := by
  induction k with
  | zero => rfl
  | succ k ih =>
    rw [← ih] at stops
    rw [← add_assoc, answering, ← ih]
    generalize answering P j between w (i + k) = r at stops ⊢
    obtain ⟨v, ok⟩ := r
    subst stops
    rfl

end Answer

namespace Setting

theorem keepAll_floors (j : KeepAll) : KeepsFloor j := by
  intro n holds
  obtain ⟨bytes, hb⟩ := Option.isSome_iff_exists.mp holds
  have mem : n ∈ j.kept.map (·.1) := by
    obtain ⟨before, after, hk, -⟩ := List.lookup_eq_some_iff.mp hb
    rw [hk]
    simp
  cases least : (j.kept.map (·.1)).min? with
  | none =>
    rw [List.min?_eq_none_iff.mp least] at mem
    cases mem
  | some floor => exact ⟨floor, least, (List.min?_eq_some_iff.mp least).2 n mem⟩

/-- A ResendRequest of the counterparty. -/
def asks (from_ upto : ℕ) : Inbound :=
  .read (viewOf acceptor (theirs "2" 2 [(7, renderU32 from_), (16, renderU32 upto)])) 2

/-- The acceptor that sent three orders, once it was asked for 1 and 2. -/
def askedTwo : Scene := (threeSent.judgeResendRequest (asks 1 2)).1

theorem askedTwo_can (i : ℕ) : CanAnswer acceptor threeSent.journal 1 2
    (beforeCall acceptor threeSent.journal (fun _ s => s) askedTwo i).ses := by
  match i with
  | 0 => decide +kernel
  | 1 => decide +kernel
  | i + 2 =>
    rw [beforeCall, add_comm i 2, answering_done (by decide +kernel) (by decide +kernel)]
    decide +kernel

end Setting

namespace Setting

/-- An order of this end's application with a separator in a DATA field. -/
def separated : Bytes :=
  frame (ascii "FIX.4.4")
    [(35, ascii "D"), (49, ascii "S"), (56, ascii "T"), (34, ascii "2"), (52, stamp),
      (11, ascii "A"), (54, ascii "1"), (60, stamp), (40, ascii "1"), (354, ascii "3"),
      (355, ascii "a" ++ [SOH] ++ ascii "b")]

/-- The acceptor, whose application answered an order with such a message. -/
def repliedSeparated : World Replies KeepAll :=
  (⟨⟨.new acceptor config, []⟩, ⟨separated⟩, ⟨[]⟩⟩ : World Replies KeepAll).run acceptor
    [.connect, .tick now, .receivedWith (logon 1), .receivedWith (order 2)]

theorem repliedSeparated_reachable : World.Reachable acceptor repliedSeparated :=
  (World.Reachable.init (.new config) _ _).run _ _ (by simp [Call.fits])

theorem separated_stays (i : ℕ) :
    (answering acceptor repliedSeparated.journal (fun _ s => s)
      (repliedSeparated.judgeResendRequest (asks 2 2)).1 i).1.hist = repliedSeparated.hist := by
  have stops : (answering acceptor repliedSeparated.journal (fun _ s => s)
      (repliedSeparated.judgeResendRequest (asks 2 2)).1 1).2 = false := by decide +kernel
  cases i with
  | zero => decide +kernel
  | succ i =>
    rw [add_comm i 1, answering_stopped stops]
    decide +kernel

end Setting

end Fixbolt
