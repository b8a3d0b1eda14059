import Fixbolt.Engine.Dialing

/-!
# An initiator that dials again

What the loop did, read as a history: an attempt to connect, sessions that log on, and one ending
before the next attempt. The policy is what the history told it, so an attempt never comes before the
wait that the last ending began.

* `Stage.after`, `Trail`: what may follow what, and that it did;
* `Dialer.Sound`, `Dialer.sound_iterate`: a round keeps the history and what the loop knows of it;
* `Trail.between`: what lies between two attempts;
* `Dialer.paced`: every run.
-/

namespace Fixbolt

variable {p policy : Policy} {hist : List Dialed} {t : ℕ} {d : Dialer} {r : Round}

/-! ### Histories -/

/-- How far an attempt has got. -/
inductive Stage where
  /-- It is shut, or there was none. -/
  | closed
  | open_
  /-- Sessions logged on that the policy was not told of. -/
  | risen
deriving DecidableEq, Repr

/-- What may follow what. -/
def Stage.after : Stage → Dialed → Option Stage
  | closed, .dial _ => some open_
  | closed, _ => none
  | _, .dial _ => none
  | _, .told (.dropped _) => some closed
  | _, .up => some risen
  | risen, .told .loggedOn => some open_
  | open_, .told .loggedOn => none

theorem Stage.after_closed {stage : Stage} {e : Dialed} (may : stage.after e = some .closed) :
    ∃ t, e = .told (.dropped t) := by
  rcases e with t | (t | _) | _
  · cases stage <;> cases may
  · exact ⟨t, rfl⟩
  · cases stage <;> cases may
  · cases stage <;> cases may

theorem Stage.after_risen {stage : Stage} {e : Dialed} (may : stage.after e = some .risen) :
    e = .up := by
  rcases e with t | (t | _) | _
  · cases stage <;> cases may
  · cases stage <;> cases may
  · cases stage <;> cases may
  · rfl

def Dialed.told? : Dialed → Option Told
  | told what => some what
  | _ => none

/-- The policy, after all that it was told. -/
def heard (p : Policy) (hist : List Dialed) : Policy :=
  (hist.filterMap Dialed.told?).foldl Told.tell p

/-- A history in which each thing may follow the one before, up to a stage, and every attempt was
made when the policy said so. -/
structure Trail (p policy : Policy) (hist : List Dialed) (stage : Stage) : Prop where
  stage : hist.foldlM Stage.after .closed = some stage
  policy : policy = heard p hist
  dials : ∀ before t later, hist = before ++ .dial t :: later → (heard p before).next t = .now

theorem heard_concat (p : Policy) (hist : List Dialed) (e : Dialed) :
    heard p (hist ++ [e]) = match e with
      | .told what => what.tell (heard p hist)
      | _ => heard p hist := by
  unfold heard
  rw [List.filterMap_append, List.foldl_append]
  cases e <;> rfl

namespace Trail

variable {stage : Stage}

theorem new (p : Policy) : Trail p p [] .closed where
  stage := rfl
  policy := rfl
  dials before t later eq := by
    cases before <;> cases eq

/-- What may come next comes, and an attempt when the policy says so. -/
theorem next {next : Stage} (trail : Trail p policy hist stage) {e : Dialed}
    (may : stage.after e = some next) (now : ∀ t, e = .dial t → policy.next t = .now) :
    Trail p (heard p (hist ++ [e])) (hist ++ [e]) next where
  stage := by
    rw [List.foldlM_append, trail.stage]
    show (stage.after e).bind some = some next
    rw [may]
    rfl
  policy := rfl
  dials before t later eq := by
    rcases later.eq_nil_or_concat with rfl | ⟨rest, last, rfl⟩
    · obtain ⟨rfl, is⟩ := List.append_inj' eq rfl
      rw [← trail.policy]
      exact now t (List.singleton_inj.mp is)
    · rw [List.concat_eq_append, ← List.cons_append, ← List.append_assoc] at eq
      exact trail.dials before t rest (List.append_inj' eq rfl).1

theorem dial (trail : Trail p policy hist .closed) (now : policy.next t = .now) :
    Trail p policy (hist ++ [.dial t]) .open_ := by
  have after := trail.next (e := .dial t) rfl fun t' eq => by
    cases eq
    exact now
  rwa [heard_concat, ← trail.policy] at after

theorem dropped (trail : Trail p policy hist stage) (begun : stage ≠ .closed) (t : ℕ) :
    Trail p (policy.dropped t) (hist ++ [.told (.dropped t)]) .closed := by
  have may : stage.after (.told (.dropped t)) = some .closed := by
    cases stage with
    | closed => exact absurd rfl begun
    | open_ | risen => rfl
  have after := trail.next may nofun
  rwa [heard_concat, ← trail.policy] at after

theorem up (trail : Trail p policy hist stage) (begun : stage ≠ .closed) :
    Trail p policy (hist ++ [.up]) .risen := by
  have may : stage.after .up = some .risen := by
    cases stage with
    | closed => exact absurd rfl begun
    | open_ | risen => rfl
  have after := trail.next may nofun
  rwa [heard_concat, ← trail.policy] at after

theorem ups (trail : Trail p policy hist stage) (begun : stage ≠ .closed) (n : ℕ) :
    Trail p policy (hist ++ List.replicate (n + 1) .up) .risen := by
  induction n with
  | zero => exact trail.up begun
  | succ n ih =>
    rw [List.replicate_succ', ← List.append_assoc]
    exact ih.up nofun

theorem loggedOn (trail : Trail p policy hist .risen) :
    Trail p policy.loggedOn (hist ++ [.told .loggedOn]) .open_ := by
  have after := trail.next (e := .told .loggedOn) rfl nofun
  rwa [heard_concat, ← trail.policy] at after

/-- An ending is all that an attempt is closed with. -/
theorem closed_after {mid : List Dialed} {stage : Stage} (begun : stage ≠ .closed)
    (ran : mid.foldlM Stage.after stage = some .closed) (single : ∀ t, .dial t ∉ mid) :
    ∃ life t, mid = life ++ [.told (.dropped t)] ∧ ∀ u, .told (.dropped u) ∉ life := by
  induction mid generalizing stage with
  | nil => exact absurd (Option.some.inj ran) begun
  | cons e mid ih =>
    obtain ⟨next, may, rest⟩ := Option.bind_eq_some_iff.mp ran
    have single_mid : ∀ t, .dial t ∉ mid := fun t mem => single t (List.mem_cons_of_mem _ mem)
    by_cases shut : next = .closed
    · -- Behind the ending only another attempt may follow.
      subst shut
      have empty : mid = [] := by
        cases mid with
        | nil => rfl
        | cons e' mid =>
          obtain ⟨_, may', -⟩ := Option.bind_eq_some_iff.mp rest
          cases e' with
          | dial t => exact absurd List.mem_cons_self (single_mid t)
          | told what => cases may'
          | up => cases may'
      subst empty
      obtain ⟨t, rfl⟩ := Stage.after_closed may
      exact ⟨[], t, rfl, fun _ => List.not_mem_nil⟩
    · obtain ⟨life, t, rfl, none⟩ := ih shut rest single_mid
      refine ⟨e :: life, t, rfl, fun u mem => ?_⟩
      obtain rfl | later := List.mem_cons.mp mem
      · refine shut ?_
        cases stage <;> cases may
        · rfl
        · rfl
      · exact none u later

/-- Sessions that the policy is told of logged on just before. -/
theorem last_up {hist : List Dialed} (ran : hist.foldlM Stage.after .closed = some .risen) :
    ∃ earlier, hist = earlier ++ [.up] := by
  rcases hist.eq_nil_or_concat with rfl | ⟨earlier, last, rfl⟩
  · cases ran
  · rw [List.concat_eq_append, List.foldlM_append] at ran
    obtain ⟨stage, -, may⟩ := Option.bind_eq_some_iff.mp ran
    obtain ⟨after, may, eq⟩ := Option.bind_eq_some_iff.mp may
    obtain rfl : after = .risen := Option.some.inj eq
    obtain rfl := Stage.after_risen may
    exact ⟨earlier, List.concat_eq_append⟩

/-- **Between two attempts lies one ending**, the last thing there, and the wait that it began. -/
theorem between {stage : Stage} (trail : Trail p policy hist stage)
    {before mid later : List Dialed} {t₁ t₂ : ℕ}
    (at_ : hist = before ++ .dial t₁ :: (mid ++ .dial t₂ :: later)) (single : ∀ t, .dial t ∉ mid) :
    ∃ life t, mid = life ++ [.told (.dropped t)] ∧ (∀ u, .told (.dropped u) ∉ life) ∧
      heard p (before ++ .dial t₁ :: mid) = (heard p (before ++ .dial t₁ :: life)).dropped t ∧
      (heard p (before ++ .dial t₁ :: mid)).next t₂ = .now ∧
      saturatingAdd t (heard p (before ++ .dial t₁ :: mid)).delay ≤ t₂ := by
  have ran := trail.stage
  rw [at_, List.foldlM_append] at ran
  obtain ⟨s₁, -, ran⟩ := Option.bind_eq_some_iff.mp ran
  obtain ⟨s₂, may, ran⟩ := Option.bind_eq_some_iff.mp ran
  rw [List.foldlM_append] at ran
  obtain ⟨s₃, during, ran⟩ := Option.bind_eq_some_iff.mp ran
  obtain ⟨s₄, may', -⟩ := Option.bind_eq_some_iff.mp ran
  have begun : s₂ ≠ .closed := by
    intro shut
    obtain ⟨t, is⟩ := Stage.after_closed (shut ▸ may)
    cases is
  have shut : s₃ = .closed := by
    cases s₃ with
    | closed => rfl
    | open_ | risen => cases may'
  obtain ⟨life, t, rfl, none⟩ := closed_after begun (shut ▸ during) single
  have now := trail.dials (before ++ .dial t₁ :: (life ++ [.told (.dropped t)])) t₂ later
    (by rw [at_]; simp)
  have ended : heard p (before ++ .dial t₁ :: (life ++ [.told (.dropped t)])) =
      (heard p (before ++ .dial t₁ :: life)).dropped t := by
    rw [← List.cons_append, ← List.append_assoc, heard_concat]
    rfl
  refine ⟨life, t, rfl, none, ended, now, ?_⟩
  rw [ended] at now ⊢
  exact (Policy.next_eq_now.mp now).2.2

end Trail

/-! ### Rounds -/

namespace Dialer

/-- What the loop knows is what its history says. -/
structure Sound (p : Policy) (d : Dialer) : Prop where
  trail : ∃ stage, Trail p d.policy d.hist stage ∧
    (stage = .closed ↔ d.up = false ∧ d.handshaking = none)
  one : d.connections.length + d.handshaking.toList.length ≤ 1
  up : d.connections ≠ [] → d.up = true
  apart : d.up = true → d.handshaking = none
  logons : d.logons = d.engineLogons
  counted : d.engineLogons ≤ 2 ^ 64 - 1

theorem sound_new (p : Policy) (handshakeMs : ℕ) : (new p handshakeMs).Sound p where
  trail := ⟨.closed, .new p, ⟨fun _ => ⟨rfl, rfl⟩, fun _ => rfl⟩⟩
  one := Nat.zero_le _
  up is := absurd rfl is
  apart is := nomatch is
  logons := rfl
  counted := Nat.zero_le _

variable {nowMs : ℕ}

theorem sound_ending (nowMs : ℕ) (sound : d.Sound p) (empty : d.connections = []) :
    (d.ending nowMs).Sound p ∧ (d.ending nowMs).up = false ∧ (d.ending nowMs).connections = [] := by
  unfold ending
  by_cases up : d.up
  · rw [if_pos up]
    obtain ⟨stage, trail, closed⟩ := sound.trail
    have begun : stage ≠ .closed := fun shut => by
      rw [(closed.mp shut).1] at up
      cases up
    have idle := sound.apart up
    refine ⟨{ sound with
      trail := ⟨.closed, trail.dropped begun nowMs, ⟨fun _ => ⟨rfl, idle⟩, fun _ => rfl⟩⟩
      up := fun some => absurd empty some
      apart := nofun }, rfl, empty⟩
  · rw [if_neg up]
    exact ⟨sound, Bool.eq_false_iff.mpr up, empty⟩

theorem sound_attempt (nowMs : ℕ) (dial : Dial) (sound : d.Sound p) (down : d.up = false)
    (empty : d.connections = []) :
    (d.attempt nowMs dial).Sound p ∧ (d.attempt nowMs dial).up = false ∧
      (d.attempt nowMs dial).connections = [] := by
  unfold attempt
  split
  · exact ⟨sound, down, empty⟩
  · rename_i idle
    split
    · exact ⟨{ sound with }, down, empty⟩
    · exact ⟨sound, down, empty⟩
    · rename_i now
      obtain ⟨stage, trail, closed⟩ := sound.trail
      obtain rfl := closed.mpr ⟨down, idle⟩
      have dialed := trail.dial now
      unfold connect
      cases dial with
      | connected =>
        refine ⟨{ sound with
          trail := ⟨.open_, dialed, ⟨nofun, fun is => nomatch is.2⟩⟩
          one := ?_
          apart := fun is => nomatch down.symm.trans is }, down, empty⟩
        show d.connections.length + 1 ≤ 1
        rw [empty]
        exact le_rfl
      | unwrapped | refused =>
        exact ⟨{ sound with
          trail := ⟨.closed, dialed.dropped nofun nowMs,
            ⟨fun _ => ⟨down, idle⟩, fun _ => rfl⟩⟩ }, down, empty⟩

theorem sound_decide (sound : d.Sound p) (down : d.up = false) (empty : d.connections = []) :
    (d.decide_ r).Sound p := by
  unfold decide_
  split
  · exact sound
  · rename_i since open_
    obtain ⟨stage, trail, closed⟩ := sound.trail
    have begun : stage ≠ .closed := fun shut => by
      rw [(closed.mp shut).2] at open_
      cases open_
    -- The socket is let go, or taken back.
    have shut (asked : Option ℕ) (parked : Bool) : Sound p (dropped { d with
        handshaking := none, parked := parked, askedMs := asked } r.nowMs) :=
      { sound with
        trail := ⟨.closed, trail.dropped begun r.nowMs, ⟨fun _ => ⟨down, rfl⟩, fun _ => rfl⟩⟩
        one := by
          show d.connections.length + 0 ≤ 1
          rw [empty]
          exact Nat.zero_le 1
        apart := fun _ => rfl }
    have kept (asked : Option ℕ) (parked : Bool) : Sound p { d with
        handshaking := some since, parked := parked, askedMs := asked } := by
      rw [show some since = d.handshaking from open_.symm]
      exact { sound with }
    have ready (asked : Option ℕ) : Sound p { d with
        handshaking := none, parked := false, askedMs := asked
        connections := d.connections ++ [false], up := true } :=
      { sound with
        trail := ⟨stage, trail, ⟨fun is => absurd is begun, fun is => by cases is.1⟩⟩
        one := by
          show (d.connections ++ [false]).length + 0 ≤ 1
          rw [empty]
          exact le_rfl
        up := fun _ => rfl
        apart := fun _ => rfl }
    cases r.handshake with
    | ready =>
      dsimp only [dialReady]
      split
      · rw [if_pos (show (!false) = true from rfl)]
        split
        · exact shut none false
        · exact kept d.askedMs true
      · dsimp only
        split
        · split
          · exact shut none false
          · exact kept (some r.nowMs) true
        · split
          · exact ready none
          · exact shut none false
    | pending =>
      dsimp only
      split
      · exact shut d.askedMs d.parked
      · exact kept d.askedMs d.parked
    | failed => exact shut d.askedMs d.parked

theorem turned_length (conns : List Bool) (answers : List (Bool × Bool)) :
    (turned conns answers).1.length ≤ conns.length := by
  induction conns generalizing answers with
  | nil => exact le_rfl
  | cons was rest ih =>
    unfold turned
    have fewer := ih answers.tail
    dsimp only
    split
    · exact Nat.le_succ_of_le fewer
    · exact Nat.succ_le_succ fewer

theorem sound_turn (sound : d.Sound p) : (d.turn r).Sound p := by
  unfold turn
  have fewer := turned_length d.connections r.turned
  have none_ups : d.connections = [] → turned d.connections r.turned = ([], 0) := fun empty => by
    rw [empty]
    rfl
  generalize turned d.connections r.turned = answer at fewer none_ups
  obtain ⟨left, ups⟩ := answer
  dsimp only at fewer none_ups ⊢
  obtain ⟨stage, trail, closed⟩ := sound.trail
  have up : (d.up || !left.isEmpty) = d.up := by
    cases is : d.up with
    | true => rfl
    | false =>
      have empty : d.connections = [] := by
        by_contra some
        rw [sound.up some] at is
        cases is
      rw [empty] at fewer
      rw [List.length_eq_zero_iff.mp (Nat.le_zero.mp fewer)]
      rfl
  rw [up]
  have one : left.length + d.handshaking.toList.length ≤ 1 :=
    (Nat.add_le_add_right fewer _).trans sound.one
  have still : left ≠ [] → d.up = true := fun some => by
    refine sound.up fun empty => some ?_
    rw [empty] at fewer
    exact List.length_eq_zero_iff.mp (Nat.le_zero.mp fewer)
  -- Whether the loop returns does not matter to what it knows.
  have returned (e : Dialer) (h : e.Sound p) :
      (if r.finished then { e with returned := true } else e).Sound p := by
    split
    · exact { h with }
    · exact h
  refine returned _ ?_
  cases ups with
  | zero =>
    have same : saturatingAdd d.engineLogons 0 = d.engineLogons := Nat.min_eq_left sound.counted
    rw [same, if_neg (not_not_intro sound.logons.symm)]
    exact { sound with
      trail := ⟨stage, by rw [List.replicate_zero, List.append_nil]; exact trail, closed⟩
      one := one, up := still }
  | succ n =>
    have is_up : d.up = true := sound.up fun empty => by cases none_ups empty
    have begun : stage ≠ .closed := fun shut => by
      rw [(closed.mp shut).1] at is_up
      cases is_up
    have risen := trail.ups begun n
    have bound : saturatingAdd d.engineLogons (n + 1) ≤ 2 ^ 64 - 1 := Nat.min_le_right _ _
    have not_closed {s : Stage} (is : s ≠ .closed) :
        s = .closed ↔ d.up = false ∧ d.handshaking = none :=
      ⟨fun eq => absurd eq is, fun down => absurd (is_up.symm.trans down.1) nofun⟩
    split
    · exact { sound with
        trail := ⟨.open_, risen.loggedOn, not_closed nofun⟩
        one := one, up := still, logons := rfl, counted := bound }
    · rename_i same
      exact { sound with
        trail := ⟨.risen, risen, not_closed nofun⟩
        one := one, up := still, logons := (not_not.mp same).symm, counted := bound }

/-- **A round keeps the history.** -/
theorem sound_iterate (sound : d.Sound p) : (d.iterate r).Sound p := by
  unfold iterate
  split
  · exact sound
  · split
    · rename_i empty
      have empty := List.isEmpty_iff.mp empty
      obtain ⟨ended, down, none⟩ := sound_ending r.nowMs sound empty
      obtain ⟨dialed, down, none⟩ := sound_attempt r.nowMs r.dial ended down none
      dsimp only
      split
      · exact dialed
      · exact sound_turn (sound_decide dialed down none)
    · exact sound_turn sound

theorem sound_run (sound : d.Sound p) (rs : List Round) : (d.run rs).Sound p := by
  induction rs generalizing d with
  | nil => exact sound
  | cons r rs ih => exact ih (sound_iterate sound)

/-! ### Every run -/

/-- What a round adds to the history lies behind it. -/
theorem hist_decide (d : Dialer) (r : Round) : d.hist <+: (d.decide_ r).hist := by
  have told (e : Dialer) (same : e.hist = d.hist) : d.hist <+: (e.dropped r.nowMs).hist :=
    ⟨[.told (.dropped r.nowMs)], congrArg (· ++ _) same.symm⟩
  unfold decide_
  split
  · exact List.prefix_rfl
  · cases r.handshake with
    | ready =>
      dsimp only [dialReady]
      split
      all_goals
        dsimp only
        split
        · split
          · exact told _ rfl
          · exact List.prefix_rfl
        · split
          · exact List.prefix_rfl
          · exact told _ rfl
    | pending =>
      dsimp only
      split
      · exact told _ rfl
      · exact List.prefix_rfl
    | failed => exact told _ rfl

theorem hist_turn (d : Dialer) (r : Round) : d.hist <+: (d.turn r).hist := by
  unfold turn
  dsimp only
  split
  · split
    · exact ⟨_, (List.append_assoc _ _ _).symm⟩
    · exact List.prefix_append _ _
  · split
    · exact ⟨_, (List.append_assoc _ _ _).symm⟩
    · exact List.prefix_append _ _

/-- What a loop that does not storm and does not stall does. -/
structure Paced (p : Policy) (d : Dialer) : Prop where
  /-- The policy was told what the history holds, and nothing else. -/
  policy : d.policy = heard p d.hist
  /-- Between two attempts lies one ending, and the wait of the rung that it climbed to. It counts
  from the ending, and from the attempt before as well if the clock was not set back between. -/
  between : ∀ before t₁ mid t₂ later, d.hist = before ++ .dial t₁ :: (mid ++ .dial t₂ :: later) →
    (∀ t, .dial t ∉ mid) →
    ∃ life t, mid = life ++ [.told (.dropped t)] ∧ (∀ u, .told (.dropped u) ∉ life) ∧
      heard p (before ++ .dial t₁ :: mid) = (heard p (before ++ .dial t₁ :: life)).dropped t ∧
      saturatingAdd t (heard p (before ++ .dial t₁ :: mid)).delay ≤ t₂ ∧
      (t₁ ≤ t → saturatingAdd t₁ (heard p (before ++ .dial t₁ :: mid)).delay ≤ t₂)
  /-- The policy is told of a logon when a session logged on just before. -/
  loggedOn : ∀ before later, d.hist = before ++ .told .loggedOn :: later →
    ∃ earlier, before = earlier ++ [.up]
  /-- There is one socket at most. -/
  one : d.connections.length + d.handshaking.toList.length ≤ 1
  /-- With no socket, a round in which the policy says so dials. -/
  dials : ∀ r, d.returned = false → d.connections = [] → d.handshaking = none →
    (d.ending r.nowMs).policy.next r.nowMs = .now →
    ∃ later, (d.iterate r).hist = (d.ending r.nowMs).hist ++ .dial r.nowMs :: later

theorem Sound.spaced (sound : d.Sound p) : d.Paced p := by
  obtain ⟨stage, trail, closed⟩ := sound.trail
  refine ⟨trail.policy, ?_, ?_, sound.one, ?_⟩
  · intro before t₁ mid t₂ later at_ single
    obtain ⟨life, t, rfl, none, ended, -, wait⟩ := trail.between at_ single
    refine ⟨life, t, rfl, none, ended, wait, fun onward => le_trans ?_ wait⟩
    exact min_le_min_right _ (Nat.add_le_add_right onward _)
  · intro before later at_
    have ran := trail.stage
    rw [at_, List.foldlM_append] at ran
    obtain ⟨s, first, ran⟩ := Option.bind_eq_some_iff.mp ran
    obtain ⟨_, may, -⟩ := Option.bind_eq_some_iff.mp ran
    have risen : s = .risen := by
      cases s with
      | risen => rfl
      | closed | open_ => cases may
    exact Trail.last_up (risen ▸ first)
  · intro r on empty idle now
    unfold iterate
    have ended : (d.ending r.nowMs).handshaking = none := by
      unfold ending
      split
      · exact idle
      · exact idle
    have still : (d.ending r.nowMs).returned = false := by
      unfold ending
      split
      · exact on
      · exact on
    rw [if_neg (by rw [on]; decide), if_pos (by rw [empty]; rfl)]
    have dialed : ∃ later, ((d.ending r.nowMs).attempt r.nowMs r.dial).hist =
        (d.ending r.nowMs).hist ++ .dial r.nowMs :: later := by
      unfold attempt
      rw [ended]
      dsimp only
      rw [now]
      unfold connect
      cases r.dial with
      | connected => exact ⟨[], rfl⟩
      | unwrapped | refused => exact ⟨[_], List.append_assoc _ _ _⟩
    obtain ⟨later, eq⟩ := dialed
    dsimp only
    split
    · exact ⟨later, eq⟩
    · obtain ⟨more, grown⟩ := (hist_decide _ r).trans (hist_turn _ r)
      refine ⟨later ++ more, grown.symm.trans ?_⟩
      rw [eq, List.append_assoc]
      rfl

/-- **The loop does not storm and does not stall**, in every run of every policy. -/
theorem paced (p : Policy) (handshakeMs : ℕ) (rs : List Round) :
    ((new p handshakeMs).run rs).Paced p :=
  (sound_run (sound_new p handshakeMs) rs).spaced

/-- A round in which a connection is made and its session stays as it is. -/
def quietRound (nowMs : ℕ) : Round := ⟨nowMs, .connected, .ready, true, true, [], false⟩

/-- A clock that is set back between an attempt and its ending lets the next one come before it. -/
theorem clock_set_back :
    ((new ⟨1000, 30000, .always, 0, 0, false⟩ 0).run
      [{ quietRound 100000 with turned := [(false, true)] },
        { quietRound 0 with dial := .refused }, quietRound 1000]).hist =
      [.dial 100000, .told (.dropped 0), .dial 1000] ∧
      ¬ 100000 + (Policy.dropped ⟨1000, 30000, .always, 0, 0, false⟩ 0).delay ≤ 1000 := by
  decide +kernel

end Dialer

end Fixbolt
