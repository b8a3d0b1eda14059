import Fixbolt.Engine.Pumping

/-!
# Every socket in front of the engine is accounted for

* `Presession.Sound`: the two containers are under one ceiling; each socket admitted is in one of them, in
  the loop's hand or has left, once; what was read of it is what its buffer holds;
* one lemma for each thing the loop does with a socket: take it, ask about it, hand it to the engine,
  park it, let go of it;
* `presession_accounts`: so it is along every run.
-/

namespace Fixbolt

/-- What is to be said of a socket that left. -/
def Way.Fine (socket : Socket) : Way → Prop
  | .handed bytes _ => bytes = socket.taken
  | .dropped why => why ≠ .waiting ∧ why ≠ .settled
  | .expired => True
  | .refused | .unparked | .unconfigured | .tooLong => False

/-- A socket more is counted for what it became. -/
theorem Progress.count_note (progress : Progress) {became : Became} (counts : became ≠ .waiting)
    (why : Became) :
    (progress.note became).count why = progress.count why + if became = why then 1 else 0 := by
  cases became <;> cases why <;> first | rfl | exact absurd rfl counts

namespace Presession

variable {PRE : ℕ} {limits : Limits} {s s' : Presession PRE limits} {registry : Registry} {p : Pending PRE} {nowMs i : ℕ}

/-- The milliseconds in which a socket's recovery was asked about. -/
def asksOf (s : Presession PRE limits) (id : ℕ) : List ℕ := (s.asked.filter (·.1 == id)).map (·.2)

/-- The sockets in the loop's hand, in its containers, and those that left. -/
def ids (s : Presession PRE limits) (out : List (Pending PRE)) : List ℕ :=
  out.map (·.socket.id) ++ s.set.map (·.socket.id) ++ s.parked.map (·.item.socket.id) ++
    s.left.map (·.1.id)

/-- Is no socket that has not settled past its deadline? -/
def Timely (slots : List (Pending PRE)) (nowMs : ℕ) : Prop :=
  ∀ p ∈ slots, p.settled = none → nowMs < p.deadlineMs

/-- What a turn has looked at is timely, and so is everything after it. -/
def Looked (s : Presession PRE limits) : Prop :=
  match s.pump with
  | .turning nowMs i => Timely (s.set.take i) nowMs
  | .settling nowMs => Timely s.set nowMs
  | _ => True

/-- Every socket is in its place, with `out` in the loop's hand. -/
structure Sound (s : Presession PRE limits) (out : List (Pending PRE)) : Prop where
  room : out.length + s.set.length + s.parked.length ≤ limits.pending
  once : (s.ids out).Perm (List.range s.admitted)
  whole : ∀ p ∈ out ++ s.set, p.rx.buf = p.socket.taken
  wholeParked : ∀ p ∈ s.parked, p.item.rx.buf = p.item.socket.taken
  fine : ∀ e ∈ s.left, e.2.Fine e.1
  counted : ∀ why, why ≠ .settled →
    s.left.countP (fun e => e.2 == .dropped why) = s.progress.count why
  looked : s.Looked
  rising : ∀ id, (s.asksOf id).Pairwise (· < ·)
  since : ∀ p ∈ s.parked, ∀ t ∈ s.asksOf p.item.socket.id, t ≤ p.askedMs
  unasked : ∀ p ∈ s.set, s.asksOf p.socket.id = []
  strangers : ∀ id, s.admitted ≤ id → s.asksOf id = []

theorem sound_opened (PRE : ℕ) (limits : Limits) (capacity : ℕ) (enough : limits.pending ≤ capacity) :
    (opened PRE limits capacity enough).Sound [] where
  room := Nat.zero_le _
  once := .refl _
  whole := by simp [opened]
  wholeParked := by simp [opened]
  fine := by simp [opened]
  counted := by
    rintro why -
    cases why <;> rfl
  looked := trivial
  rising := fun _ => .nil
  since := by simp [opened]
  unasked := by simp [opened]
  strangers := fun _ _ => rfl

/-! ### Questions -/

theorem asksOf_append {asked : List (ℕ × ℕ)} {id : ℕ} (t : ℕ)
    (h : s'.asked = asked ++ [(id, t)]) (same : s.asked = asked) (other : ℕ) :
    s'.asksOf other = if other = id then s.asksOf other ++ [t] else s.asksOf other := by
  rw [asksOf, asksOf, h, same, List.filter_append, List.map_append]
  by_cases eq : other = id
  · rw [if_pos eq]
    simp [eq]
  · rw [if_neg eq]
    simp [Ne.symm eq]

/-- No socket is in two places. -/
theorem Sound.nodup {out : List (Pending PRE)} (h : s.Sound out) : (s.ids out).Nodup :=
  h.once.nodup_iff.mpr List.nodup_range

/-- A socket in the loop's hand is asked about later than ever before. -/
theorem Sound.asks (h : s.Sound [p]) (nowMs : ℕ) (later : ∀ t ∈ s.asksOf p.socket.id, t < nowMs) :
    Sound { s with asked := s.asked ++ [(p.socket.id, nowMs)] } [p] := by
  have after (other : ℕ) : asksOf { s with asked := s.asked ++ [(p.socket.id, nowMs)] } other =
      if other = p.socket.id then s.asksOf other ++ [nowMs] else s.asksOf other :=
    asksOf_append nowMs rfl rfl other
  have apart : p.socket.id ∉ s.set.map (·.socket.id) ++ s.parked.map (·.item.socket.id) ++
      s.left.map (·.1.id) := by
    have nodup := h.nodup
    rw [ids, List.map_singleton, List.append_assoc, List.append_assoc, List.singleton_append,
      List.nodup_cons, ← List.append_assoc] at nodup
    exact nodup.1
  have below : p.socket.id < s.admitted := by
    have mem : p.socket.id ∈ s.ids [p] := by simp [ids]
    exact List.mem_range.mp (h.once.mem_iff.mp mem)
  simp only [List.mem_append, not_or] at apart
  refine ⟨h.room, h.once, h.whole, h.wholeParked, h.fine, h.counted, h.looked, fun id => ?_,
    fun q mem t asked => ?_, fun q mem => ?_, fun id far => ?_⟩
  · rw [after]
    split
    · rename_i eq
      refine List.pairwise_append.mpr ⟨h.rising id, List.pairwise_singleton _ _, ?_⟩
      intro t before t' last
      rw [List.mem_singleton.mp last]
      exact later t (eq ▸ before)
    · exact h.rising id
  · have other : q.item.socket.id ≠ p.socket.id :=
      fun eq => apart.1.2 (eq ▸ List.mem_map_of_mem mem)
    rw [after, if_neg other] at asked
    exact h.since q mem t asked
  · have other : q.socket.id ≠ p.socket.id := fun eq => apart.1.1 (eq ▸ List.mem_map_of_mem mem)
    rw [after, if_neg other]
    exact h.unasked q mem
  · have far : s.admitted ≤ id := far
    rw [after, if_neg (by omega)]
    exact h.strangers id far

/-! ### In and out of the containers -/

theorem Timely.sublist {slots slots' : List (Pending PRE)} (h : Timely slots nowMs)
    (sub : ∀ p ∈ slots', p ∈ slots) : Timely slots' nowMs := fun p mem => h p (sub p mem)

/-- A socket is taken out of the set. -/
theorem Sound.take (h : s.Sound []) (at_ : s.set[i]? = some p) (looked : Looked { s with set := swapRemove s.set i }) :
    Sound { s with set := swapRemove s.set i } [p] := by
  obtain ⟨within, rfl⟩ := List.getElem?_eq_some_iff.mp at_
  have perm := swapRemove_perm within
  have length : (swapRemove s.set i).length + 1 = s.set.length := perm.length_eq
  have mem {q : Pending PRE} (inside : q ∈ swapRemove s.set i) : q ∈ s.set :=
    perm.mem_iff.mp (List.mem_cons_of_mem _ inside)
  refine ⟨?_, ?_, ?_, h.wholeParked, h.fine, h.counted, looked, h.rising, h.since,
    fun q inside => h.unasked q (mem inside), h.strangers⟩
  · have room := h.room
    rw [List.length_nil] at room
    rw [List.length_singleton]
    dsimp only
    omega
  · refine List.Perm.trans ?_ h.once
    exact (((perm.map (·.socket.id)).append_right _).append_right _)
  · intro q inside
    refine h.whole q (perm.mem_iff.mp ?_)
    exact inside

/-- A connection is taken out of the parking. -/
theorem Sound.unpark {q : Parked PRE} (h : s.Sound []) (at_ : s.parked[i]? = some q) :
    Sound { s with parked := swapRemove s.parked i } [q.item] := by
  obtain ⟨within, rfl⟩ := List.getElem?_eq_some_iff.mp at_
  have perm := swapRemove_perm within
  have length : (swapRemove s.parked i).length + 1 = s.parked.length := perm.length_eq
  have mem {q : Parked PRE} (inside : q ∈ swapRemove s.parked i) : q ∈ s.parked :=
    perm.mem_iff.mp (List.mem_cons_of_mem _ inside)
  refine ⟨?_, ?_, ?_, fun q inside => h.wholeParked q (mem inside), h.fine, h.counted, h.looked,
    h.rising, fun q inside => h.since q (mem inside), h.unasked, h.strangers⟩
  · have room := h.room
    rw [List.length_nil] at room
    rw [List.length_singleton]
    dsimp only
    omega
  · refine List.Perm.trans ?_ h.once
    have moved := perm.map (·.item.socket.id)
    exact (List.perm_middle.symm.trans (moved.append_left (s.set.map (·.socket.id)))).append_right _
  · intro q inside
    rcases List.mem_cons.mp inside with rfl | inside
    · exact h.wholeParked _ (List.getElem_mem within)
    · exact h.whole q inside

/-- The socket in the loop's hand leaves. -/
theorem Sound.leave (h : s.Sound [p]) (way : Way) (progress : Progress) (fine : way.Fine p.socket)
    (counts : ∀ why, why ≠ .settled →
      progress.count why = s.progress.count why + if way = .dropped why then 1 else 0) :
    Sound { s with progress, left := s.left ++ [(p.socket, way)] } [] := by
  refine ⟨?_, ?_, fun q mem => h.whole q (List.mem_cons_of_mem _ mem), h.wholeParked, ?_, ?_,
    h.looked, h.rising, h.since, h.unasked, h.strangers⟩
  · have room := h.room
    rw [List.length_singleton] at room
    rw [List.length_nil]
    dsimp only
    omega
  · refine List.Perm.trans ?_ h.once
    simp only [ids, List.map_nil, List.nil_append, List.map_append, List.map_cons, List.cons_append]
    rw [← List.append_assoc]
    exact List.perm_append_singleton _ _
  · intro e mem
    rcases List.mem_append.mp mem with before | last
    · exact h.fine e before
    · rw [List.mem_singleton.mp last]
      exact fine
  · intro why not_settled
    show List.countP _ (s.left ++ [(p.socket, way)]) = progress.count why
    rw [List.countP_append, h.counted why not_settled, counts why not_settled]
    simp [List.countP_cons]

/-- It goes to the engine, with every byte that was read from it. -/
theorem Sound.hand (h : s.Sound [p]) (cfg : Config) : (s.hand p cfg).Sound [] := by
  have fits : ¬ PRE < p.rx.buf.length := Nat.not_lt.mpr p.rx.within
  have whole := h.whole p List.mem_cons_self
  have left := h.leave (.handed p.rx.buf cfg) s.progress whole
    (fun why _ => by simp)
  rw [Presession.hand, if_neg fits]
  exact left

/-- It is parked. -/
theorem Sound.put {q : Parked PRE} (h : s.Sound [q.item])
    (asked : ∀ t ∈ s.asksOf q.item.socket.id, t ≤ q.askedMs) :
    Sound { s with parked := s.parked ++ [q] } [] := by
  refine ⟨?_, ?_, fun p mem => h.whole p (List.mem_cons_of_mem _ mem), ?_, h.fine, h.counted,
    h.looked, h.rising, ?_, h.unasked, h.strangers⟩
  · have room := h.room
    rw [List.length_singleton] at room
    rw [List.length_nil, List.length_append, List.length_singleton]
    dsimp only
    omega
  · refine List.Perm.trans ?_ h.once
    simp only [ids, List.map_nil, List.nil_append, List.map_append, List.map_cons, List.cons_append]
    rw [← List.append_assoc]
    exact (List.perm_append_singleton _ _).append_right _
  · intro p mem
    rcases List.mem_append.mp mem with before | last
    · exact h.wholeParked p before
    · rw [List.mem_singleton.mp last]
      exact h.whole q.item List.mem_cons_self
  · intro p mem
    rcases List.mem_append.mp mem with before | last
    · exact h.since p before
    · rw [List.mem_singleton.mp last]
      exact asked

/-- There is a slot to park it in. -/
theorem Sound.park (h : s.Sound [p]) (cfg : Config) (limitMs : ℕ)
    (asked : ∀ t ∈ s.asksOf p.socket.id, t ≤ nowMs) : (s.park p cfg nowMs limitMs).Sound [] := by
  have room := h.room
  have enough := s.enough
  rw [List.length_singleton] at room
  rw [Presession.park, if_neg (by omega)]
  exact Sound.put (q := ⟨p, cfg, saturatingAdd nowMs limitMs, nowMs⟩) h asked

/-- Where in the parking a connection lies says nothing. -/
theorem Sound.shuffle {out : List (Pending PRE)} (h : s.Sound out) (parked : List (Parked PRE))
    (perm : parked.Perm s.parked) : Sound { s with parked } out where
  room := by
    have room := h.room
    rw [← perm.length_eq] at room
    exact room
  once := by
    refine List.Perm.trans ?_ h.once
    exact ((perm.map (·.item.socket.id)).append_left _).append_right _
  whole := h.whole
  wholeParked := fun q mem => h.wholeParked q (perm.mem_iff.mp mem)
  fine := h.fine
  counted := h.counted
  looked := h.looked
  rising := h.rising
  since := fun q mem => h.since q (perm.mem_iff.mp mem)
  unasked := h.unasked
  strangers := h.strangers

/-- The loop goes on. -/
theorem Sound.move {out : List (Pending PRE)} (h : s.Sound out) (pump : Pump)
    (looked : Looked { s with pump }) : Sound { s with pump } out :=
  ⟨h.room, h.once, h.whole, h.wholeParked, h.fine, h.counted, looked, h.rising, h.since, h.unasked,
    h.strangers⟩

/-- What is parked past its limit leaves. -/
theorem Sound.expire (h : s.Sound []) : (s.expire nowMs).Sound [] := by
  have split : (s.parked.filter (fun p => decide (nowMs < p.untilMs)) ++
      s.parked.filter fun p => decide (p.untilMs ≤ nowMs)).Perm s.parked := by
    have complement : (fun p : Parked PRE => decide (p.untilMs ≤ nowMs)) =
        fun p => !decide (nowMs < p.untilMs) := by
      funext p
      rw [← decide_not, decide_eq_decide]
      exact Nat.not_lt.symm
    rw [complement]
    exact List.filter_append_perm _ _
  have kept := List.length_filter_le (fun p : Parked PRE => decide (nowMs < p.untilMs)) s.parked
  refine ⟨?_, ?_, h.whole, fun q mem => h.wholeParked q (List.mem_of_mem_filter mem), ?_, ?_,
    h.looked, h.rising, fun q mem => h.since q (List.mem_of_mem_filter mem), h.unasked, h.strangers⟩
  · exact Nat.le_trans (Nat.add_le_add_left kept _) h.room
  · refine List.Perm.trans ?_ h.once
    have moved := split.map (·.item.socket.id)
    rw [List.map_append] at moved
    simp only [ids, Presession.expire, List.map_nil, List.nil_append, List.map_append, List.map_map]
    rw [List.append_assoc, List.append_assoc]
    refine List.Perm.append_left _ ?_
    refine List.Perm.trans ?_ (moved.append_right _)
    rw [List.append_assoc]
    exact List.perm_append_comm.append_left _
  · intro e mem
    rcases List.mem_append.mp mem with before | gone
    · exact h.fine e before
    · obtain ⟨q, -, rfl⟩ := List.mem_map.mp gone
      exact trivial
  · intro why not_settled
    show List.countP _ (s.left ++ List.map _ _) = _
    rw [List.countP_append, h.counted why not_settled, List.countP_eq_zero.mpr, Nat.add_zero]
    · rfl
    · intro e gone
      obtain ⟨q, -, rfl⟩ := List.mem_map.mp gone
      simp

/-- A socket is admitted, and there is a slot for it. -/
theorem Sound.admitSocket (h : s.Sound []) (accepting : s.pump = .accepting)
    (guard : s.set.length + s.parked.length < limits.pending) : (s.admitSocket nowMs).Sound [] := by
  rw [Presession.admitSocket, if_neg (by omega)]
  refine ⟨?_, ?_, ?_, h.wholeParked, h.fine, h.counted, ?_, h.rising, h.since, ?_, ?_⟩
  · rw [List.length_nil, List.length_append, List.length_singleton]
    dsimp only
    omega
  · rw [List.range_succ]
    refine List.Perm.trans ?_ (h.once.append_right [s.admitted])
    simp only [ids, List.map_nil, List.nil_append, List.map_append, List.map_cons,
      List.append_assoc]
    refine List.Perm.append_left _ ?_
    rw [← List.append_assoc (s.parked.map _)]
    exact List.perm_append_comm
  · intro q mem
    rw [List.nil_append] at mem
    rcases List.mem_append.mp mem with before | last
    · exact h.whole q before
    · rw [List.mem_singleton.mp last]
      rfl
  · simp only [Looked, accepting]
  · intro q mem
    rcases List.mem_append.mp mem with before | last
    · exact h.unasked q before
    · rw [List.mem_singleton.mp last]
      exact h.strangers _ (Nat.le_refl _)
  · intro id far
    have far : s.admitted + 1 ≤ id := far
    exact h.strangers id (by omega)

/-! ### The rounds -/

/-- A slot was read from, and stays. -/
theorem Sound.replace {q : Pending PRE} (pump : Pump) {progress : Progress} (h : s.Sound [])
    (at_ : s.set[i]? = some p) (same : q.socket.id = p.socket.id) (whole : q.rx.buf = q.socket.taken)
    (counts : ∀ why, why ≠ .settled → progress.count why = s.progress.count why)
    (looked : Looked { s with set := s.set.set i q, pump }) :
    Sound { s with progress, set := s.set.set i q, pump } [] := by
  obtain ⟨within, rfl⟩ := List.getElem?_eq_some_iff.mp at_
  have ids_same : (s.set.set i q).map (·.socket.id) = s.set.map (·.socket.id) := by
    have kept := List.set_getElem_self
      (show i < (s.set.map (·.socket.id)).length by rwa [List.length_map])
    rw [List.getElem_map] at kept
    rw [List.map_set, same, kept]
  refine ⟨?_, ?_, ?_, h.wholeParked, h.fine, ?_, looked, h.rising, h.since, ?_, h.strangers⟩
  · have room := h.room
    simpa using room
  · have once := h.once
    simp only [ids] at once ⊢
    rwa [ids_same]
  · intro r mem
    rcases List.mem_or_eq_of_mem_set mem with before | rfl
    · exact h.whole r before
    · exact whole
  · intro why not_settled
    rw [h.counted why not_settled]
    exact (counts why not_settled).symm
  · intro r mem
    rcases List.mem_or_eq_of_mem_set mem with before | rfl
    · exact h.unasked r before
    · have here := h.unasked _ (List.getElem_mem within)
      rwa [← same] at here

end Presession

namespace Pending

variable {PRE : ℕ} {registry : Registry} {nowMs : ℕ} {recv : Recv}

variable (registry nowMs) in
/-- What judging a slot leaves of it, and what it says of its time. -/
theorem judge_spec (slot : Pending PRE) :
    (slot.judge registry nowMs).2.socket = slot.socket ∧
    (slot.judge registry nowMs).2.rx = slot.rx ∧
    ((slot.judge registry nowMs).1 = .waiting → nowMs < slot.deadlineMs ∧
      (slot.judge registry nowMs).2 = slot) ∧
    ((slot.judge registry nowMs).1 = .settled →
      (slot.judge registry nowMs).2.settled.isSome) := by
  rw [judge]
  split
  · dsimp only
    split_ifs
    · simp
    · split <;> simp
  · simp
  · split_ifs with late
    · simp
    · simp
      omega

variable (registry nowMs recv) in
/-- A read keeps what was read in the buffer. -/
theorem advance_spec (slot : Pending PRE) (whole : slot.rx.buf = slot.socket.taken) :
    (slot.advance registry nowMs recv).2.socket.id = slot.socket.id ∧
    (slot.advance registry nowMs recv).2.rx.buf = (slot.advance registry nowMs recv).2.socket.taken ∧
    ((slot.advance registry nowMs recv).1 = .waiting →
      nowMs < (slot.advance registry nowMs recv).2.deadlineMs) ∧
    ((slot.advance registry nowMs recv).1 = .settled →
      (slot.advance registry nowMs recv).2.settled.isSome) := by
  have judged {p : Pending PRE} (kept : p.rx.buf = p.socket.taken) (same : p.socket.id = slot.socket.id) :
      (p.judge registry nowMs).2.socket.id = slot.socket.id ∧
      (p.judge registry nowMs).2.rx.buf = (p.judge registry nowMs).2.socket.taken ∧
      ((p.judge registry nowMs).1 = .waiting → nowMs < (p.judge registry nowMs).2.deadlineMs) ∧
      ((p.judge registry nowMs).1 = .settled → (p.judge registry nowMs).2.settled.isSome) := by
    obtain ⟨socket, rx, waits, settles⟩ := p.judge_spec registry nowMs
    refine ⟨by rw [socket, same], by rw [socket, rx, kept], fun waiting => ?_, settles⟩
    obtain ⟨early, unchanged⟩ := waits waiting
    rwa [unchanged]
  unfold advance
  split
  · exact judged whole rfl
  · split
    · rename_i got
      refine judged ?_ rfl
      have fits : (slot.rx.buf ++ got.take slot.rx.spare).length ≤ PRE := by
        have within := slot.rx.within
        rw [List.length_append, List.length_take, Framer.spare]
        omega
      show (slot.rx.buf ++ got.take slot.rx.spare).take PRE = slot.socket.taken ++ _
      rw [List.take_of_length_le fits, whole]
    · exact judged whole rfl
    · rename_i refused
      refine ⟨rfl, whole, ?_, ?_⟩ <;> cases refused <;> simp

end Pending


namespace Presession

variable {PRE : ℕ} {limits : Limits} {s s' : Presession PRE limits} {registry : Registry} {nowMs i : ℕ}

/-- A turn has looked at one slot more. -/
theorem timely_succ {slots : List (Pending PRE)} {p : Pending PRE} (h : Timely (slots.take i) nowMs)
    (at_ : slots[i]? = some p) (timely : p.settled = none → nowMs < p.deadlineMs) :
    Timely (slots.take (i + 1)) nowMs := by
  rw [List.take_add_one, at_]
  intro q mem
  rcases List.mem_append.mp mem with before | last
  · exact h q before
  · rw [Option.toList_some, List.mem_singleton] at last
    exact last ▸ timely

theorem Sound.look (h : s.Sound []) (turning : s.pump = .turning nowMs i) (recv : Recv) :
    (s.look registry nowMs i recv).Sound [] := by
  have looked : Timely (s.set.take i) nowMs := by
    have looked := h.looked
    rwa [Looked, turning] at looked
  rw [Presession.look]
  cases at_ : s.set[i]? with
  | none =>
    refine h.move _ ?_
    rw [List.getElem?_eq_none_iff] at at_
    rwa [List.take_of_length_le at_] at looked
  | some slot =>
    obtain ⟨within, found⟩ := List.getElem?_eq_some_iff.mp at_
    dsimp only
    split
    · rename_i settled
      refine h.move _ (timely_succ looked at_ fun none => ?_)
      rw [none] at settled
      cases settled
    · have whole : slot.rx.buf = slot.socket.taken :=
        h.whole slot (found ▸ List.getElem_mem within)
      obtain ⟨same, kept, waits, settles⟩ := slot.advance_spec registry nowMs recv whole
      generalize slot.advance registry nowMs recv = after at same kept waits settles
      obtain ⟨became, slot'⟩ := after
      dsimp only at same kept waits settles ⊢
      have front : (s.set.set i slot').take i = s.set.take i := List.take_set_of_le (Nat.le_refl i)
      have placed : (s.set.set i slot')[i]? = some slot' := List.getElem?_set_self within
      split
      · refine h.replace _ at_ same kept (fun _ _ => rfl) ?_
        exact timely_succ (front ▸ looked) placed fun _ => waits rfl
      · refine h.replace _ at_ same kept (fun why not_settled => ?_) ?_
        · cases why <;> first | rfl | exact absurd rfl not_settled
        · refine timely_succ (front ▸ looked) placed fun none => ?_
          have settled := settles rfl
          rw [none] at settled
          cases settled
      · rename_i not_waiting not_settled
        have changed := h.replace (.turning nowMs i) at_ same kept (fun _ _ => rfl)
          (show Timely _ _ from front ▸ looked)
        have inside : i < (s.set.set i slot').length := by rwa [List.length_set]
        have taken := changed.take placed (by
          show Timely _ _
          rw [take_swapRemove inside]
          exact front ▸ looked)
        have gone := taken.leave (.dropped became) (s.progress.note became)
          ⟨not_waiting, not_settled⟩ (fun why _ => by
            rw [Progress.count_note _ not_waiting]
            simp only [Way.dropped.injEq])
        rw [swapRemove_set] at gone
        exact gone

theorem Sound.settle (h : s.Sound []) (settling : s.pump = .settling nowMs) (ready : Bool) :
    (s.settle nowMs ready).Sound [] := by
  rw [Presession.settle]
  cases first : s.set.findIdx? (·.settled.isSome) with
  | none => exact h.expire.move _ trivial
  | some i =>
    have settled := List.findIdx?_eq_some_iff_getElem.mp first
    obtain ⟨within, has, -⟩ := settled
    have at_ : s.set[i]? = some s.set[i] := List.getElem?_eq_getElem within
    have looked : Timely s.set nowMs := by
      have looked := h.looked
      rwa [Looked, settling] at looked
    have taken := h.take at_ (by
      rw [Looked]
      dsimp only
      rw [settling]
      exact looked.sublist fun q mem => (swapRemove_perm within).mem_iff.mp (List.mem_cons_of_mem _ mem))
    have unasked := h.unasked _ (List.getElem_mem within)
    dsimp only
    rw [at_]
    dsimp only
    obtain ⟨⟨n, cfg⟩, chosen⟩ := Option.isSome_iff_exists.mp has
    rw [chosen]
    dsimp only
    have asks := taken.asks nowMs (by
      intro t before
      rw [show asksOf { s with set := swapRemove s.set i } s.set[i].socket.id = [] from unasked] at before
      cases before)
    split
    · exact asks.hand cfg
    · refine asks.park cfg _ fun t asked => ?_
      rw [asksOf_append (s := { s with set := swapRemove s.set i }) nowMs rfl rfl, if_pos rfl] at asked
      rcases List.mem_append.mp asked with before | last
      · rw [show asksOf { s with set := swapRemove s.set i } s.set[i].socket.id = [] from unasked] at before
        cases before
      · exact Nat.le_of_eq (List.mem_singleton.mp last)

theorem Sound.ask (h : s.Sound []) (ready : Bool) :
    (s.ask nowMs i ready).Sound [] := by
  rw [Presession.ask]
  cases at_ : s.parked[i]? with
  | none => exact h.move _ trivial
  | some q =>
    dsimp only
    split
    · exact h.move _ trivial
    · rename_i late
      obtain ⟨within, found⟩ := List.getElem?_eq_some_iff.mp at_
      have earlier : ∀ t ∈ s.asksOf q.item.socket.id, t < nowMs := fun t before =>
        Nat.lt_of_le_of_lt (h.since q (found ▸ List.getElem_mem within) t before) (Nat.lt_of_not_le late)
      have asks := (h.unpark at_).asks nowMs earlier
      split
      · exact (asks.move (.asking nowMs 0) trivial).hand q.cfg
      · have again := asks.put (q := { q with askedMs := nowMs }) fun t asked => by
          rw [asksOf_append (s := { s with parked := swapRemove s.parked i }) nowMs rfl rfl,
            if_pos rfl] at asked
          rcases List.mem_append.mp asked with before | last
          · exact Nat.le_of_lt (earlier t before)
          · exact Nat.le_of_eq (List.mem_singleton.mp last)
        refine (again.shuffle (s.parked.set i { q with askedMs := nowMs }) ?_).move _ trivial
        have others : (swapRemove s.parked i).Perm (s.parked.eraseIdx i) :=
          ((swapRemove_perm within).trans (List.getElem_cons_eraseIdx_perm within).symm).cons_inv
        exact (List.set_perm_cons_eraseIdx within _).trans
          ((others.symm.cons _).trans (List.perm_append_singleton _ _).symm)

theorem Sound.step {a : Act} (h : s.Sound []) (took : s.step registry a = some s') : s'.Sound [] := by
  cases a with
  | accept nowMs =>
    simp only [Presession.step] at took
    split at took
    · rename_i accepting
      split at took
      · rename_i guard
        cases took
        exact h.admitSocket accepting guard
      · cases took
    · cases took
  | turn nowMs =>
    simp only [Presession.step] at took
    split at took
    · cases took
      exact h.move _ (by simp [Looked, Timely])
    · cases took
  | look recv =>
    simp only [Presession.step] at took
    split at took
    · rename_i turning
      cases took
      exact h.look turning recv
    · cases took
  | settle ready =>
    simp only [Presession.step] at took
    split at took
    · rename_i settling
      cases took
      exact h.settle settling ready
    · cases took
  | ask ready =>
    simp only [Presession.step] at took
    split at took
    · cases took
      exact h.ask ready
    · cases took

theorem Sound.runs {as : List Act} (h : s.Sound []) (run : s.runs registry as = some s') :
    s'.Sound [] := by
  induction as generalizing s with
  | nil =>
    cases run
    exact h
  | cons a as ih =>
    obtain ⟨next, took, later⟩ := Option.bind_eq_some_iff.mp run
    exact ih (h.step took) later

theorem mem_set_of_ne {α : Type*} {l : List α} {a b : α} {i : ℕ} (inside : a ∈ l) (within : i < l.length)
    (other : a ≠ l[i]) : a ∈ l.set i b := by
  obtain ⟨j, lt, rfl⟩ := List.getElem_of_mem inside
  have apart : i ≠ j := by
    rintro rfl
    exact other rfl
  have placed : (l.set i b)[j]? = some l[j] := by
    rw [List.getElem?_set_ne apart, List.getElem?_eq_getElem lt]
  exact List.mem_of_getElem? placed

/-- A socket that has settled waits until it is taken, and then goes to the engine or is parked. -/
theorem Sound.settled_stays {a : Act} {p : Pending PRE} {n : ℕ} {cfg : Config} (h : s.Sound [])
    (inside : p ∈ s.set) (settled : p.settled = some (n, cfg)) (took : s.step registry a = some s') :
    p ∈ s'.set ∨ (∃ q ∈ s'.parked, q.item = p ∧ q.cfg = cfg) ∨
      (p.socket, .handed p.rx.buf cfg) ∈ s'.left := by
  cases a with
  | accept nowMs =>
    simp only [Presession.step] at took
    split at took
    · split at took
      · cases took
        refine .inl ?_
        rw [Presession.admitSocket, if_neg (by omega)]
        exact List.mem_append_left _ inside
      · cases took
    · cases took
  | turn nowMs =>
    simp only [Presession.step] at took
    split at took
    · cases took
      exact .inl inside
    · cases took
  | look recv =>
    simp only [Presession.step] at took
    split at took
    · rename_i nowMs i turning
      cases took
      refine .inl ?_
      rw [Presession.look]
      cases at_ : s.set[i]? with
      | none => exact inside
      | some slot =>
        dsimp only
        split
        · exact inside
        · rename_i waits
          obtain ⟨within, found⟩ := List.getElem?_eq_some_iff.mp at_
          have other : p ≠ s.set[i] := by
            rintro rfl
            rw [found] at settled
            exact waits (by rw [settled]; rfl)
          have stays : p ∈ swapRemove s.set i := by
            rcases List.mem_cons.mp ((swapRemove_perm within).mem_iff.mpr inside) with here | stays
            · exact absurd here other
            · exact stays
          split
          · exact mem_set_of_ne inside within other
          · exact mem_set_of_ne inside within other
          · exact stays
    · cases took
  | settle ready =>
    simp only [Presession.step] at took
    split at took
    · rename_i nowMs settling
      cases took
      rw [Presession.settle]
      cases first : s.set.findIdx? (·.settled.isSome) with
      | none =>
        have none_settled := List.findIdx?_eq_none_iff.mp first p inside
        rw [settled] at none_settled
        cases none_settled
      | some i =>
        obtain ⟨within, has, -⟩ := List.findIdx?_eq_some_iff_getElem.mp first
        dsimp only
        rw [List.getElem?_eq_getElem within]
        dsimp only
        rcases List.mem_cons.mp ((swapRemove_perm within).mem_iff.mpr inside) with rfl | stays
        · rw [settled]
          dsimp only
          refine .inr ?_
          split_ifs
          · refine .inr ?_
            rw [Presession.hand]
            simp [Nat.not_lt.mpr s.set[i].rx.within]
          · refine .inl ?_
            have room := h.room
            have enough := s.enough
            rw [List.length_nil] at room
            rw [Presession.park, if_neg (by dsimp only; omega)]
            exact ⟨_, List.mem_append_right _ List.mem_cons_self, rfl, rfl⟩
        · refine .inl ?_
          obtain ⟨⟨_, chosen⟩, eq⟩ := Option.isSome_iff_exists.mp has
          rw [eq]
          dsimp only
          split_ifs
          · exact stays
          · rw [Presession.park]
            split_ifs <;> exact stays
    · cases took
  | ask ready =>
    simp only [Presession.step] at took
    split at took
    · cases took
      refine .inl ?_
      rw [Presession.ask]
      split
      · exact inside
      · split_ifs <;> exact inside
    · cases took

/-- **The pre-session part of a serving loop bounds and accounts for every socket**: along every run
of it the sockets held are under the ceiling; each that was admitted is held or has left, once; none
left but to the engine, with every byte read from it, for one reason that a turn counted, or past its
parking limit; after a turn every socket that has not settled is before its deadline; one that has
settled stays until it goes to the engine or is parked; and of each connection the recovery is asked
in later and later milliseconds. -/
theorem presession_accounts {capacity : ℕ} {enough : limits.pending ≤ capacity} {as : List Act}
    (run : (opened PRE limits capacity enough).runs registry as = some s) :
    s.set.length + s.parked.length ≤ limits.pending ∧
    (s.ids []).Perm (List.range s.admitted) ∧
    (∀ e ∈ s.left, e.2.Fine e.1) ∧
    (∀ why, why ≠ .settled →
      s.left.countP (fun e => e.2 == .dropped why) = s.progress.count why) ∧
    (∀ nowMs, s.pump = .settling nowMs → Timely s.set nowMs) ∧
    (∀ p n cfg, p ∈ s.set → p.settled = some (n, cfg) → ∀ a s', s.step registry a = some s' →
      p ∈ s'.set ∨ (∃ q ∈ s'.parked, q.item = p ∧ q.cfg = cfg) ∨
        (p.socket, .handed p.rx.buf cfg) ∈ s'.left) ∧
    ∀ id, (s.asksOf id).Pairwise (· < ·) := by
  have sound := (sound_opened PRE limits capacity enough).runs run
  have room := sound.room
  refine ⟨by simpa using room, sound.once, sound.fine, sound.counted, fun nowMs settling => ?_,
    fun p n cfg inside settled a s' took => sound.settled_stays inside settled took, sound.rising⟩
  have looked := sound.looked
  rwa [Looked, settling] at looked

/-- A Logon of a counterparty called `A`. -/
def logon : Bytes :=
  ascii "8=F" ++ SOH :: ascii "9=15" ++ SOH :: ascii "35=A" ++ SOH :: ascii "49=A" ++ SOH ::
    ascii "56=B" ++ SOH :: ascii "10=000" ++ [SOH]

/-- Its configuration. -/
def served : Config := Config.acceptor (ascii "F") (ascii "B") (ascii "A")

/-- One socket settles, is parked while its recovery is not ready, and is handed over in the next
millisecond. -/
theorem presession_accounts_parked : ∃ s : Presession 64 ⟨1, 1000, by decide, by decide⟩,
    (opened 64 ⟨1, 1000, by decide, by decide⟩ 1 (by decide)).runs (fun _ _ => some served)
      [.accept 0, .turn 0, .look (.ready logon), .look .idle, .settle false, .settle true, .ask true,
        .ask true, .turn 1, .look .idle, .settle true, .ask true] = some s ∧
      s.left = [(⟨0, logon⟩, .handed logon served)] ∧ s.asksOf 0 = [0, 1] ∧
      s.set.length + s.parked.length ≤ 1 := by
  have ran : ((opened 64 ⟨1, 1000, by decide, by decide⟩ 1 (by decide)).runs (fun _ _ => some served)
      [.accept 0, .turn 0, .look (.ready logon), .look .idle, .settle false, .settle true, .ask true,
        .ask true, .turn 1, .look .idle, .settle true, .ask true]).map (fun s => (s.left, s.asked)) =
      some ([(⟨0, logon⟩, .handed logon served)], [(0, 0), (0, 1)]) := by decide
  obtain ⟨s, run, eq⟩ := Option.map_eq_some_iff.mp ran
  obtain ⟨left, asked⟩ := Prod.mk.inj eq
  refine ⟨s, run, left, ?_, (presession_accounts run).1⟩
  rw [asksOf, asked]
  decide

end Presession

end Fixbolt
