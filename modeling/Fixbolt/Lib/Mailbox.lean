import Fixbolt.Lib.Circular

/-!
# A mailbox: a circular queue behind a lock

Any number of threads put items in, each call of `submit` under the lock, and one thread takes them
out. Submitting waits for the lock, draining only tries it. Beside the data stands `waiting`, a
count that is stored under the lock and may be read without it.

The threads take turns one access at a time, and nothing panics under the lock. A call of `submit`
has the number of its place among all the calls. `locked`, `accepted` and `handed` only remember:
the calls that got the lock and those that put their item in, in the order they did, and what was
taken out.

* `Mailbox.Sound`: what was handed and what lies in the queue is what was accepted, in its order, and
  the count is right when nobody holds the lock;
* `Mailbox.Sound.step`: it stays so.
-/

namespace Fixbolt

/-- How a slot keeps an item. -/
structure Cell (σ ι : Type*) where
  empty : σ
  /-- Is there a slot that could keep it? Asked before the lock is. -/
  accepts : ι → Bool
  write : ι → σ → σ
  read : σ → Option ι
  /-- What is left of a slot that was read. -/
  clear : σ → σ
  read_write : ∀ x s, accepts x → read (write x s) = some x

/-- How far a call of `submit` has got. -/
inductive Submit where
  /-- Waiting for the lock. -/
  | called
  /-- Holding it. -/
  | holding
  /-- The item is in the queue. -/
  | written
  /-- The count is stored, and the lock about to be given back. -/
  | flagged
  | answered (taken : Bool)
deriving DecidableEq, Repr

/-- Does the call hold the lock at this point? -/
def Submit.holds : Submit → Bool
  | .holding | .written | .flagged => true
  | .called | .answered _ => false

/-- Is its item in the queue, or was it? -/
def Submit.put : Submit → Bool
  | .written | .flagged | .answered true => true
  | .called | .holding | .answered false => false

/-- What the thread that drains is doing. -/
inductive Drained where
  | idle
  /-- Holding the lock, with so many slots still to take. -/
  | taking (left : ℕ)
  /-- The length is put right, and the count about to be stored. -/
  | emptied
  /-- About to give the lock back. -/
  | cleared
deriving DecidableEq, Repr

/-- Who holds the lock. -/
inductive Holder where
  | call (k : ℕ)
  | drain
deriving DecidableEq, Repr

/-- A queue, its lock, and the calls. -/
structure Mailbox (σ ι : Type*) (cap : ℕ) where
  ring : Circular σ cap
  lock : Option Holder
  waiting : ℕ
  /-- How many times the lock was reached for. -/
  drains : ℕ
  calls : List (ι × Submit)
  drained : Drained
  locked : List ℕ
  accepted : List ℕ
  handed : List ι

namespace Mailbox

variable {σ ι : Type*} {cap : ℕ}

/-- What can happen next. -/
inductive Act (ι : Type*) where
  /-- A thread calls `submit`. -/
  | submit (x : ι)
  /-- The `k`-th call gets the lock. -/
  | lock (k : ℕ)
  /-- The `k`-th call goes on. -/
  | go (k : ℕ)
  /-- The drain tries the lock, and gets it if it is free and `granted`. -/
  | drain (granted : Bool)
  /-- The drain goes on. -/
  | next
deriving DecidableEq, Repr

variable (cell : Cell σ ι)

/-- An empty mailbox. -/
def new (positive : 0 < cap) : Mailbox σ ι cap where
  ring := ⟨Vector.replicate cap cell.empty, ⟨0, positive⟩, 0, Nat.zero_le _⟩
  lock := none
  waiting := 0
  drains := 0
  calls := []
  drained := .idle
  locked := []
  accepted := []
  handed := []

variable (m : Mailbox σ ι cap)

/-- The item of a call. -/
def item? (k : ℕ) : Option ι := m.calls[k]?.map Prod.fst

/-- The item that is taken next. -/
def front : Option ι := cell.read (m.ring.slot 0)

/-- The `k`-th call got this far. -/
def reach (k : ℕ) (x : ι) (s : Submit) : Mailbox σ ι cap := { m with calls := m.calls.set k (x, s) }

/-- A call of `submit` goes on. -/
def go (k : ℕ) : Option (Mailbox σ ι cap) :=
  match m.calls[k]? with
  | some (x, .holding) =>
    if room : m.ring.len < cap then
      some { m.reach k x .written with
        ring := m.ring.push (cell.write x) room, accepted := m.accepted ++ [k] }
    else some { m.reach k x (.answered false) with lock := none }
  | some (x, .written) => some { m.reach k x .flagged with waiting := m.ring.len }
  | some (x, .flagged) => some { m.reach k x (.answered true) with lock := none }
  | _ => none

/-- The drain goes on. -/
def next : Option (Mailbox σ ι cap) :=
  match m.drained with
  | .idle => none
  | .taking (left + 1) =>
    some { m with
      ring := m.ring.pop cell.clear
      drained := .taking left
      handed := m.handed ++ (m.front cell).toList }
  | .taking 0 => some { m with ring := m.ring.reset, drained := .emptied }
  | .emptied => some { m with waiting := 0, drained := .cleared }
  | .cleared => some { m with drained := .idle, lock := none }

/-- One step. -/
def step : Act ι → Option (Mailbox σ ι cap)
  | .submit x =>
    some { m with
      calls := m.calls ++ [(x, if cell.accepts x then .called else .answered false)] }
  | .lock k =>
    match m.calls[k]? with
    | some (x, .called) => 
      if m.lock = none then
        some { m.reach k x .holding with lock := some (.call k), locked := m.locked ++ [k] }
      else none
    | _ => none
  | .go k => m.go cell k
  | .drain granted =>
    if m.drained = .idle then
      let m := { m with drains := m.drains + 1 }
      if granted ∧ m.lock = none then
        some { m with drained := .taking m.ring.len, lock := some .drain }
      else some m
    else none
  | .next => m.next cell

/-! ### What stays so -/

/-- How many slots from the head on are still to be taken out. -/
def left : ℕ :=
  match m.drained with
  | .idle => m.ring.len
  | .taking left => left
  | .emptied | .cleared => 0

/-- What lies in the queue. -/
def queued : List (Option ι) := (m.ring.window m.left).map cell.read

/-- What holds of a mailbox at every moment. -/
structure Sound : Prop where
  /-- What was handed over and what lies in the queue is what was accepted, in its order. -/
  order : m.handed.map some ++ m.queued cell = m.accepted.map m.item?
  /-- Calls put their items in as they got the lock. -/
  sublist : m.accepted.Sublist m.locked
  latest : ∀ (k : ℕ) (c : ι × Submit), c ∈ m.calls[k]? → c.2 = .holding →
    ∃ before, m.locked = before ++ [k] ∧ m.accepted.Sublist before
  nodup : m.accepted.Nodup
  put : ∀ k, k ∈ m.accepted ↔ ∃ c ∈ m.calls[k]?, c.2.put
  fits : ∀ c ∈ m.calls, c.2 ≠ .answered false → cell.accepts c.1
  held : ∀ k, (∃ c ∈ m.calls[k]?, c.2.holds) ↔ m.lock = some (.call k)
  draining : m.drained ≠ .idle ↔ m.lock = some .drain
  left_le : m.left ≤ m.ring.len
  emptied : m.drained = .emptied ∨ m.drained = .cleared → m.ring.len = 0
  /-- The count is right when nobody holds the lock, -/
  count : m.lock = none → m.waiting = m.ring.len
  /-- before a call has put its item in, and after the count is stored. -/
  counting : ∀ (k : ℕ) (c : ι × Submit), c ∈ m.calls[k]? → c.2 = .holding ∨ c.2 = .flagged →
    m.waiting = m.ring.len
  cleared : m.drained = .cleared → m.waiting = 0

variable {cell m} {m' : Mailbox σ ι cap} {k : ℕ} {x : ι} {s t : Submit}

theorem Sound.new (positive : 0 < cap) : (new cell positive).Sound cell where
  order := rfl
  sublist := List.Sublist.refl []
  latest _ _ mem := nomatch mem
  nodup := List.nodup_nil
  put _ := by simp [Mailbox.new]
  fits _ mem := nomatch mem
  held _ := by simp [Mailbox.new]
  draining := by simp [Mailbox.new]
  left_le := Nat.le_refl 0
  emptied _ := rfl
  count _ := rfl
  counting _ _ mem := nomatch mem
  cleared := nofun

theorem getElem?_reach (at_ : m.calls[k]? = some (x, s)) (j : ℕ) :
    (m.reach k x t).calls[j]? = if k = j then some (x, t) else m.calls[j]? := by
  have inside := (List.getElem?_eq_some_iff.mp at_).1
  unfold reach
  rw [List.getElem?_set]
  by_cases same : k = j
  · rw [if_pos same, if_pos same, if_pos inside]
  · rw [if_neg same, if_neg same]

/-- A call that goes on keeps its item. -/
theorem item?_reach (at_ : m.calls[k]? = some (x, s)) : (m.reach k x t).item? = m.item? := by
  funext j
  unfold item?
  rw [getElem?_reach at_]
  split
  · rename_i same
    rw [← same, at_]
    rfl
  · rfl

/-- What is so of a call and stays so of it is so of the calls it was so of. -/
theorem exists_reach {p : Submit → Bool} (at_ : m.calls[k]? = some (x, s)) (same : p t = p s)
    (j : ℕ) : (∃ c ∈ (m.reach k x t).calls[j]?, p c.2) ↔ ∃ c ∈ m.calls[j]?, p c.2 := by
  rw [getElem?_reach at_]
  split
  · rename_i eq
    rw [← eq, at_]
    simp [same]
  · rfl

theorem mem_reach {c : ι × Submit} (mem : c ∈ (m.reach k x t).calls) :
    c ∈ m.calls ∨ c = (x, t) :=
  List.mem_or_eq_of_mem_set mem

namespace Sound

variable (sound : m.Sound cell)
include sound

/-- What was accepted has an item. -/
theorem item?_isSome (mem : k ∈ m.accepted) : (m.item? k).isSome := by
  obtain ⟨c, at_, -⟩ := (sound.put k).mp mem
  rw [item?, at_]
  rfl

/-- While a call holds the lock nothing is drained. -/
theorem idle_of_holds (at_ : m.calls[k]? = some (x, s)) (holds : s.holds) :
    m.lock = some (.call k) ∧ m.drained = .idle := by
  have lock := (sound.held k).mp ⟨_, at_, holds⟩
  refine ⟨lock, ?_⟩
  by_contra busy
  rw [sound.draining.mp busy] at lock
  cases lock

theorem submit (x : ι) : Sound cell { m with
    calls := m.calls ++ [(x, if cell.accepts x then .called else .answered false)] } := by
  generalize stage : (if cell.accepts x then Submit.called else .answered false) = s
  have out : s.put = false ∧ s.holds = false ∧
      (s ≠ .answered false → cell.accepts x) := by
    subst stage
    split
    · rename_i fits
      exact ⟨rfl, rfl, fun _ => fits⟩
    · exact ⟨rfl, rfl, fun taken => absurd rfl taken⟩
  -- A new call is none of those that put something in or hold the lock.
  have same {p : Submit → Bool} (no : p s = false) (j : ℕ) :
      (∃ c ∈ (m.calls ++ [(x, s)])[j]?, p c.2) ↔ ∃ c ∈ m.calls[j]?, p c.2 := by
    rw [List.getElem?_append]
    split
    · rfl
    · rename_i far
      rw [List.getElem?_eq_none (Nat.le_of_not_lt far)]
      cases at_ : [(x, s)][j - m.calls.length]? with
      | none => simp
      | some c =>
        obtain rfl := List.mem_singleton.mp (List.mem_of_getElem? at_)
        simp [no]
  refine { sound with order := ?_, latest := ?_, put := ?_, fits := ?_, held := ?_, counting := ?_ }
  · refine Eq.trans sound.order (List.map_congr_left fun k mem => ?_)
    obtain ⟨c, at_, -⟩ := (sound.put k).mp mem
    unfold item?
    rw [List.getElem?_append_left (List.getElem?_eq_some_iff.mp at_).1]
  · intro k c at_ holding
    rw [List.getElem?_append] at at_
    split at at_
    · exact sound.latest k c at_ holding
    · obtain rfl := List.mem_singleton.mp (List.mem_of_getElem? at_)
      rw [show s = .holding from holding] at out
      cases out.2.1
  · exact fun k => (sound.put k).trans (same out.1 k).symm
  · intro c mem
    obtain mem | mem := List.mem_append.mp mem
    · exact sound.fits c mem
    · obtain rfl := List.mem_singleton.mp mem
      exact out.2.2
  · exact fun k => (same out.2.1 k).trans (sound.held k)
  · intro k c at_ open_
    rw [List.getElem?_append] at at_
    split at at_
    · exact sound.counting k c at_ open_
    · obtain rfl := List.mem_singleton.mp (List.mem_of_getElem? at_)
      obtain rfl | rfl := open_ <;> cases out.2.1

/-- A call goes on and puts nothing in: it takes the lock, stores the count, or gives the lock back
when the count is right. -/
theorem reach {lock : Option Holder} {waiting : ℕ} {locked : List ℕ}
    (at_ : m.calls[k]? = some (x, s))
    (mine : m.lock = none ∨ m.lock = some (.call k)) (put : t.put = s.put)
    (holds : if t.holds then lock = some (.call k) else lock = none)
    (fits : t ≠ .answered false → cell.accepts x) (count : waiting = m.ring.len)
    (turns : locked = if t = .holding then m.locked ++ [k] else m.locked) :
    Sound cell { m.reach k x t with lock := lock, waiting := waiting, locked := locked } := by
  have idle : m.drained = .idle := by
    by_contra busy
    have busy := sound.draining.mp busy
    obtain free | own := mine
    · rw [free] at busy
      cases busy
    · rw [own] at busy
      cases busy
  refine { sound with
    order := ?_, sublist := ?_, latest := ?_, put := ?_, fits := ?_, held := ?_, draining := ?_,
    count := ?_, counting := ?_, cleared := ?_ }
  · exact sound.order.trans (congrArg (m.accepted.map ·) (item?_reach at_).symm)
  · show m.accepted.Sublist locked
    rw [turns]
    split
    · exact sound.sublist.trans (List.sublist_append_left m.locked [k])
    · exact sound.sublist
  · intro j c mem holding
    have mem : c ∈ (m.reach k x t).calls[j]? := mem
    rw [getElem?_reach at_] at mem
    split at mem
    · rename_i same
      obtain rfl := Option.some.inj mem
      exact ⟨m.locked, by rw [turns, if_pos holding, same], sound.sublist⟩
    · rename_i other
      -- Another call that holds the lock would be the one that did before.
      have held := (sound.held j).mp ⟨c, mem, by rw [holding]; rfl⟩
      obtain free | own := mine
      · rw [free] at held
        cases held
      · rw [own] at held
        exact absurd (Holder.call.inj (Option.some.inj held)) other
  · exact fun j => (sound.put j).trans (exists_reach at_ put j).symm
  · intro c mem
    obtain mem | rfl := mem_reach mem
    · exact sound.fits c mem
    · exact fits
  · intro j
    show (∃ c ∈ (m.reach k x t).calls[j]?, c.2.holds) ↔ lock = some (.call j)
    have others := sound.held j
    rw [getElem?_reach at_]
    split
    · rename_i same
      subst same
      split at holds <;> simp_all
    · rename_i other
      rw [others]
      obtain free | own := mine <;> split at holds <;> simp_all
  · show m.drained ≠ .idle ↔ lock = some .drain
    split at holds <;> simp_all
  · exact fun _ => count
  · exact fun _ _ _ _ => count
  · show m.drained = .cleared → _
    rw [idle]
    exact nofun

/-- The item of a call is put in. -/
theorem written (at_ : m.calls[k]? = some (x, .holding)) (room : m.ring.len < cap) :
    Sound cell { m.reach k x .written with
      ring := m.ring.push (cell.write x) room, accepted := m.accepted ++ [k] } := by
  obtain ⟨lock, idle⟩ := sound.idle_of_holds at_ rfl
  have fits := sound.fits _ (List.mem_of_getElem? at_) (by exact nofun)
  have fresh : k ∉ m.accepted := by
    intro mem
    obtain ⟨c, at_k, put⟩ := (sound.put k).mp mem
    obtain rfl := Option.some.inj (at_.symm.trans at_k)
    cases put
  obtain ⟨earlier, turns, before⟩ := sound.latest k _ at_ rfl
  refine { order := ?_, sublist := ?_, latest := ?_, nodup := ?_, put := ?_, fits := ?_
           held := ?_, draining := sound.draining, left_le := ?_, emptied := ?_, count := ?_
           counting := ?_, cleared := ?_ }
  · have before := sound.order
    unfold queued left at before ⊢
    dsimp only
    rw [show (m.reach k x .written).drained = .idle from idle]
    rw [idle] at before
    dsimp only at before ⊢
    rw [show (m.ring.push (cell.write x) room).len = m.ring.len + 1 from rfl, m.ring.window_push,
      List.map_append, List.map_append, ← List.append_assoc]
    rw [show (m.reach k x .written).handed = m.handed from rfl, before]
    congr 1
    · exact congrArg (m.accepted.map ·) (item?_reach at_).symm
    · refine congrArg (fun y => [y]) ((cell.read_write x _ fits).trans ?_)
      refine Eq.trans ?_ (congrFun (item?_reach at_) k).symm
      rw [item?, at_]
      rfl
  · show (m.accepted ++ [k]).Sublist m.locked
    rw [turns]
    exact before.append (List.Sublist.refl [k])
  · intro j c mem holding
    have mem : c ∈ (m.reach k x .written).calls[j]? := mem
    rw [getElem?_reach at_] at mem
    split at mem
    · obtain rfl := Option.some.inj mem
      cases holding
    · rename_i other
      rw [(sound.held j).mp ⟨c, mem, by rw [holding]; rfl⟩] at lock
      exact absurd (Holder.call.inj (Option.some.inj lock)).symm other
  · exact List.nodup_append.mpr ⟨sound.nodup, List.nodup_cons.mpr ⟨List.not_mem_nil, List.nodup_nil⟩,
      fun a in_ b eq same => fresh (List.mem_singleton.mp eq ▸ same ▸ in_)⟩
  · intro j
    show j ∈ m.accepted ++ [k] ↔ ∃ c ∈ (m.reach k x .written).calls[j]?, c.2.put
    rw [List.mem_append, List.mem_singleton, getElem?_reach at_]
    split
    · rename_i same
      simp [same, Submit.put]
    · rename_i other
      rw [sound.put j]
      simp [Ne.symm other]
  · intro c mem
    obtain mem | rfl := mem_reach mem
    · exact sound.fits c mem
    · exact fun _ => fits
  · exact fun j => (exists_reach (p := Submit.holds) (t := .written) at_ rfl j).trans (sound.held j)
  · show left _ ≤ _
    unfold left
    rw [show ({ m.reach k x .written with
      ring := m.ring.push (cell.write x) room, accepted := m.accepted ++ [k] } :
        Mailbox σ ι cap).drained = .idle from idle]
  · intro cleared
    rw [show ({ m.reach k x .written with
      ring := m.ring.push (cell.write x) room, accepted := m.accepted ++ [k] } :
        Mailbox σ ι cap).drained = .idle from idle] at cleared
    obtain _ | _ := cleared <;> contradiction
  · intro free
    exact absurd (lock.symm.trans free) nofun
  · intro j c mem open_
    have mem : c ∈ (m.reach k x .written).calls[j]? := mem
    rw [getElem?_reach at_] at mem
    split at mem
    · obtain rfl := Option.some.inj mem
      obtain _ | _ := open_ <;> contradiction
    · rename_i other
      have holds : c.2.holds := by obtain stage | stage := open_ <;> rw [stage] <;> rfl
      rw [(sound.held j).mp ⟨c, mem, holds⟩] at lock
      exact absurd (Holder.call.inj (Option.some.inj lock)).symm other
  · exact sound.cleared

/-- The drain tries the lock. -/
theorem drain (granted : Bool) (idle : m.drained = .idle) (free : granted → m.lock = none) :
    Sound cell { m with
      drains := m.drains + 1
      drained := if granted then .taking m.ring.len else .idle
      lock := if granted then some .drain else m.lock } := by
  cases granted with
  | false =>
    have same : left { m with drains := m.drains + 1, drained := .idle } = m.left := by
      rw [left, left, idle]
    refine { sound with
      order := ?_, draining := ?_, left_le := ?_, emptied := nofun, cleared := nofun }
    · have before := sound.order
      rwa [queued, ← same] at before
    · exact ⟨fun busy => absurd rfl busy, fun lock => absurd idle (sound.draining.mpr lock)⟩
    · exact same.trans_le sound.left_le
  | true =>
    have free := free rfl
    refine { sound with
      order := ?_, held := ?_, draining := ?_, left_le := Nat.le_refl _, emptied := nofun
      count := nofun, cleared := nofun }
    · have before := sound.order
      rwa [queued, left, idle] at before
    · intro k
      rw [sound.held k, free]
      exact ⟨nofun, nofun⟩
    · exact ⟨fun _ => rfl, fun _ => nofun⟩

/-- The next item is taken out. -/
theorem take {r : ℕ} (at_ : m.drained = .taking (r + 1)) : ∃ y, m.front cell = some y ∧
    Sound cell { m with
      ring := m.ring.pop cell.clear, drained := .taking r, handed := m.handed ++ [y] } := by
  have le := sound.left_le
  have order := sound.order
  unfold queued at order
  unfold left at le order
  rw [at_] at le order
  dsimp only at le order
  rw [m.ring.window_pop cell.clear (Nat.lt_of_lt_of_le le m.ring.within), List.map_cons] at order
  -- What lies in the queue was accepted, so there is something in its slot.
  have there : m.front cell ∈ m.accepted.map m.item? :=
    order ▸ List.mem_append_right _ List.mem_cons_self
  obtain ⟨k, mem, eq⟩ := List.mem_map.mp there
  obtain ⟨y, front⟩ := Option.isSome_iff_exists.mp (eq ▸ sound.item?_isSome mem)
  refine ⟨y, front, { sound with
    order := ?_, draining := ?_, left_le := Nat.le_of_succ_le le, emptied := nofun
    cleared := nofun }⟩
  · rw [show cell.read (m.ring.slot 0) = some y from front] at order
    rw [List.map_append, List.append_assoc]
    exact order
  · have lock := sound.draining.mp (by rw [at_]; exact nofun)
    exact ⟨fun _ => lock, fun _ => nofun⟩

/-- The length is put right. -/
theorem reset (at_ : m.drained = .taking 0) :
    Sound cell { m with ring := m.ring.reset, drained := .emptied } := by
  have order := sound.order
  have lock := sound.draining.mp (by rw [at_]; exact nofun)
  rw [queued, left, at_] at order
  refine { sound with
    order := order, draining := ⟨fun _ => lock, fun _ => nofun⟩, left_le := Nat.le_refl 0
    emptied := fun _ => rfl, count := ?_, counting := ?_, cleared := nofun }
  · exact fun free => absurd (lock.symm.trans free) nofun
  · intro k c mem open_
    have holds : c.2.holds := by obtain stage | stage := open_ <;> rw [stage] <;> rfl
    exact absurd (lock.symm.trans ((sound.held k).mp ⟨c, mem, holds⟩)) nofun

/-- The count is put right. -/
theorem store (at_ : m.drained = .emptied) :
    Sound cell { m with waiting := 0, drained := .cleared } := by
  have order := sound.order
  have lock := sound.draining.mp (by rw [at_]; exact nofun)
  have empty := sound.emptied (.inl at_)
  rw [queued, left, at_] at order
  exact { sound with
    order := order, draining := ⟨fun _ => lock, fun _ => nofun⟩, left_le := Nat.zero_le _
    emptied := fun _ => empty, count := fun _ => empty.symm
    counting := fun _ _ _ _ => empty.symm, cleared := fun _ => rfl }

/-- The drain gives the lock back. -/
theorem unlock (at_ : m.drained = .cleared) :
    Sound cell { m with drained := .idle, lock := none } := by
  have order := sound.order
  have lock := sound.draining.mp (by rw [at_]; exact nofun)
  have empty := sound.emptied (.inr at_)
  have zero := (sound.cleared at_).trans empty.symm
  rw [queued, left, at_] at order
  refine { sound with
    order := ?_, held := ?_, draining := ⟨fun busy => absurd rfl busy, nofun⟩
    left_le := Nat.le_refl _, emptied := nofun, count := fun _ => zero, cleared := nofun }
  · rw [queued, left]
    dsimp only
    rw [empty]
    exact order
  · intro k
    rw [sound.held k, lock]
    exact ⟨nofun, nofun⟩

end Sound

theorem Sound.step {a : Act ι} (sound : m.Sound cell) (took : m.step cell a = some m') :
    m'.Sound cell := by
  cases a with
  | submit x => exact Option.some.inj took ▸ sound.submit x
  | lock k =>
    simp only [Mailbox.step] at took
    split at took
    · rename_i x at_
      obtain ⟨free, eq⟩ := Option.ite_none_right_eq_some.mp took
      have fits := sound.fits _ (List.mem_of_getElem? at_) (by exact nofun)
      exact Option.some.inj eq ▸
        sound.reach at_ (.inl free) rfl rfl (fun _ => fits) (sound.count free) rfl
    · cases took
  | go k =>
    simp only [Mailbox.step, go] at took
    split at took
    · rename_i x at_
      split at took
      · rename_i room
        exact Option.some.inj took ▸ sound.written at_ room
      · exact Option.some.inj took ▸
          sound.reach at_ (.inr (sound.idle_of_holds at_ rfl).1) rfl rfl (absurd rfl)
            (sound.counting k _ at_ (.inl rfl)) rfl
    · rename_i x at_
      have lock := (sound.idle_of_holds at_ rfl).1
      have fits := sound.fits _ (List.mem_of_getElem? at_) (by exact nofun)
      have after := sound.reach (t := .flagged) at_ (.inr lock) rfl rfl (fun _ => fits) rfl rfl
      rw [← lock] at after
      exact Option.some.inj took ▸ after
    · rename_i x at_
      have fits := sound.fits _ (List.mem_of_getElem? at_) (by exact nofun)
      exact Option.some.inj took ▸
        sound.reach at_ (.inr (sound.idle_of_holds at_ rfl).1) rfl rfl (fun _ => fits)
          (sound.counting k _ at_ (.inr rfl)) rfl
    · cases took
  | drain granted =>
    obtain ⟨idle, eq⟩ := Option.ite_none_right_eq_some.mp took
    dsimp only at eq
    split at eq
    · rename_i can
      exact Option.some.inj eq ▸ sound.drain true idle fun _ => can.2
    · have after := sound.drain false idle nofun
      rw [show (if false then _ else Drained.idle) = m.drained from idle.symm] at after
      exact Option.some.inj eq ▸ after
  | next =>
    simp only [Mailbox.step, next] at took
    split at took
    · cases took
    · rename_i r at_
      obtain ⟨y, front, after⟩ := sound.take at_
      rw [front] at took
      exact Option.some.inj took ▸ after
    · rename_i at_
      exact Option.some.inj took ▸ sound.reset at_
    · rename_i at_
      exact Option.some.inj took ▸ sound.store at_
    · rename_i at_
      exact Option.some.inj took ▸ sound.unlock at_

end Mailbox

end Fixbolt
