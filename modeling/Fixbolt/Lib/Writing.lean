import Mathlib.Data.List.Basic

/-!
# Programs that write into a buffer

A program over a buffer of fixed size answers a value or an error, and leaves the buffer as it is
then, also after an error.

* `Sized`: the buffer keeps its size;
* `Whole`: it does, and an error leaves it as it was;
* `within`: a program over a part of the buffer, and the rest of it;
* `Appends`: a program that writes behind what is there, and answers where it stopped. What it writes
  does not depend on the buffer;
* `Answers`: what holds of the value and the buffer after a program that answers;
* `Lays`: a program that writes behind what is there, which stays also after an error.
-/

namespace Fixbolt

variable {β ε α γ : Type}

/-- A program over a buffer. -/
structure Writing (β ε α : Type) where
  run : List β → Except ε α × List β

namespace Writing

instance : Monad (Writing β ε) where
  pure a := ⟨fun buf => (.ok a, buf)⟩
  bind x f := ⟨fun buf =>
    match x.run buf with
    | (.ok a, buf) => (f a).run buf
    | (.error e, buf) => (.error e, buf)⟩

/-- Answer an error. -/
def fail (e : ε) : Writing β ε α := ⟨fun buf => (.error e, buf)⟩

/-- Answer what was computed without the buffer. -/
def lift (r : Except ε α) : Writing β ε α := ⟨fun buf => (r, buf)⟩

/-- The same, with other errors. -/
def mapError (f : ε → ε) (x : Writing β ε α) : Writing β ε α :=
  ⟨fun buf => ((x.run buf).1.mapError f, (x.run buf).2)⟩

/-- Run a program, and answer what it answers, also when that is an error. -/
def attempt (x : Writing β ε α) : Writing β ε (Except ε α) :=
  ⟨fun buf => (.ok (x.run buf).1, (x.run buf).2)⟩

/-- Fail when there are not `len` places. -/
def require (tooSmall : ε) (len : ℕ) : Writing β ε Unit :=
  ⟨fun buf => if buf.length < len then (.error tooSmall, buf) else (.ok (), buf)⟩

/-- Copy `src` to `at_`, or fail with nothing written. -/
def put (tooSmall : ε) (at_ : ℕ) (src : List β) : Writing β ε Unit :=
  ⟨fun buf =>
    if at_ + src.length ≤ buf.length then
      (.ok (), buf.take at_ ++ src ++ buf.drop (at_ + src.length))
    else (.error tooSmall, buf)⟩

/-- Run a program over `len` places at `at_`, or fail when they are not all there. -/
def within (tooSmall : ε) (at_ len : ℕ) (x : Writing β ε α) : Writing β ε α :=
  ⟨fun buf =>
    if at_ + len ≤ buf.length then
      let r := x.run ((buf.drop at_).take len)
      (r.1, buf.take at_ ++ r.2 ++ buf.drop (at_ + len))
    else (.error tooSmall, buf)⟩

variable {x : Writing β ε α} {f : α → Writing β ε γ} {buf buf' : List β} {a : α} {e : ε}

@[simp] theorem run_pure (a : α) (buf : List β) : (pure a : Writing β ε α).run buf = (.ok a, buf) := rfl

theorem run_bind (x : Writing β ε α) (f : α → Writing β ε γ) (buf : List β) :
    (x >>= f).run buf = match x.run buf with
      | (.ok a, buf) => (f a).run buf
      | (.error e, buf) => (.error e, buf) := rfl

theorem run_mapError (g : ε → ε) (x : Writing β ε α) (buf : List β) :
    (x.mapError g).run buf = ((x.run buf).1.mapError g, (x.run buf).2) := rfl

theorem run_put (tooSmall : ε) (at_ : ℕ) (src buf : List β) :
    (put tooSmall at_ src).run buf =
      if at_ + src.length ≤ buf.length then
        (.ok (), buf.take at_ ++ src ++ buf.drop (at_ + src.length))
      else (.error tooSmall, buf) := rfl

theorem run_within (tooSmall : ε) (at_ len : ℕ) (x : Writing β ε α) (buf : List β) :
    (x.within tooSmall at_ len).run buf =
      if at_ + len ≤ buf.length then
        ((x.run ((buf.drop at_).take len)).1,
          buf.take at_ ++ (x.run ((buf.drop at_).take len)).2 ++ buf.drop (at_ + len))
      else (.error tooSmall, buf) := rfl

theorem bind_ok (h : x.run buf = (.ok a, buf')) : (x >>= f).run buf = (f a).run buf' := by
  rw [run_bind, h]

theorem bind_error (h : x.run buf = (.error e, buf')) : (x >>= f).run buf = (.error e, buf') := by
  rw [run_bind, h]

/-- A program that answered went through all its steps. -/
theorem ok_of_bind {c : γ} (h : (x >>= f).run buf = (.ok c, buf')) :
    ∃ a mid, x.run buf = (.ok a, mid) ∧ (f a).run mid = (.ok c, buf') := by
  rw [run_bind] at h
  rcases ran : x.run buf with ⟨a | a, mid⟩
  · rw [ran] at h
    cases h
  · rw [ran] at h
    exact ⟨a, mid, rfl, h⟩

instance : LawfulMonad (Writing β ε) := LawfulMonad.mk' _
  (fun x => by
    cases x with
    | mk run =>
      refine congrArg Writing.mk (funext fun buf => ?_)
      show (match run buf with
        | (.ok a, buf) => (.ok a, buf)
        | (.error e, buf) => (.error e, buf)) = run buf
      rcases run buf with ⟨_ | _, _⟩ <;> rfl)
  (fun _ _ => rfl)
  (fun x f g => by
    refine congrArg Writing.mk (funext fun buf => ?_)
    show (match (x >>= f).run buf with
      | (.ok a, buf) => (g a).run buf
      | (.error e, buf) => (.error e, buf)) = match x.run buf with
        | (.ok a, buf) => (f a >>= g).run buf
        | (.error e, buf) => (.error e, buf)
    rw [run_bind]
    rcases x.run buf with ⟨_ | _, _⟩ <;> rfl)

/-! ### Programs that keep the size -/

/-- The buffer keeps its size. -/
def Sized (x : Writing β ε α) : Prop := ∀ buf, (x.run buf).2.length = buf.length

theorem sized_pure (a : α) : (pure a : Writing β ε α).Sized := fun _ => rfl

theorem sized_fail (e : ε) : (fail e : Writing β ε α).Sized := fun _ => rfl

theorem Sized.bind (hx : x.Sized) (hf : ∀ a, (f a).Sized) : (x >>= f).Sized := by
  intro buf
  have size := hx buf
  cases h : x.run buf with
  | mk r buf' =>
    rw [h] at size
    cases r with
    | ok a => rw [bind_ok h, hf a buf', size]
    | error e => rw [bind_error h, size]

theorem Sized.mapError (hx : x.Sized) (g : ε → ε) : (x.mapError g).Sized := hx

theorem sized_put (tooSmall : ε) (at_ : ℕ) (src : List β) : (put tooSmall at_ src).Sized := by
  intro buf
  rw [run_put]
  split
  · simp only [List.length_append, List.length_take, List.length_drop]
    omega
  · rfl

theorem Sized.within (hx : x.Sized) (tooSmall : ε) (at_ len : ℕ) :
    (x.within tooSmall at_ len).Sized := by
  intro buf
  rw [run_within]
  split
  · have size := hx ((buf.drop at_).take len)
    simp only [List.length_append, List.length_take, List.length_drop] at size ⊢
    omega
  · rfl

theorem sized_forM {δ : Type} {l : List δ} {g : δ → Writing β ε PUnit} (h : ∀ a, (g a).Sized) :
    (l.forM g).Sized := by
  induction l with
  | nil => exact sized_pure _
  | cons a l ih => exact (h a).bind fun _ => ih

/-! ### Programs that write all or nothing -/

/-- The buffer keeps its size, and an error leaves it as it was. -/
structure Whole (x : Writing β ε α) : Prop where
  sized : x.Sized
  kept : ∀ buf e, (x.run buf).1 = .error e → (x.run buf).2 = buf

theorem whole_pure (a : α) : (pure a : Writing β ε α).Whole := ⟨sized_pure a, fun _ _ _ => rfl⟩

theorem whole_fail (e : ε) : (fail e : Writing β ε α).Whole := ⟨sized_fail e, fun _ _ _ => rfl⟩

theorem whole_put (tooSmall : ε) (at_ : ℕ) (src : List β) : (put tooSmall at_ src).Whole := by
  refine ⟨sized_put tooSmall at_ src, fun buf e => ?_⟩
  rw [run_put]
  split
  · rintro ⟨⟩
  · exact fun _ => rfl

theorem Whole.mapError (hx : x.Whole) (g : ε → ε) : (x.mapError g).Whole := by
  refine ⟨hx.sized.mapError g, fun buf e failed => ?_⟩
  rw [run_mapError] at failed ⊢
  cases h : (x.run buf).1 with
  | ok a =>
    rw [h] at failed
    cases failed
  | error e' => exact hx.kept buf e' h

theorem Whole.within (hx : x.Whole) (tooSmall : ε) (at_ len : ℕ) :
    (x.within tooSmall at_ len).Whole := by
  refine ⟨hx.sized.within tooSmall at_ len, fun buf e => ?_⟩
  rw [run_within]
  split
  · intro failed
    dsimp only at failed ⊢
    rw [hx.kept _ e failed, ← List.drop_drop, List.append_assoc, List.take_append_drop,
      List.take_append_drop]
  · exact fun _ => rfl

/-! ### The part and the rest -/

/-- A program over the middle of a buffer. -/
theorem within_middle {front middle back : List β} {at_ len : ℕ} (tooSmall : ε)
    (before : front.length = at_) (size : middle.length = len) (x : Writing β ε α) :
    (x.within tooSmall at_ len).run (front ++ middle ++ back) =
      ((x.run middle).1, front ++ (x.run middle).2 ++ back) := by
  have fits : at_ + len ≤ (front ++ middle ++ back).length := by
    simp only [List.length_append]
    omega
  have whole : (front ++ middle).length = at_ + len := by
    rw [List.length_append]
    omega
  rw [run_within, if_pos fits, List.drop_left' whole, List.append_assoc front,
    List.drop_left' before, List.take_left' before, List.take_left' size]

/-- Bytes put right behind the front. -/
theorem run_put_behind (tooSmall : ε) (front back src : List β) (room : src.length ≤ back.length) :
    (put tooSmall front.length src).run (front ++ back) =
      (.ok (), front ++ src ++ back.drop src.length) := by
  have fits : front.length + src.length ≤ (front ++ back).length := by
    rw [List.length_append]
    omega
  rw [run_put, if_pos fits, List.take_left' rfl, ← List.drop_drop, List.drop_left' rfl]

/-! ### Programs that go on where the last one stopped -/

/-- What a program writes behind what is there, given the place: `src` when there is one and room for
it, and an error otherwise. -/
def Appends (x : ℕ → Writing β ε ℕ) (src : Option (List β)) : Prop :=
  ∀ front back : List β, match src with
    | some s =>
      if s.length ≤ back.length then
        (x front.length).run (front ++ back) =
          (.ok (front.length + s.length), front ++ s ++ back.drop s.length)
      else ∃ e buf, (x front.length).run (front ++ back) = (.error e, buf)
    | none => ∃ e buf, (x front.length).run (front ++ back) = (.error e, buf)

theorem appends_pure : Appends (fun pos => (pure pos : Writing β ε ℕ)) (some []) := by
  intro front back
  simp

theorem appends_fail (e : ε) : Appends (fun _ => (fail e : Writing β ε ℕ)) none :=
  fun front back => ⟨e, front ++ back, rfl⟩

theorem appends_put (tooSmall : ε) (src : List β) :
    Appends (fun pos => do
      put tooSmall pos src
      return pos + src.length) (some src) := by
  intro front back
  dsimp only
  split
  · rename_i room
    rw [bind_ok (run_put_behind tooSmall _ _ _ room)]
    rfl
  · rename_i none_left
    have short : ¬ front.length + src.length ≤ (front ++ back).length := by
      rw [List.length_append]
      omega
    have failed : (put tooSmall front.length src).run (front ++ back) =
        (.error tooSmall, front ++ back) := if_neg short
    exact ⟨_, _, bind_error failed⟩

/-- One after the other. -/
theorem Appends.bind {x y : ℕ → Writing β ε ℕ} {s t : Option (List β)} (hx : Appends x s)
    (hy : Appends y t) :
    Appends (fun pos => x pos >>= y) (s.bind fun s => t.map fun t => s ++ t) := by
  intro front back
  have first := hx front back
  cases s with
  | none =>
    obtain ⟨e, buf, failed⟩ := first
    exact ⟨e, buf, bind_error failed⟩
  | some s =>
    dsimp only at first
    by_cases room : s.length ≤ back.length
    · rw [if_pos room] at first
      have second := hy (front ++ s) (back.drop s.length)
      rw [List.length_append] at second
      cases t with
      | none =>
        obtain ⟨e, buf, failed⟩ := second
        exact ⟨e, buf, (bind_ok first).trans failed⟩
      | some t =>
        dsimp only [Option.bind_some, Option.map_some] at second ⊢
        rw [List.length_drop] at second
        by_cases more : t.length ≤ back.length - s.length
        · rw [if_pos more] at second
          rw [if_pos (by rw [List.length_append]; omega)]
          refine (bind_ok first).trans (second.trans ?_)
          simp only [List.length_append, List.append_assoc, List.drop_drop, Nat.add_assoc]
        · rw [if_neg more] at second
          obtain ⟨e, buf, failed⟩ := second
          rw [if_neg (by rw [List.length_append]; omega)]
          exact ⟨e, buf, (bind_ok first).trans failed⟩
    · rw [if_neg room] at first
      obtain ⟨e, buf, failed⟩ := first
      cases t with
      | none => exact ⟨e, buf, bind_error failed⟩
      | some t =>
        dsimp only [Option.bind_some, Option.map_some]
        rw [if_neg (by rw [List.length_append]; omega)]
        exact ⟨e, buf, bind_error failed⟩

/-- One after the other, along a list. -/
theorem exists_appends_foldlM {δ : Type} {g : ℕ → δ → Writing β ε ℕ}
    (h : ∀ a, ∃ src, Appends (fun pos => g pos a) src) (l : List δ) :
    ∃ src, Appends (fun pos => l.foldlM g pos) src := by
  induction l with
  | nil => exact ⟨_, appends_pure⟩
  | cons a l ih =>
    obtain ⟨s, first⟩ := h a
    obtain ⟨t, later⟩ := ih
    exact ⟨_, first.bind later⟩

/-! ### What a program answers -/

/-- A program answers a value, and `post` holds of it and of what is left. -/
def Answers (x : Writing β ε α) (buf : List β) (post : α → List β → Prop) : Prop :=
  ∃ a buf', x.run buf = (.ok a, buf') ∧ post a buf'

theorem answers_pure {post : α → List β → Prop} (h : post a buf) :
    (pure a : Writing β ε α).Answers buf post := ⟨a, buf, rfl, h⟩

theorem answers_attempt {post : Except ε α → List β → Prop}
    (h : post (x.run buf).1 (x.run buf).2) : x.attempt.Answers buf post := ⟨_, _, rfl, h⟩

theorem Answers.bind {post : α → List β → Prop} {post' : γ → List β → Prop}
    (hx : x.Answers buf post) (hf : ∀ a buf', post a buf' → (f a).Answers buf' post') :
    (x >>= f).Answers buf post' := by
  obtain ⟨a, mid, ran, holds⟩ := hx
  obtain ⟨c, buf', rest, holds'⟩ := hf a mid holds
  exact ⟨c, buf', (bind_ok ran).trans rest, holds'⟩

/-! ### Programs that write behind what is there -/

/-- Given the place behind what is there, a program puts `src` there, which it does only if `good`,
or it fails. What is there stays, and so does the size of what is behind it. -/
def Lays (x : ℕ → Writing β ε Unit) (good : Prop) (src : List β) : Prop :=
  ∀ front back : List β,
    (∃ e back', (x front.length).run (front ++ back) = (.error e, front ++ back') ∧
      back'.length = back.length) ∨
    good ∧ ∃ back', (x front.length).run (front ++ back) = (.ok (), front ++ (src ++ back')) ∧
      (src ++ back').length = back.length

theorem lays_put (tooSmall : ε) (src : List β) : Lays (fun pos => put tooSmall pos src) True src := by
  intro front back
  by_cases room : src.length ≤ back.length
  · refine .inr ⟨trivial, back.drop src.length, ?_, ?_⟩
    · rw [run_put_behind tooSmall front back src room, List.append_assoc]
    · rw [List.length_append, List.length_drop]
      omega
  · refine .inl ⟨tooSmall, back, if_neg ?_, rfl⟩
    rw [List.length_append]
    omega

/-- What such a program answers, and what it leaves. -/
theorem Lays.attempt {x : ℕ → Writing β ε Unit} {good : Prop} {src : List β} (h : Lays x good src)
    (front back : List β) :
    (x front.length).attempt.Answers (front ++ back) fun r buf =>
      (∃ e back', r = .error e ∧ buf = front ++ back' ∧ back'.length = back.length) ∨
      r = .ok () ∧ good ∧ ∃ back', buf = front ++ (src ++ back') ∧
        (src ++ back').length = back.length := by
  refine answers_attempt ?_
  obtain ⟨e, back', ran, size⟩ | ⟨holds, back', ran, size⟩ := h front back
  · rw [ran]
    exact .inl ⟨e, back', rfl, rfl, size⟩
  · rw [ran]
    exact .inr ⟨rfl, holds, back', rfl, size⟩

/-- One behind the other. -/
theorem Lays.bind {x y : ℕ → Writing β ε Unit} {good good' : Prop} {s t : List β}
    (hx : Lays x good s) (hy : Lays y good' t) :
    Lays (fun pos => x pos >>= fun _ => y (pos + s.length)) (good ∧ good') (s ++ t) := by
  intro front back
  obtain ⟨e, back₁, failed, size⟩ | ⟨first, back₁, ran, size⟩ := hx front back
  · exact .inl ⟨e, back₁, bind_error failed, size⟩
  · rw [← List.append_assoc] at ran
    have second := hy (front ++ s) back₁
    rw [List.length_append] at second
    obtain ⟨e, back₂, failed, same⟩ | ⟨also, back₂, wrote, same⟩ := second
    · refine .inl ⟨e, s ++ back₂, ?_, ?_⟩
      · rw [← List.append_assoc]
        exact (bind_ok ran).trans failed
      · rw [← size, List.length_append, List.length_append, same]
    · refine .inr ⟨⟨first, also⟩, back₂, ?_, ?_⟩
      · rw [← List.append_assoc, ← List.append_assoc, List.append_assoc (front ++ s)]
        exact (bind_ok ran).trans wrote
      · rw [← size, List.append_assoc, List.length_append, same, List.length_append]

end Writing

end Fixbolt
