import Fixbolt.Codec.Framed
import Fixbolt.Dict.Tables
import Fixbolt.Engine.Redact

/-!
# What masking leaves of a message

The scan reads from separator to separator and knows no dictionary. On the fields of a message it
stays in step with the parser, unless another DATA value holds what reads as a DATA secret.

* `Masks`: the scan as a relation, one field at a time;
* `masks_fields`: field by field, what becomes of a message;
* `mask_parsed`: and what that says of the fields as the parser finds them.
-/

namespace Fixbolt

/-! ### Reading numbers -/

theorem parseTag_of_reads {text : Bytes} {tag : ℕ} (h : asU32? text = some tag) :
    parseTag text = some tag := by
  obtain ⟨some_, reads⟩ := asU32?_eq_some_iff.mp h
  unfold parseTag
  rw [if_neg (by simpa using some_)]
  suffices ∀ n, asU32Loop text (some n) = .ok tag →
      text.foldlM (fun n b => (digitOf b).bind fun d => checkedU32 (n * 10 + d)) n = some tag from
    this 0 reads
  clear h some_ reads
  induction text with
  | nil =>
    intro n reads
    cases reads
    rfl
  | cons b text ih =>
    intro n reads
    obtain ⟨d, n', digit, fits, reads⟩ := asU32Loop_cons_ok.mp reads
    rw [List.foldlM_cons, digit, Option.bind_some, fits]
    exact ih n' reads

theorem parseLen_of_reads {text : Bytes} {n : ℕ} (h : asU32? text = some n) : parseLen text = n := by
  obtain ⟨-, reads⟩ := asU32?_eq_some_iff.mp h
  unfold parseLen
  suffices ∀ m, asU32Loop text (some m) = .ok n →
      (text.takeWhile fun b => (digitOf b).isSome).foldl
        (fun n b => min (n * 10 + (digitOf b).getD 0) (usizeSize - 1)) m = n from this 0 reads
  clear h reads
  induction text with
  | nil =>
    intro m reads
    cases reads
    rfl
  | cons b text ih =>
    intro m reads
    obtain ⟨d, n', digit, fits, reads⟩ := asU32Loop_cons_ok.mp reads
    have small : n' < u32Size ∧ m * 10 + d = n' := by
      unfold checkedU32 at fits
      split at fits
      · cases fits
        exact ⟨by assumption, rfl⟩
      · cases fits
    have below : min (m * 10 + d) (usizeSize - 1) = n' := by
      have := small.1
      unfold u32Size at this
      unfold usizeSize
      omega
    rw [List.takeWhile_cons_of_pos (by rw [digit]; rfl), List.foldl_cons, digit, Option.getD_some,
      below]
    exact ih n' reads

/-! ### Where the next separator is -/

theorem nextSoh_eq {bytes xs rest : Bytes} {a : ℕ} (at_ : bytes.drop a = xs ++ SOH :: rest)
    (none : SOH ∉ xs) : nextSoh bytes a = a + xs.length := by
  rw [nextSoh, findSoh_eq_some_iff.mpr ⟨xs, rest, at_, none, rfl⟩]
  rfl

/-- The next separator is at most as far as any. -/
theorem nextSoh_le {bytes xs rest : Bytes} {a : ℕ} (at_ : bytes.drop a = xs ++ SOH :: rest) :
    nextSoh bytes a ≤ a + xs.length := by
  by_cases mem : SOH ∈ xs
  · obtain ⟨ys, zs, rfl, none⟩ := List.eq_append_cons_of_mem mem
    rw [List.append_assoc, List.cons_append] at at_
    rw [nextSoh_eq at_ none, List.length_append]
    omega
  · exact (nextSoh_eq at_ mem).le

/-! ### One field of the scan after another -/

/-- What the scan makes of `bytes` from its place on, with how many secrets it found. -/
inductive Masks : Scan → Bytes → Bytes → ℕ → Prop
  | done {s : Scan} {bytes : Bytes} (h : bytes.length ≤ s.at_) : Masks s bytes bytes 0
  | skip {s s' : Scan} {bytes out : Bytes} {n : ℕ} (inside : s.at_ < bytes.length)
      (h : s.look bytes = (s', none)) (further : s.at_ < s'.at_) (rest : Masks s' bytes out n) :
      Masks s bytes out n
  | hide {s s' : Scan} {bytes out : Bytes} {from_ to_ n : ℕ} (inside : s.at_ < bytes.length)
      (h : s.look bytes = (s', some (from_, to_))) (further : s.at_ < s'.at_)
      (rest : Masks s' (fill bytes from_ to_) out n) : Masks s bytes out (n + 1)

theorem fill_length (bytes : Bytes) (from_ to_ : ℕ) : (fill bytes from_ to_).length = bytes.length := by
  unfold fill
  split
  · rw [List.length_append, List.length_append, List.length_take, List.length_replicate,
      List.length_drop]
    omega
  · rfl

theorem next_of_masks {s : Scan} {bytes out : Bytes} {n fuel : ℕ} (h : Masks s bytes out n)
    (enough : bytes.length < fuel + s.at_) :
    (s.next bytes fuel = none ∧ out = bytes ∧ n = 0) ∨
      ∃ from_ to_ s' k, s.next bytes fuel = some ((from_, to_), s') ∧ s.at_ < s'.at_ ∧ n = k + 1 ∧
        Masks s' (fill bytes from_ to_) out k := by
  induction fuel generalizing s with
  | zero =>
    cases h with
    | done _ => exact .inl ⟨rfl, rfl, rfl⟩
    | skip inside _ _ _ => omega
    | hide inside _ _ _ => omega
  | succ fuel ih =>
    cases h with
    | done past =>
      left
      simp only [Scan.next, if_pos past, true_and]
    | skip inside look further rest =>
      simp only [Scan.next, if_neg (Nat.not_le.mpr inside), look]
      rcases ih rest (by omega) with found | ⟨from_, to_, s'', k, found, past, rfl, masks⟩
      · exact .inl found
      · exact .inr ⟨from_, to_, s'', k, found, by omega, rfl, masks⟩
    | hide inside look further rest =>
      simp only [Scan.next, if_neg (Nat.not_le.mpr inside), look]
      exact .inr ⟨_, _, _, _, rfl, further, rfl, rest⟩

theorem maskLoop_of_masks {s : Scan} {bytes out : Bytes} {n k fuel : ℕ} (h : Masks s bytes out n)
    (enough : bytes.length < fuel + s.at_) : maskLoop fuel s bytes k = (out, k + n) := by
  induction fuel generalizing s bytes n k with
  | zero =>
    cases h with
    | done _ => rfl
    | skip inside _ _ _ => omega
    | hide inside _ _ _ => omega
  | succ fuel ih =>
    rcases next_of_masks h (by omega : bytes.length < bytes.length + 1 + s.at_) with
      ⟨found, rfl, rfl⟩ | ⟨from_, to_, s', m, found, past, rfl, rest⟩
    · simp only [maskLoop, found]
      rfl
    · simp only [maskLoop, found]
      rw [ih rest (by rw [fill_length]; omega), Nat.add_right_comm, Nat.add_assoc]

theorem mask_of_masks {bytes out : Bytes} {n : ℕ} (h : Masks (.new bytes) bytes out n) :
    mask bytes = (out, n) := by
  rw [mask, maskLoop_of_masks h (by omega), Nat.zero_add]

/-! ### What the scan makes of a field -/

/-- The tag of what lies between two separators, and where its `=` is. -/
def tagIn (piece : Bytes) : Option (ℕ × ℕ) :=
  (piece.findIdx? (· == EQ)).bind fun eq => (parseTag (piece.take eq)).map fun tag => (tag, eq)

/-- Is the tag that of a secret, in this record? -/
def isSecret (signOn : Bool) (tag : ℕ) : Bool :=
  masked.any fun secret => secret.tag == tag && (secret.scope != .signOn || signOn)

/-- The secrets have a tag each. -/
theorem masked_inj {a b : Secret} (ha : a ∈ masked) (hb : b ∈ masked) (same : a.tag = b.tag) :
    a = b := by
  have : ∀ a ∈ masked, ∀ b ∈ masked, a.tag = b.tag → a = b := by decide
  exact this a ha b hb same

/-- No secret is the length field of one. -/
theorem kind_ne {a b : Secret} (ha : a ∈ masked) (hb : b ∈ masked) : a.kind ≠ .data b.tag := by
  have : ∀ a ∈ masked, ∀ b ∈ masked, a.kind ≠ .data b.tag := by decide
  exact this a ha b hb

/-- What the scan knows of the declared length of a secret. -/
def declaredFor (declared : List ℕ) (secret : Secret) : ℕ :=
  (((masked.zip declared).find? fun p => p.1.tag == secret.tag).map (·.2)).getD 0

/-- As many declared lengths as secrets. -/
theorem exists_declared {declared : List ℕ} (length : declared.length = masked.length) :
    ∃ a b c d e, declared = [a, b, c, d, e] := by
  match declared, length with
  | [a, b, c, d, e], _ => exact ⟨a, b, c, d, e, rfl⟩

theorem find_secret {declared : List ℕ} (length : declared.length = masked.length) {secret : Secret}
    (mem : secret ∈ masked) : (masked.zip declared).find? (fun p => p.1.tag == secret.tag) =
      some (secret, declaredFor declared secret) := by
  obtain ⟨a, b, c, d, e, rfl⟩ := exists_declared length
  simp only [masked, List.mem_cons, List.not_mem_nil, or_false] at mem
  rcases mem with rfl | rfl | rfl | rfl | rfl <;> rfl

theorem find_none {declared : List ℕ} {tag : ℕ} (absent : ∀ secret ∈ masked, secret.tag ≠ tag) :
    (masked.zip declared).find? (fun p => p.1.tag == tag) = none := by
  refine List.find?_eq_none.mpr fun p mem => ?_
  simpa using absent p.1 (List.of_mem_zip mem).1

theorem declare_length {declared : List ℕ} (length : declared.length = masked.length) (tag : ℕ)
    (value : Bytes) : (Scan.declare declared tag value).length = masked.length := by
  rw [Scan.declare, List.length_zipWith, length, Nat.min_self]

theorem declaredFor_declare {declared : List ℕ} (length : declared.length = masked.length)
    {secret : Secret} (mem : secret ∈ masked) (tag : ℕ) (value : Bytes) :
    declaredFor (Scan.declare declared tag value) secret =
      if secret.kind = .data tag then parseLen value else declaredFor declared secret := by
  obtain ⟨a, b, c, d, e, rfl⟩ := exists_declared length
  simp only [masked, List.mem_cons, List.not_mem_nil, or_false] at mem
  rcases mem with rfl | rfl | rfl | rfl | rfl <;> rfl

section Look

variable {s : Scan} {bytes pre piece rest : Bytes} {tag eq : ℕ}

theorem piece_at (whole : bytes = pre ++ (piece ++ SOH :: rest)) (at_ : s.at_ = pre.length)
    (noSoh : SOH ∉ piece) : nextSoh bytes s.at_ = pre.length + piece.length ∧
      (bytes.drop s.at_).take (nextSoh bytes s.at_ - s.at_) = piece := by
  have behind : bytes.drop s.at_ = piece ++ SOH :: rest := by rw [whole, at_, List.drop_left]
  have next := nextSoh_eq behind noSoh
  rw [next, behind, at_, Nat.add_sub_cancel_left, List.take_left]
  exact ⟨rfl, rfl⟩

theorem tagIn_eq_none (h : tagIn piece = none) : piece.findIdx? (· == EQ) = none ∨
    ∃ eq, piece.findIdx? (· == EQ) = some eq ∧ parseTag (piece.take eq) = none := by
  unfold tagIn at h
  cases found : piece.findIdx? (· == EQ) with
  | none => exact .inl rfl
  | some eq =>
    rw [found, Option.bind_some, Option.map_eq_none_iff] at h
    exact .inr ⟨eq, rfl, h⟩

theorem tagIn_eq_some (h : tagIn piece = some (tag, eq)) :
    piece.findIdx? (· == EQ) = some eq ∧ parseTag (piece.take eq) = some tag := by
  obtain ⟨eq', found, h⟩ := Option.bind_eq_some_iff.mp h
  obtain ⟨tag', reads, h⟩ := Option.map_eq_some_iff.mp h
  cases h
  exact ⟨found, reads⟩

/-- What is no field is passed over. -/
theorem look_none (whole : bytes = pre ++ (piece ++ SOH :: rest)) (at_ : s.at_ = pre.length)
    (noSoh : SOH ∉ piece) (h : tagIn piece = none) :
    s.look bytes = ({ s with at_ := pre.length + piece.length + 1 }, none) := by
  obtain ⟨next, field⟩ := piece_at whole at_ noSoh
  unfold Scan.look
  dsimp only
  rw [field, next]
  rcases tagIn_eq_none h with found | ⟨eq, found, reads⟩
  · rw [found]
  · rw [found]
    dsimp only
    rw [reads]

/-- So is a field that is no secret. -/
theorem look_plain (whole : bytes = pre ++ (piece ++ SOH :: rest)) (at_ : s.at_ = pre.length)
    (noSoh : SOH ∉ piece) (h : tagIn piece = some (tag, eq))
    (length : s.declared.length = masked.length) (plain : isSecret s.signOn tag = false) :
    s.look bytes = (⟨pre.length + piece.length + 1, s.signOn,
      Scan.declare s.declared tag (piece.drop (eq + 1))⟩, none) := by
  obtain ⟨next, field⟩ := piece_at whole at_ noSoh
  obtain ⟨found, reads⟩ := tagIn_eq_some h
  unfold Scan.look
  dsimp only
  rw [field, next, found]
  dsimp only
  rw [reads]
  dsimp only
  by_cases known : ∃ secret ∈ masked, secret.tag = tag
  · obtain ⟨secret, mem, rfl⟩ := known
    rw [find_secret (declare_length length _ _) mem]
    have scope : secret.scope = .signOn ∧ s.signOn = false := by
      have := List.any_eq_false.mp plain secret mem
      cases scope : secret.scope <;> cases signOn : s.signOn <;> simp [scope, signOn] at this ⊢
    dsimp only
    rw [if_pos scope]
  · rw [find_none fun secret mem same => known ⟨secret, mem, same⟩]

/-- A secret is found. -/
theorem look_secret (whole : bytes = pre ++ (piece ++ SOH :: rest)) (at_ : s.at_ = pre.length)
    (noSoh : SOH ∉ piece) (h : tagIn piece = some (tag, eq))
    (length : s.declared.length = masked.length) {secret : Secret} (mem : secret ∈ masked)
    (same : secret.tag = tag) (found : isSecret s.signOn tag = true) {to_ : ℕ}
    (ends : Scan.valueEnd bytes (pre.length + eq + 1) (pre.length + piece.length)
      (declaredFor s.declared secret) secret.kind = to_) :
    s.look bytes = (⟨to_ + 1, s.signOn, Scan.declare s.declared tag (piece.drop (eq + 1))⟩,
      some (pre.length + eq + 1, to_)) := by
  obtain ⟨next, field⟩ := piece_at whole at_ noSoh
  obtain ⟨idx, reads⟩ := tagIn_eq_some h
  subst same
  have scope : ¬ (secret.scope = .signOn ∧ s.signOn = false) := by
    rintro ⟨scope, signOn⟩
    obtain ⟨other, mem', is⟩ := List.any_eq_true.mp found
    obtain ⟨tag, kind⟩ := Bool.and_eq_true _ _ ▸ is
    cases masked_inj mem' mem (beq_iff_eq.mp tag)
    rw [scope, signOn] at kind
    cases kind
  have declared := declaredFor_declare length mem secret.tag (piece.drop (eq + 1))
  rw [if_neg (kind_ne mem mem)] at declared
  unfold Scan.look
  dsimp only
  rw [field, next, idx]
  dsimp only
  rw [reads]
  dsimp only
  rw [find_secret (declare_length length _ _) mem]
  dsimp only
  rw [if_neg scope, declared, at_, ends]

end Look

/-! ### What becomes of a value -/

/-- A piece of a DATA value, masked if it reads as a secret. -/
def siftPiece (signOn : Bool) (piece : Bytes) : Bytes :=
  match tagIn piece with
  | some (tag, eq) =>
    if isSecret signOn tag then
      piece.take (eq + 1) ++ List.replicate (piece.length - (eq + 1)) MASK
    else piece
  | none => piece

/-- The pieces behind the separators of a DATA value. -/
def siftTail (signOn : Bool) (pieces : List Bytes) : Bytes :=
  pieces.flatMap fun piece => SOH :: siftPiece signOn piece

/-- A value that is no secret: what stands behind its separators may read as one. -/
def sift (signOn : Bool) (value : Bytes) : Bytes :=
  match value.splitOn SOH with
  | [] => []
  | first :: more => first ++ siftTail signOn more

/-- What becomes of a field's value. -/
def veil (signOn : Bool) (f : WireField) : Bytes :=
  if isSecret signOn f.tag then List.replicate f.value.length MASK else sift signOn f.value

/-- The field with another value. -/
def WireField.holding (f : WireField) (value : Bytes) : Bytes := f.text ++ EQ :: (value ++ [SOH])

/-- Does a piece not read as a DATA secret? -/
def QuietPiece (signOn : Bool) (piece : Bytes) : Prop :=
  ∀ p ∈ tagIn piece, isSecret signOn p.1 = true →
    ∃ secret ∈ masked, secret.tag = p.1 ∧ secret.kind = .string

instance (signOn : Bool) (piece : Bytes) : Decidable (QuietPiece signOn piece) :=
  inferInstanceAs (Decidable (∀ p ∈ tagIn piece, isSecret signOn p.1 = true →
    ∃ secret ∈ masked, secret.tag = p.1 ∧ secret.kind = .string))

/-- Does nothing behind a separator of a value that is no secret read as a DATA secret? -/
def Quiet (signOn : Bool) (f : WireField) : Prop :=
  isSecret signOn f.tag = false → ∀ piece ∈ (f.value.splitOn SOH).tail, QuietPiece signOn piece

/-- The scan gets from one place to another. -/
def Scan.Advances (s : Scan) (bytes : Bytes) (s' : Scan) (bytes' : Bytes) : Prop :=
  ∃ k, ∀ out n, Masks s' bytes' out n → Masks s bytes out (n + k)

theorem Scan.Advances.trans {s s' s'' : Scan} {bytes bytes' bytes'' : Bytes}
    (h : s.Advances bytes s' bytes') (h' : s'.Advances bytes' s'' bytes'') :
    s.Advances bytes s'' bytes'' := by
  obtain ⟨k, h⟩ := h
  obtain ⟨k', h'⟩ := h'
  refine ⟨k' + k, fun out n masks => ?_⟩
  rw [← Nat.add_assoc]
  exact h out _ (h' out n masks)

theorem Scan.advances_skip {s s' : Scan} {bytes : Bytes} (inside : s.at_ < bytes.length)
    (look : s.look bytes = (s', none)) (further : s.at_ < s'.at_) : s.Advances bytes s' bytes :=
  ⟨0, fun _ _ masks => .skip inside look further masks⟩

theorem Scan.advances_hide {s s' : Scan} {bytes : Bytes} {from_ to_ : ℕ}
    (inside : s.at_ < bytes.length) (look : s.look bytes = (s', some (from_, to_)))
    (further : s.at_ < s'.at_) : s.Advances bytes s' (fill bytes from_ to_) :=
  ⟨1, fun _ _ masks => .hide inside look further masks⟩

/-- The range of a value, masked. -/
theorem fill_range (front value rest : Bytes) :
    fill (front ++ (value ++ rest)) front.length (front.length + value.length) =
      front ++ (List.replicate value.length MASK ++ rest) := by
  have inside : front.length ≤ front.length + value.length ∧
      front.length + value.length ≤ (front ++ (value ++ rest)).length := by
    simp only [List.length_append]
    omega
  have back : (front ++ (value ++ rest)).drop (front.length + value.length) = rest := by
    rw [← List.append_assoc, ← List.length_append, List.drop_left]
  rw [fill, if_pos inside, List.take_left, Nat.add_sub_cancel_left, back, List.append_assoc]

theorem siftPiece_length (signOn : Bool) (piece : Bytes) :
    (siftPiece signOn piece).length = piece.length := by
  unfold siftPiece
  split
  · rename_i tag eq found
    split
    · obtain ⟨idx, -⟩ := tagIn_eq_some found
      have := (List.findIdx?_eq_some_iff_getElem.mp idx).1
      rw [List.length_append, List.length_take, List.length_replicate]
      omega
    · rfl
  · rfl

section Steps

variable {s : Scan} {bytes pre rest : Bytes}

/-- One piece of a DATA value. -/
theorem advances_piece {piece : Bytes} (whole : bytes = pre ++ (piece ++ SOH :: rest))
    (at_ : s.at_ = pre.length) (noSoh : SOH ∉ piece) (length : s.declared.length = masked.length)
    (quiet : QuietPiece s.signOn piece) : ∃ s', s'.at_ = pre.length + piece.length + 1 ∧
      s'.signOn = s.signOn ∧ s'.declared.length = masked.length ∧
      s.Advances bytes s' (pre ++ (siftPiece s.signOn piece ++ SOH :: rest)) := by
  have inside : s.at_ < bytes.length := by
    rw [whole, at_]
    simp only [List.length_append, List.length_cons]
    omega
  unfold siftPiece
  cases found : tagIn piece with
  | none =>
    refine ⟨⟨pre.length + piece.length + 1, s.signOn, s.declared⟩, rfl, rfl, length, ?_⟩
    dsimp only
    rw [← whole]
    exact Scan.advances_skip inside (look_none whole at_ noSoh found) (by dsimp only; omega)
  | some p =>
    obtain ⟨tag, eq⟩ := p
    dsimp only
    cases secret : isSecret s.signOn tag with
    | false =>
      refine ⟨⟨_, _, _⟩, rfl, rfl, declare_length length tag (piece.drop (eq + 1)), ?_⟩
      rw [if_neg Bool.false_ne_true, ← whole]
      exact Scan.advances_skip inside (look_plain whole at_ noSoh found length secret)
        (by dsimp only; omega)
    | true =>
      obtain ⟨which, mem, same, string⟩ := quiet (tag, eq) found secret
      have lt := (List.findIdx?_eq_some_iff_getElem.mp (tagIn_eq_some found).1).1
      have look := look_secret whole at_ noSoh found length mem same secret
        (show Scan.valueEnd bytes _ _ _ _ = pre.length + piece.length by rw [string]; rfl)
      refine ⟨⟨_, _, _⟩, rfl, rfl, declare_length length tag (piece.drop (eq + 1)), ?_⟩
      have filled : fill bytes (pre.length + eq + 1) (pre.length + piece.length) =
          pre ++ (piece.take (eq + 1) ++ List.replicate (piece.length - (eq + 1)) MASK ++
            SOH :: rest) := by
        have split : bytes = (pre ++ piece.take (eq + 1)) ++ (piece.drop (eq + 1) ++ SOH :: rest) := by
          rw [whole, List.append_assoc, ← List.append_assoc (piece.take _), List.take_append_drop]
        have front : (pre ++ piece.take (eq + 1)).length = pre.length + eq + 1 := by
          rw [List.length_append, List.length_take]
          omega
        have := fill_range (pre ++ piece.take (eq + 1)) (piece.drop (eq + 1)) (SOH :: rest)
        rw [← split, front, List.length_drop] at this
        rw [show pre.length + eq + 1 + (piece.length - (eq + 1)) = pre.length + piece.length by
          omega] at this
        rw [this]
        simp only [List.append_assoc]
      rw [if_pos rfl, ← filled]
      exact Scan.advances_hide inside look (by dsimp only; omega)

/-- The pieces of a DATA value behind its first separator. -/
theorem advances_sift {w : Bytes} (whole : bytes = pre ++ SOH :: (w ++ SOH :: rest))
    (at_ : s.at_ = pre.length + 1) (length : s.declared.length = masked.length)
    (quiet : ∀ piece ∈ w.splitOn SOH, QuietPiece s.signOn piece) :
    ∃ s', s'.at_ = pre.length + w.length + 2 ∧ s'.signOn = s.signOn ∧
      s'.declared.length = masked.length ∧
      s.Advances bytes s' (pre ++ (siftTail s.signOn (w.splitOn SOH) ++ SOH :: rest)) := by
  induction k : w.length using Nat.strong_induction_on generalizing w s bytes pre with
  | _ k ih =>
    subst k
    have whole' : bytes = (pre ++ [SOH]) ++ (w ++ SOH :: rest) := by
      rw [whole]
      simp
    have at' : s.at_ = (pre ++ [SOH]).length := by rw [at_, List.length_append, List.length_singleton]
    by_cases mem : SOH ∈ w
    · obtain ⟨piece, w', rfl, noSoh⟩ := List.eq_append_cons_of_mem mem
      have split : (piece ++ SOH :: w').splitOn SOH = piece :: w'.splitOn SOH := by
        rw [List.splitOn_append_cons_self, List.splitOn_eq_singleton noSoh, List.singleton_append]
      rw [split] at quiet ⊢
      have first : bytes = (pre ++ [SOH]) ++ (piece ++ SOH :: (w' ++ SOH :: rest)) := by
        rw [whole']
        simp
      obtain ⟨mid, place, signOn, length', advances⟩ := advances_piece first at' noSoh length
        (quiet piece List.mem_cons_self)
      have next : (pre ++ [SOH]) ++ (siftPiece s.signOn piece ++ SOH :: (w' ++ SOH :: rest)) =
          (pre ++ SOH :: siftPiece s.signOn piece) ++ SOH :: (w' ++ SOH :: rest) := by
        simp
      rw [next] at advances
      have shorter : w'.length < (piece ++ SOH :: w').length := by
        rw [List.length_append, List.length_cons]
        omega
      have behind : mid.at_ = (pre ++ SOH :: siftPiece s.signOn piece).length + 1 := by
        simp only [place, List.length_append, List.length_cons, List.length_nil, siftPiece_length]
        omega
      have quiet' : ∀ piece ∈ w'.splitOn SOH, QuietPiece mid.signOn piece := by
        rw [signOn]
        exact fun piece mem => quiet piece (List.mem_cons_of_mem _ mem)
      obtain ⟨s', place', signOn', length'', advances'⟩ :=
        ih w'.length shorter rfl behind length' quiet' rfl
      refine ⟨s', ?_, signOn'.trans signOn, length'', ?_⟩
      · rw [place']
        simp only [List.length_append, List.length_cons, siftPiece_length]
        omega
      · have joined := advances.trans advances'
        rw [signOn] at joined
        simpa [siftTail, List.append_assoc] using joined
    · have only : w.splitOn SOH = [w] := List.splitOn_eq_singleton mem
      obtain ⟨s', place, signOn, length', advances⟩ := advances_piece whole' at' mem length
        (quiet w (by rw [only]; exact List.mem_singleton_self w))
      refine ⟨s', ?_, signOn, length', ?_⟩
      · rw [place, List.length_append, List.length_singleton]
        omega
      · rw [only]
        simpa [siftTail] using advances

/-- The tag in front of a value, read as the parser reads it. -/
theorem tagIn_field (f : WireField) (value : Bytes) :
    tagIn (f.text ++ EQ :: value) = some (f.tag, f.text.length) := by
  have digits := text_digits f.reads
  have found : (f.text ++ EQ :: value).findIdx? (· == EQ) = some f.text.length := by
    refine List.findIdx?_eq_some_iff_getElem.mpr ⟨by simp, by simp, fun j lt => ?_⟩
    rw [List.getElem_append_left lt]
    have ne : f.text[j] ≠ EQ := fun eq => digits _ (List.getElem_mem lt) (by rw [eq]; rfl)
    simpa using ne
  rw [tagIn, found, Option.bind_some, List.take_left, parseTag_of_reads f.reads]
  rfl

/-- A field of the message, as far as the scan needs to know it: a STRING secret holds no separator,
a DATA secret is as long as was declared last, and another value holds nothing that reads as a DATA
secret. -/
structure Known (s : Scan) (f : WireField) : Prop where
  length : s.declared.length = masked.length
  string : ∀ secret ∈ masked, secret.tag = f.tag → secret.kind = .string → SOH ∉ f.value
  data : ∀ secret ∈ masked, secret.tag = f.tag → isSecret s.signOn f.tag = true →
    ∀ l, secret.kind = .data l → declaredFor s.declared secret = f.value.length
  quiet : Quiet s.signOn f

/-- A field as far as its first separator. -/
theorem first_piece {f : WireField} (whole : bytes = pre ++ (f.bytes ++ rest)) :
    ∃ v rest', bytes = pre ++ ((f.text ++ EQ :: v) ++ SOH :: rest') ∧ SOH ∉ v ∧
      v.length ≤ f.value.length ∧ (SOH ∉ f.value → v = f.value) := by
  by_cases soh : SOH ∈ f.value
  · obtain ⟨v, w, split, noSoh⟩ := List.eq_append_cons_of_mem soh
    refine ⟨v, w ++ SOH :: rest, ?_, noSoh, ?_, fun absent => absurd soh absent⟩
    · rw [whole, WireField.bytes, split]
      simp
    · rw [split, List.length_append]
      exact Nat.le_add_right _ _
  · refine ⟨f.value, rest, ?_, soh, Nat.le_refl _, fun _ => rfl⟩
    rw [whole, WireField.bytes]
    simp

theorem drop_text (f : WireField) (v : Bytes) :
    (f.text ++ EQ :: v).drop (f.text.length + 1) = v := by
  simp

/-- A secret of the message is found, and its range is its value. -/
theorem look_known {f : WireField} (whole : bytes = pre ++ (f.bytes ++ rest))
    (at_ : s.at_ = pre.length) (known : Known s f) (secret : isSecret s.signOn f.tag = true) :
    ∃ s', s'.at_ = pre.length + f.bytes.length ∧ s'.signOn = s.signOn ∧
      s'.declared.length = masked.length ∧
      (SOH ∉ f.value → s'.declared = Scan.declare s.declared f.tag f.value) ∧
      s.look bytes = (s', some (pre.length + f.text.length + 1,
        pre.length + f.text.length + 1 + f.value.length)) := by
  have total := f.bytes_length
  obtain ⟨which, mem, is⟩ := List.any_eq_true.mp secret
  have same : which.tag = f.tag := beq_iff_eq.mp (Bool.and_eq_true _ _ ▸ is).1
  obtain ⟨v, rest', here, noSoh, le, only⟩ := first_piece whole
  have back : bytes = (pre ++ (f.text ++ EQ :: f.value)) ++ SOH :: rest := by
    rw [whole, WireField.bytes]
    simp
  have ends : Scan.valueEnd bytes (pre.length + f.text.length + 1)
      (pre.length + (f.text ++ EQ :: v).length) (declaredFor s.declared which) which.kind =
        pre.length + f.text.length + 1 + f.value.length := by
    cases kind : which.kind with
    | string =>
      rw [only (known.string which mem same kind), Scan.valueEnd, List.length_append,
        List.length_cons]
      omega
    | data l =>
      -- the declared length reaches the separator behind the value
      have room := congrArg List.length back
      simp only [List.length_append, List.length_cons] at room
      have byLen : min (pre.length + f.text.length + 1 + f.value.length) bytes.length =
          (pre ++ (f.text ++ EQ :: f.value)).length := by
        simp only [List.length_append, List.length_cons]
        omega
      have next : nextSoh bytes (pre ++ (f.text ++ EQ :: f.value)).length =
          (pre ++ (f.text ++ EQ :: f.value)).length := by
        refine @nextSoh_eq _ [] rest _ ?_ List.not_mem_nil
        rw [back, List.drop_left]
        rfl
      unfold Scan.valueEnd
      rw [known.data which mem same secret l kind]
      dsimp only
      rw [byLen, next]
      simp only [List.length_append, List.length_cons]
      split <;> omega
  have look := look_secret here at_ (noSoh_piece f noSoh) (tagIn_field f v) known.length mem same
    secret ends
  rw [drop_text] at look
  refine ⟨_, ?_, ?_, ?_, ?_, look⟩
  · show _ + 1 = _
    omega
  · rfl
  · exact declare_length known.length f.tag v
  · exact fun absent => by rw [only absent]

/-- The scan over one field of a message. -/
theorem advances_field {f : WireField} (whole : bytes = pre ++ (f.bytes ++ rest))
    (at_ : s.at_ = pre.length) (known : Known s f) :
    ∃ s', s'.at_ = pre.length + f.bytes.length ∧ s'.signOn = s.signOn ∧
      s'.declared.length = masked.length ∧
      (SOH ∉ f.value → s'.declared = Scan.declare s.declared f.tag f.value) ∧
      s.Advances bytes s' (pre ++ (f.holding (veil s.signOn f) ++ rest)) := by
  have total := f.bytes_length
  have inside : s.at_ < bytes.length := by
    rw [whole, at_, List.length_append, List.length_append]
    omega
  unfold veil
  cases secret : isSecret s.signOn f.tag with
  | true =>
    obtain ⟨s', place, signOn, length, declared, look⟩ := look_known whole at_ known secret
    refine ⟨s', place, signOn, length, declared, ?_⟩
    have filled := fill_range (pre ++ (f.text ++ [EQ])) f.value (SOH :: rest)
    have front : (pre ++ (f.text ++ [EQ])).length = pre.length + f.text.length + 1 := by
      simp only [List.length_append, List.length_singleton]
      omega
    have same : (pre ++ (f.text ++ [EQ])) ++ (f.value ++ SOH :: rest) = bytes := by
      rw [whole, WireField.bytes]
      simp
    have veiled : (pre ++ (f.text ++ [EQ])) ++ (List.replicate f.value.length MASK ++ SOH :: rest) =
        pre ++ (f.holding (List.replicate f.value.length MASK) ++ rest) := by
      rw [WireField.holding]
      simp
    rw [same, front, veiled] at filled
    rw [if_pos rfl, ← filled]
    exact Scan.advances_hide inside look (by rw [place]; omega)
  | false =>
    rw [if_neg Bool.false_ne_true]
    by_cases soh : SOH ∈ f.value
    · obtain ⟨v, w, split, noSoh⟩ := List.eq_append_cons_of_mem soh
      have pieces : f.value.splitOn SOH = v :: w.splitOn SOH := by
        rw [split, List.splitOn_append_cons_self, List.splitOn_eq_singleton noSoh,
          List.singleton_append]
      have here : bytes = pre ++ ((f.text ++ EQ :: v) ++ SOH :: (w ++ SOH :: rest)) := by
        rw [whole, WireField.bytes, split]
        simp
      have quiet := known.quiet secret
      rw [pieces] at quiet
      -- past the first separator of the value, and then piece by piece
      obtain ⟨mid, look, place, signOn, length⟩ : ∃ mid, s.look bytes = (mid, none) ∧
          mid.at_ = (pre ++ (f.text ++ EQ :: v)).length + 1 ∧ mid.signOn = s.signOn ∧
          mid.declared.length = masked.length :=
        ⟨_, look_plain here at_ (noSoh_piece f noSoh) (tagIn_field f v) known.length secret,
          by simp only [List.length_append, List.length_cons], rfl,
          declare_length known.length _ _⟩
      have here' : bytes = (pre ++ (f.text ++ EQ :: v)) ++ SOH :: (w ++ SOH :: rest) := by
        rw [here, List.append_assoc pre]
      have first := Scan.advances_skip inside look (by
        rw [place, List.length_append]
        omega)
      rw [← signOn] at quiet
      obtain ⟨s', place', signOn', length', advances⟩ := advances_sift here' place length quiet
      refine ⟨s', ?_, signOn'.trans signOn, length', fun absent => absurd soh absent, ?_⟩
      · have := congrArg List.length split
        simp only [List.length_append, List.length_cons] at place' this
        omega
      · have joined := first.trans advances
        have veiled : pre ++ (f.text ++ EQ :: v) ++
            (siftTail s.signOn (w.splitOn SOH) ++ SOH :: rest) =
              pre ++ (f.holding (sift s.signOn f.value) ++ rest) := by
          rw [WireField.holding, sift, pieces]
          simp
        rw [signOn, veiled] at joined
        exact joined
    · have pieces : f.value.splitOn SOH = [f.value] := List.splitOn_eq_singleton soh
      have here : bytes = pre ++ ((f.text ++ EQ :: f.value) ++ SOH :: rest) := by
        rw [whole, WireField.bytes]
        simp
      have look := look_plain here at_ (noSoh_piece f soh) (tagIn_field f _) known.length secret
      rw [drop_text] at look
      have same : pre ++ (f.holding (sift s.signOn f.value) ++ rest) = bytes := by
        rw [WireField.holding, sift, pieces, whole, WireField.bytes]
        simp [siftTail]
      obtain ⟨s', look, place, signOn, declared⟩ : ∃ s', s.look bytes = (s', none) ∧
          s'.at_ = pre.length + f.bytes.length ∧ s'.signOn = s.signOn ∧
          s'.declared = Scan.declare s.declared f.tag f.value := by
        refine ⟨_, look, ?_, rfl, rfl⟩
        simp only [List.length_append, List.length_cons]
        omega
      refine ⟨s', place, signOn, ?_, fun _ => declared, ?_⟩
      · rw [declared]
        exact declare_length known.length f.tag f.value
      · rw [same]
        exact Scan.advances_skip inside look (by omega)

end Steps

/-! ### The fields of a message -/

theorem siftTail_length (signOn : Bool) (w : Bytes) :
    (siftTail signOn (w.splitOn SOH)).length = w.length + 1 := by
  induction k : w.length using Nat.strong_induction_on generalizing w with
  | _ k ih =>
    subst k
    by_cases mem : SOH ∈ w
    · obtain ⟨piece, w', rfl, noSoh⟩ := List.eq_append_cons_of_mem mem
      have shorter : w'.length < (piece ++ SOH :: w').length := by
        rw [List.length_append, List.length_cons]
        omega
      have rest := ih w'.length shorter w' rfl
      rw [List.splitOn_append_cons_self, List.splitOn_eq_singleton noSoh, List.singleton_append,
        siftTail, List.flatMap_cons, List.length_append, List.length_cons, siftPiece_length]
      rw [siftTail] at rest
      rw [rest, List.length_append, List.length_cons]
      omega
    · rw [List.splitOn_eq_singleton mem]
      simp [siftTail, siftPiece_length]

theorem sift_length (signOn : Bool) (value : Bytes) : (sift signOn value).length = value.length := by
  by_cases mem : SOH ∈ value
  · obtain ⟨v, w, rfl, noSoh⟩ := List.eq_append_cons_of_mem mem
    rw [sift, List.splitOn_append_cons_self, List.splitOn_eq_singleton noSoh, List.singleton_append]
    dsimp only
    rw [List.length_append, siftTail_length, List.length_append, List.length_cons]
  · rw [sift, List.splitOn_eq_singleton mem]
    exact congrArg List.length (List.append_nil value)

/-- A value without a separator that is no secret stays as it is. -/
theorem sift_of_not_mem (signOn : Bool) {value : Bytes} (noSoh : SOH ∉ value) :
    sift signOn value = value := by
  rw [sift, List.splitOn_eq_singleton noSoh]
  exact List.append_nil value

theorem veil_secret {signOn : Bool} {f : WireField} (h : isSecret signOn f.tag = true) :
    veil signOn f = List.replicate f.value.length MASK := if_pos h

theorem veil_plain {signOn : Bool} {f : WireField} (h : isSecret signOn f.tag = false) :
    veil signOn f = sift signOn f.value := if_neg (by rw [h]; exact Bool.false_ne_true)

theorem veil_length (signOn : Bool) (f : WireField) : (veil signOn f).length = f.value.length := by
  unfold veil
  split
  · exact List.length_replicate
  · exact sift_length signOn f.value

theorem holding_length (f : WireField) {value : Bytes} (same : value.length = f.value.length) :
    (f.holding value).length = f.bytes.length := by
  rw [f.bytes_length, WireField.holding]
  simp only [List.length_append, List.length_cons, List.length_nil]
  omega

/-- A secret of the message ends where `prev` in front of it says, or at its separator. -/
def Ends (prev f : WireField) : Prop :=
  ∀ secret ∈ masked, secret.tag = f.tag →
    match secret.kind with
    | .string => SOH ∉ f.value
    | .data l => prev.tag = l ∧ asU32? prev.value = some f.value.length

/-- The scan over fields that lie end to end. -/
theorem masks_fields {fields : List WireField} {prev : WireField} {s : Scan} {front : Bytes}
    (at_ : s.at_ = front.length) (length : s.declared.length = masked.length)
    (declared : SOH ∉ prev.value → ∀ secret ∈ masked, secret.kind = .data prev.tag →
      declaredFor s.declared secret = parseLen prev.value)
    (ends : List.IsChain Ends (prev :: fields)) (quiet : ∀ f ∈ fields, Quiet s.signOn f) :
    ∃ n, Masks s (front ++ spell fields)
      (front ++ fields.flatMap fun f => f.holding (veil s.signOn f)) n := by
  induction fields generalizing prev s front with
  | nil =>
    refine ⟨0, .done ?_⟩
    rw [spell_nil, List.append_nil, at_]
  | cons f fields ih =>
    obtain ⟨here, ends⟩ := List.isChain_cons_cons.mp ends
    have known : Known s f := by
      refine ⟨length, fun secret mem same string => ?_, fun secret mem same _ l data => ?_,
        quiet f List.mem_cons_self⟩
      · have := here secret mem same
        rwa [string] at this
      · have := here secret mem same
        rw [data] at this
        obtain ⟨rfl, stated⟩ := this
        have noSoh : SOH ∉ prev.value := fun mem => text_digits stated SOH mem rfl
        rw [declared noSoh secret mem data]
        exact parseLen_of_reads stated
    have whole : front ++ spell (f :: fields) = front ++ (f.bytes ++ spell fields) := rfl
    obtain ⟨s', place, signOn, length', declared', k, advances⟩ := advances_field whole at_ known
    have next : s'.at_ = (front ++ f.holding (veil s.signOn f)).length := by
      rw [place, List.length_append, holding_length f (veil_length s.signOn f)]
    have behind : SOH ∉ f.value → ∀ secret ∈ masked, secret.kind = .data f.tag →
        declaredFor s'.declared secret = parseLen f.value := by
      intro noSoh secret mem kind
      rw [declared' noSoh, declaredFor_declare length mem, if_pos kind]
    obtain ⟨n, rest⟩ := ih next length' behind ends (by
      rw [signOn]
      exact fun g mem => quiet g (List.mem_cons_of_mem _ mem))
    refine ⟨n + k, advances _ n ?_⟩
    rw [signOn, List.append_assoc, List.append_assoc] at rest
    exact rest

/-! ### The fields as the parser finds them -/

/-- The entries are those of the fields. -/
theorem mem_entriesAt {e : FieldEntry} {pos : ℕ} {fields : List WireField}
    (h : e ∈ entriesAt pos fields) :
    ∃ xs f ys, fields = xs ++ f :: ys ∧ e = f.entry (pos + (spell xs).length) := by
  induction fields generalizing pos with
  | nil => cases h
  | cons f fields ih =>
    rcases List.mem_cons.mp h with rfl | h
    · exact ⟨[], f, fields, rfl, rfl⟩
    · obtain ⟨xs, g, ys, rfl, rfl⟩ := ih h
      refine ⟨f :: xs, g, ys, rfl, ?_⟩
      rw [spell_cons, List.length_append, Nat.add_assoc]

/-- The message with other values of the same lengths. -/
def respell (value : WireField → Bytes) (fields : List WireField) : Bytes :=
  fields.flatMap fun f => f.holding (value f)

theorem respell_eq {value : WireField → Bytes} {fields : List WireField}
    (h : ∀ f ∈ fields, value f = f.value) : respell value fields = spell fields := by
  induction fields with
  | nil => rfl
  | cons f fields ih =>
    rw [respell, List.flatMap_cons, h f List.mem_cons_self, spell_cons]
    exact congrArg _ (ih fun g mem => h g (List.mem_cons_of_mem _ mem))

section Respell

variable {value : WireField → Bytes} (same : ∀ f, (value f).length = f.value.length)
include same

theorem respell_length (fields : List WireField) :
    (respell value fields).length = (spell fields).length := by
  induction fields with
  | nil => rfl
  | cons f fields ih =>
    rw [respell, List.flatMap_cons, List.length_append, holding_length f (same f), spell_cons,
      List.length_append]
    exact congrArg _ ih

theorem slice_respell (xs ys : List WireField) (f : WireField) :
    slice (respell value (xs ++ f :: ys)) (f.entry (spell xs).length).offset
      (f.entry (spell xs).length).len = some (value f) := by
  have split : respell value (xs ++ f :: ys) =
      (respell value xs ++ (f.text ++ [EQ])) ++ value f ++ (SOH :: respell value ys) := by
    simp [respell, WireField.holding]
  have front : (respell value xs ++ (f.text ++ [EQ])).length = (f.entry (spell xs).length).offset := by
    rw [List.length_append, respell_length same, List.length_append, List.length_singleton]
    rfl
  have long : (value f).length = (f.entry (spell xs).length).len := same f
  rw [← front, ← long, split]
  exact slice_append _ _ _

/-- Only the values may differ. -/
theorem respell_agree (fields : List WireField) (pos i : ℕ)
    (outside : ∀ e ∈ entriesAt pos fields, ¬ (e.offset ≤ pos + i ∧ pos + i < e.offset + e.len)) :
    (respell value fields)[i]? = (spell fields)[i]? := by
  induction fields generalizing pos i with
  | nil => rfl
  | cons f fields ih =>
    have here := outside _ List.mem_cons_self
    simp only [WireField.entry, not_and, not_lt] at here
    have long := same f
    rw [respell, List.flatMap_cons, spell_cons]
    by_cases inside : i < f.bytes.length
    · rw [List.getElem?_append_left (by rwa [holding_length f long]),
        List.getElem?_append_left inside, WireField.holding, WireField.bytes]
      by_cases front : i < f.text.length + 1
      · have text (v : Bytes) : f.text ++ EQ :: (v ++ [SOH]) = (f.text ++ [EQ]) ++ (v ++ [SOH]) := by
          simp
        have inside : i < (f.text ++ [EQ]).length := by
          rw [List.length_append, List.length_singleton]
          exact front
        rw [text, text, List.getElem?_append_left inside, List.getElem?_append_left inside]
      · have back (v : Bytes) : f.text ++ EQ :: (v ++ [SOH]) = (f.text ++ EQ :: v) ++ [SOH] := by
          simp
        have behind := here (by omega)
        rw [back, back, List.getElem?_append_right (by simp; omega),
          List.getElem?_append_right (by simp; omega)]
        simp only [List.length_append, List.length_cons, long]
    · rw [List.getElem?_append_right (by rw [holding_length f long]; omega),
        List.getElem?_append_right (by omega), holding_length f long]
      refine ih (pos + f.bytes.length) (i - f.bytes.length) fun e mem => ?_
      have := outside e (List.mem_cons_of_mem _ mem)
      rwa [show pos + f.bytes.length + (i - f.bytes.length) = pos + i by omega]

end Respell

/-! ### A whole message -/

/-- The length field of a DATA secret. -/
def Secret.Kind.length : Secret.Kind → Option ℕ
  | .string => none
  | .data l => some l

/-- The dictionary reads a secret as the list has it. -/
def Paired (D : Dictionary) (tag : ℕ) : Prop :=
  ∀ secret ∈ masked, secret.tag = tag → D.dataLengthTag tag = secret.kind.length

instance (D : Dictionary) (tag : ℕ) : Decidable (Paired D tag) :=
  inferInstanceAs (Decidable (∀ secret ∈ masked, secret.tag = tag →
    D.dataLengthTag tag = secret.kind.length))

/-- Nothing behind a separator of a value that is no secret reads as a DATA secret. -/
def NoDataInside (buf : Bytes) (idx : List FieldEntry) : Prop :=
  ∀ e ∈ idx, ∀ value ∈ slice buf e.offset e.len, isSecret (signOn buf) e.tag = false →
    ∀ piece ∈ (value.splitOn SOH).tail, QuietPiece (signOn buf) piece

instance (buf : Bytes) (idx : List FieldEntry) : Decidable (NoDataInside buf idx) :=
  inferInstanceAs (Decidable (∀ e ∈ idx, ∀ value ∈ slice buf e.offset e.len,
    isSecret (signOn buf) e.tag = false →
      ∀ piece ∈ (value.splitOn SOH).tail, QuietPiece (signOn buf) piece))

variable {D : Dictionary} {N : ℕ} {v : Validation} {buf : Bytes} {idx : List FieldEntry}

theorem not_secret {tag : ℕ} (low : tag < 96) {secret : Secret} (mem : secret ∈ masked) :
    secret.tag ≠ tag := by
  have : ∀ secret ∈ masked, 96 ≤ secret.tag := by decide
  exact fun eq => absurd (this secret mem) (by omega)

/-- Every field of a message ends where the scan takes it to end. -/
theorem FramedMessage.ends (m : FramedMessage D v)
    (paired : ∀ f ∈ m.fields, Paired D f.tag) :
    List.IsChain Ends (m.begin_ :: m.fields) := by
  have low {prev f : WireField} (lt : f.tag < 96) : Ends prev f :=
    fun secret mem same => absurd same (not_secret lt mem)
  have body : List.IsChain Ends (m.bodyLength :: m.body) := by
    refine m.chain.imp_of_mem_tail_imp fun prev f _ mem leads secret masked same => ?_
    have pair := paired f (by
      refine List.mem_cons_of_mem _ (List.mem_cons_of_mem _ (List.mem_append_left _ ?_))
      exact mem) secret masked same
    unfold WireField.Leads Leads WireField.pair at leads
    rw [pair] at leads
    cases kind : secret.kind with
    | string =>
      rw [kind] at leads
      exact leads
    | data l =>
      rw [kind] at leads
      exact leads
  have begin_ : m.begin_.tag < 96 := by
    rw [m.begin_tag]
    decide
  have bodyLength : m.bodyLength.tag < 96 := by
    rw [m.bodyLength_tag]
    decide
  have trailer : m.trailer.tag < 96 := by
    rw [m.trailer_tag]
    decide
  refine List.isChain_cons_cons.mpr ⟨low begin_, List.isChain_cons_cons.mpr ⟨low bodyLength, ?_⟩⟩
  show List.IsChain Ends ((m.bodyLength :: m.body) ++ [m.trailer])
  refine body.append (List.isChain_singleton _) fun x _ y last => ?_
  cases last
  exact low trailer

theorem mem_splitOn_spell {piece w : Bytes} (fields : List WireField) (h : piece ∈ w.splitOn SOH) :
    piece ∈ (spell fields ++ w).splitOn SOH := by
  induction fields with
  | nil => exact h
  | cons f fields ih =>
    have split : spell (f :: fields) ++ w = (f.text ++ EQ :: f.value) ++ SOH :: (spell fields ++ w) := by
      simp [WireField.bytes]
    rw [split, List.splitOn_append_cons_self]
    exact List.mem_append_right _ ih

/-- A message with a type of a sign-on is one. -/
theorem signOn_of_type {fields : List WireField} {f : WireField} (mem : f ∈ fields)
    (text : f.text = [0x33, 0x35]) (value : f.value = ascii "A" ∨ f.value = ascii "BE") :
    signOn (spell fields) = true := by
  obtain ⟨xs, ys, rfl⟩ := List.append_of_mem mem
  have noSoh : SOH ∉ f.value := by
    rcases value with value | value
    · rw [value]
      decide
    · rw [value]
      decide
  have piece : f.text ++ EQ :: f.value ∈ (spell (xs ++ f :: ys)).splitOn SOH := by
    rw [spell_append]
    refine mem_splitOn_spell xs ?_
    have split : spell (f :: ys) = (f.text ++ EQ :: f.value) ++ SOH :: spell ys := by
      simp [WireField.bytes]
    rw [split, List.splitOn_append_cons_self, List.splitOn_eq_singleton (noSoh_piece f noSoh)]
    exact List.mem_append_left _ (List.mem_singleton_self _)
  have typed : f.value ∈ ((spell (xs ++ f :: ys)).splitOn SOH).filterMap typeIn := by
    refine List.mem_filterMap.mpr ⟨_, piece, ?_⟩
    rw [text]
    rfl
  unfold signOn
  dsimp only
  rcases value with value | value
  · rw [value] at typed
    rw [List.contains_iff_mem.mpr typed, Bool.true_or, Bool.true_or]
  · rw [value] at typed
    rw [List.contains_iff_mem.mpr typed, Bool.or_true, Bool.true_or]

/-- What masking makes of a message. -/
theorem mask_message (m : FramedMessage D v)
    (paired : ∀ f ∈ m.fields, Paired D f.tag) (quiet : ∀ f ∈ m.fields, Quiet (signOn m.bytes) f) :
    (mask m.bytes).1 = respell (veil (signOn m.bytes)) m.fields := by
  have begin_ : ∀ secret ∈ masked, secret.kind ≠ .data m.begin_.tag := by
    rw [m.begin_tag]
    decide
  obtain ⟨n, masks⟩ := @masks_fields m.fields m.begin_ (.new m.bytes) [] rfl
    (List.length_map _) (fun _ secret mem kind => absurd kind (begin_ secret mem))
    (m.ends paired) quiet
  exact congrArg Prod.fst (mask_of_masks masks)

/-- A value in which nothing behind a separator reads as a secret stays as it is. -/
theorem sift_of_quiet {signOn : Bool} {value : Bytes}
    (quiet : ∀ piece ∈ (value.splitOn SOH).tail, ∀ tag eq, tagIn piece = some (tag, eq) →
      isSecret signOn tag = false) : sift signOn value = value := by
  have keeps (piece : Bytes) (h : ∀ tag eq, tagIn piece = some (tag, eq) →
      isSecret signOn tag = false) : siftPiece signOn piece = piece := by
    unfold siftPiece
    split
    · rename_i tag eq found
      rw [if_neg (by rw [h tag eq found]; exact Bool.false_ne_true)]
    · rfl
  have tails (w : Bytes) (h : ∀ piece ∈ w.splitOn SOH, siftPiece signOn piece = piece) :
      siftTail signOn (w.splitOn SOH) = SOH :: w := by
    induction k : w.length using Nat.strong_induction_on generalizing w with
    | _ k ih =>
      subst k
      by_cases mem : SOH ∈ w
      · obtain ⟨piece, w', rfl, noSoh⟩ := List.eq_append_cons_of_mem mem
        have split : (piece ++ SOH :: w').splitOn SOH = piece :: w'.splitOn SOH := by
          rw [List.splitOn_append_cons_self, List.splitOn_eq_singleton noSoh, List.singleton_append]
        rw [split] at h ⊢
        have shorter : w'.length < (piece ++ SOH :: w').length := by
          rw [List.length_append, List.length_cons]
          omega
        have rest := ih w'.length shorter w' (fun p mem => h p (List.mem_cons_of_mem _ mem)) rfl
        rw [siftTail] at rest ⊢
        rw [List.flatMap_cons, rest, h piece List.mem_cons_self]
        simp
      · rw [List.splitOn_eq_singleton mem] at h ⊢
        simp [siftTail, h w]
  by_cases mem : SOH ∈ value
  · obtain ⟨v, w, rfl, noSoh⟩ := List.eq_append_cons_of_mem mem
    have split : (v ++ SOH :: w).splitOn SOH = v :: w.splitOn SOH := by
      rw [List.splitOn_append_cons_self, List.splitOn_eq_singleton noSoh, List.singleton_append]
    rw [split] at quiet
    rw [sift, split]
    dsimp only
    rw [tails w fun piece mem => keeps piece (quiet piece mem)]
  · exact sift_of_not_mem signOn mem

/-- **What masking leaves of a message the parser takes.** The length and all but the values stay;
the value of a secret is masked whole; another value stays too, but for what behind a separator in it
reads as a secret. -/
theorem mask_parsed (cap : N ≤ u16Max) (small : buf.length ≤ u32Size)
    (h : parseInto D N buf v = ⟨idx, .ok (.complete buf.length)⟩)
    (paired : ∀ e ∈ idx, Paired D e.tag) (quiet : NoDataInside buf idx) :
    (mask buf).1.length = buf.length ∧
    (∀ i, (∀ e ∈ idx, ¬ (e.offset ≤ i ∧ i < e.offset + e.len)) → (mask buf).1[i]? = buf[i]?) ∧
    (∀ e ∈ idx, ∀ value, slice buf e.offset e.len = some value →
      (isSecret (signOn buf) e.tag = true →
        slice (mask buf).1 e.offset e.len = some (List.replicate e.len MASK)) ∧
      (isSecret (signOn buf) e.tag = false →
        slice (mask buf).1 e.offset e.len = some (sift (signOn buf) value) ∧
        (SOH ∉ value → sift (signOn buf) value = value))) ∧
    ((∀ e ∈ idx, ∀ value, slice buf e.offset e.len = some value →
      isSecret (signOn buf) e.tag = false ∧ ∀ piece ∈ (value.splitOn SOH).tail, ∀ tag eq,
        tagIn piece = some (tag, eq) → isSecret (signOn buf) tag = false) →
      (mask buf).1 = buf) := by
  obtain ⟨m, rest, whole, rfl, total⟩ := parseInto_sound cap small h
  have only : buf = m.bytes := by
    rw [whole, List.length_append] at total
    have : rest = [] := List.length_eq_zero_iff.mp (by omega)
    rw [whole, this, List.append_nil]
  subst only
  have spelled (xs ys : List WireField) (f : WireField) (eq : m.fields = xs ++ f :: ys) :
      f.entry (spell xs).length ∈ entriesAt 0 m.fields ∧
        slice m.bytes (f.entry (spell xs).length).offset (f.entry (spell xs).length).len =
          some f.value := by
    constructor
    · rw [eq, entriesAt_append, Nat.zero_add]
      exact List.mem_append_right _ List.mem_cons_self
    · have := @slice_respell WireField.value (fun f => rfl) xs ys f
      rwa [← eq] at this
  have fields (f : WireField) (mem : f ∈ m.fields) : Paired D f.tag ∧ Quiet (signOn m.bytes) f := by
    obtain ⟨xs, ys, eq⟩ := List.append_of_mem mem
    obtain ⟨mem, value⟩ := spelled xs ys f eq
    exact ⟨paired _ mem, quiet _ mem _ value⟩
  have masks := mask_message m (fun f mem => (fields f mem).1) fun f mem => (fields f mem).2
  have same := veil_length (signOn m.bytes)
  rw [masks]
  refine ⟨respell_length same m.fields, fun i outside => ?_, fun e mem value at_ => ?_, fun none => ?_⟩
  · refine respell_agree same m.fields 0 i fun e mem => ?_
    rw [Nat.zero_add]
    exact outside e mem
  · obtain ⟨xs, f, ys, eq, rfl⟩ := mem_entriesAt mem
    rw [Nat.zero_add] at at_ ⊢
    have there := slice_respell same xs ys f
    rw [← eq] at there
    cases Option.some.inj ((spelled xs ys f eq).2.symm.trans at_)
    refine ⟨fun secret => ?_, fun plain => ⟨?_, sift_of_not_mem _⟩⟩
    · rw [there, veil_secret secret]
      rfl
    · rw [there, veil_plain plain]
  · refine respell_eq fun f mem => ?_
    obtain ⟨xs, ys, eq⟩ := List.append_of_mem mem
    obtain ⟨mem, value⟩ := spelled xs ys f eq
    obtain ⟨plain, quiet⟩ := none _ mem _ value
    rw [veil_plain plain]
    exact sift_of_quiet quiet

/-- A sign-on whose raw data holds a separator, with a password behind it. -/
def signOnBytes : Bytes :=
  ascii "8=FIX.4.4" ++ [SOH] ++ ascii "9=30" ++ [SOH] ++ ascii "35=A" ++ [SOH] ++ ascii "95=3" ++
    [SOH] ++ ascii "96=a" ++ [SOH] ++ ascii "b" ++ [SOH] ++ ascii "553=u" ++ [SOH] ++
    ascii "554=pw" ++ [SOH] ++ ascii "10=069" ++ [SOH]

/-- Both are masked. -/
theorem mask_parsed_signOn : slice (mask signOnBytes).1 28 3 = some [MASK, MASK, MASK] ∧
    slice (mask signOnBytes).1 42 2 = some [MASK, MASK] := by
  have parsed : parseInto fix44.toDictionary 64 signOnBytes .all =
      ⟨(parseInto fix44.toDictionary 64 signOnBytes .all).index,
        .ok (.complete signOnBytes.length)⟩ := by
    decide +kernel
  obtain ⟨-, -, fields, -⟩ := mask_parsed (by decide) (by decide +kernel) parsed
    (by decide +kernel) (by decide +kernel)
  constructor
  · exact (fields ⟨96, 28, 3⟩ (by decide +kernel) [0x61, SOH, 0x62] (by decide +kernel)).1
      (by decide +kernel)
  · exact (fields ⟨554, 42, 2⟩ (by decide +kernel) [0x70, 0x77] (by decide +kernel)).1
      (by decide +kernel)

/-- A heartbeat with a DATA value in which a separator and `554=y` stand. -/
def heldPassword : Bytes :=
  ascii "8=FIX.4.4" ++ [SOH] ++ ascii "9=23" ++ [SOH] ++ ascii "35=0" ++ [SOH] ++ ascii "354=7" ++
    [SOH] ++ ascii "355=x" ++ [SOH] ++ ascii "554=y" ++ [SOH] ++ ascii "10=140" ++ [SOH]

/-- The DATA value is no secret, and is not left as it was. -/
theorem mask_damages_data : ¬ ∀ buf idx,
    parseInto fix44.toDictionary 64 buf .all = ⟨idx, .ok (.complete buf.length)⟩ →
      ∀ e ∈ idx, isSecret (signOn buf) e.tag = false →
        slice (mask buf).1 e.offset e.len = slice buf e.offset e.len := by
  intro identical
  have parsed : parseInto fix44.toDictionary 64 heldPassword .all =
      ⟨(parseInto fix44.toDictionary 64 heldPassword .all).index,
        .ok (.complete heldPassword.length)⟩ := by
    decide +kernel
  have same := identical heldPassword _ parsed ⟨355, 30, 7⟩ (by decide +kernel) (by decide +kernel)
  exact absurd same (by decide +kernel)

end Fixbolt
