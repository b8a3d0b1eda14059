import Fixbolt.Codec.Framed
import Fixbolt.Engine.Framer

/-!
# The framer cuts where the parser does

* `accepted_shape`: what a buffer the parser takes a message from looks like;
* `Delimited`: a message as the framer sees one, and what `cut` says of its parts;
* `framing_agrees`: a stream of messages comes out as those messages, however it was cut into reads,
  and what is cut is what the parser takes;
* `framing_differs`: messages the two tell apart differently.
-/

namespace Fixbolt

/-! ### What the parser takes -/

section Shape

variable {D : Dictionary} {K : ℕ} {buf : Bytes}

/-- The trailer is where `9=` says. -/
theorem parseFields_trailer {trailerAt fuel pos c : ℕ} {idx : List FieldEntry}
    (h : (parseFields D K buf .all trailerAt fuel pos idx).outcome = .ok (.complete c)) :
    ∃ valStart soh, readTag buf trailerAt = .ok (some (10, valStart)) ∧
      findSoh buf valStart = some soh ∧ c = soh + 1 := by
  induction fuel generalizing pos idx with
  | zero => cases h
  | succ fuel ih =>
    rw [parseFields] at h
    split at h
    · cases h
    · split at h
      · cases h
      · cases h
      · rename_i tag valStart read
        split at h
        · rename_i isTrailer
          subst isTrailer
          unfold parseTrailer at h
          split at h
          · cases h
          · rename_i soh found
            split at h
            · cases h
            · by_cases there : pos = trailerAt
              · subst there
                refine ⟨valStart, soh, read, found, ?_⟩
                simp only [Validation.all, bne_self_eq_false, Bool.and_false, Bool.false_eq_true,
                  if_false, if_true] at h
                split at h
                · cases h
                · split at h
                  · cases h
                  · split at h
                    · cases h
                    · cases h
                      rfl
              · have other : (pos != trailerAt) = true := by simpa using there
                simp [Validation.all, other] at h
        · split at h
          · rename_i stop stopped
            obtain rfl : stop = .ok (.complete c) := h
            exact absurd stopped valueLength_ne_complete
          · split at h
            · cases h
            · exact ih h

/-- What a buffer looks like from whose front the parser takes a message. -/
theorem accepted_shape {c : ℕ} (h : (parseInto D K buf .all).outcome = .ok (.complete c)) :
    ∃ begin_ digits rest declared text value more,
      buf = [0x38, EQ] ++ begin_ ++ SOH :: ([0x39, EQ] ++ digits ++ SOH :: rest) ∧
      SOH ∉ begin_ ∧ SOH ∉ digits ∧ asU32? digits = some declared ∧
      rest.drop declared = text ++ EQ :: (value ++ SOH :: more) ∧ asU32? text = some 10 ∧
      SOH ∉ value ∧ c + more.length = buf.length := by
  unfold parseInto at h
  split at h
  · rename_i stop stopped
    obtain rfl : stop = .ok (.complete c) := h
    exact absurd stopped expectFrameTag_ne_complete
  rename_i first
  split at h
  · cases h
  rename_i soh₁ found₁
  split at h
  · cases h
  unfold parseBody at h
  split at h
  · rename_i stop stopped
    obtain rfl : stop = .ok (.complete c) := h
    exact absurd stopped expectFrameTag_ne_complete
  rename_i second
  dsimp only at h
  split at h
  · cases h
  rename_i soh₂ found₂
  split at h
  · cases h
  rename_i declared stated
  split at h
  · cases h
  obtain ⟨valStart, soh, read, found, rfl⟩ := parseFields_trailer h
  obtain ⟨rest₀, front⟩ := expectFrameTag_eq_none_iff.mp first
  obtain ⟨begin_, rest₁, eq₁, none₁, rfl⟩ := findSoh_eq_some_iff.mp found₁
  obtain ⟨rest₂, tag⟩ := expectFrameTag_eq_none_iff.mp second
  obtain ⟨digits, rest, eq₂, none₂, rfl⟩ := findSoh_eq_some_iff.mp found₂
  obtain ⟨text, behind, at_, reads, -, rfl⟩ := readTag_eq_some_iff.mp read
  obtain ⟨value, more, eq, none, rfl⟩ := findSoh_eq_some_iff.mp found
  rw [Nat.add_sub_cancel_left, eq₂, List.take_left' rfl] at stated
  have start : rest₀ = begin_ ++ SOH :: rest₁ := by
    have := drop_of_drop front
    rwa [Nat.zero_add, show [(0x38 : UInt8), EQ].length = 2 from rfl, eq₁, eq_comm] at this
  have stated_ : rest₁ = [0x39, EQ] ++ rest₂ := by
    have := drop_of_drop (show buf.drop 2 = (begin_ ++ [SOH]) ++ rest₁ by simpa using eq₁)
    rw [List.length_append, List.length_singleton, ← Nat.add_assoc, tag] at this
    exact this.symm
  have digits_ : rest₂ = digits ++ SOH :: rest := by
    have := drop_of_drop tag
    rwa [show 2 + begin_.length + 1 + [(0x39 : UInt8), EQ].length = 2 + begin_.length + 3 from rfl,
      eq₂, eq_comm] at this
  have body : buf.drop (2 + begin_.length + 3 + digits.length + 1) = rest := by
    have := drop_of_drop (show buf.drop (2 + begin_.length + 3) = (digits ++ [SOH]) ++ rest by
      simpa using eq₂)
    rwa [List.length_append, List.length_singleton, ← Nat.add_assoc] at this
  have trailer : behind = value ++ SOH :: more := by
    have := drop_of_drop (show buf.drop (2 + begin_.length + 3 + digits.length + 1 + declared) =
      (text ++ [EQ]) ++ behind by simpa using at_)
    rw [List.length_append, List.length_singleton, ← Nat.add_assoc, eq] at this
    exact this.symm
  refine ⟨begin_, digits, rest, declared, text, value, more, ?_, none₁, none₂, stated, ?_, reads,
    none, ?_⟩
  · rw [← List.drop_zero (l := buf), front, start, stated_, digits_]
    simp
  · rw [← body, List.drop_drop, at_, trailer]
  · have := congrArg List.length eq
    rw [List.length_drop, List.length_append, List.length_cons] at this
    omega

end Shape

/-! ### What the framer looks for -/

theorem findSub_some {needle buf : Bytes} {i : ℕ} (h : findSub needle buf = some i) :
    needle <+: buf.drop i := by
  induction buf generalizing i with
  | nil => cases h
  | cons b buf ih =>
    rw [findSub] at h
    split at h
    · rename_i here
      cases h
      exact List.isPrefixOf_iff_prefix.mp here
    · obtain ⟨j, found, rfl⟩ := Option.map_eq_some_iff.mp h
      exact ih found

/-- The needle of the framer begins with a separator. -/
def needle : Bytes := SOH :: ascii "9="

theorem needle_soh {buf : Bytes} {i : ℕ} (h : needle <+: buf.drop i) : buf[i]? = some SOH := by
  obtain ⟨rest, eq⟩ := h
  have := congrArg (·[0]?) eq
  rw [List.getElem?_drop, Nat.add_zero] at this
  exact this.symm

/-- The first `9=` behind a separator is behind the first separator, when it is there. -/
theorem findSub_first {xs rest : Bytes} (none : SOH ∉ xs) :
    findSub needle (xs ++ needle ++ rest) = some xs.length := by
  induction xs with
  | nil => rfl
  | cons b xs ih =>
    obtain ⟨other, none⟩ := not_or.mp (fun h => none (List.mem_cons.mpr h))
    have skip : needle.isPrefixOf (b :: (xs ++ needle ++ rest)) = false := by
      show ((SOH == b) && _) = false
      rw [beq_false_of_ne other, Bool.false_and]
    show findSub needle (b :: (xs ++ needle ++ rest)) = some (xs.length + 1)
    rw [findSub, if_neg (by rw [skip]; decide), ih none]
    rfl

theorem findSub_short {xs rest buf : Bytes} (none : SOH ∉ xs) (front : buf <+: xs ++ needle ++ rest)
    (short : buf.length < xs.length + 3) : findSub needle buf = Option.none := by
  cases found : findSub needle buf with
  | none => rfl
  | some i =>
    have here := findSub_some found
    have room : 3 ≤ (buf.drop i).length := here.length_le
    rw [List.length_drop] at room
    have soh := needle_soh here
    obtain ⟨tail, whole⟩ := front
    have same : (buf ++ tail)[i]? = buf[i]? := List.getElem?_append_left (by omega)
    rw [← same, whole, List.append_assoc, List.getElem?_append_left (by omega)] at soh
    exact absurd (List.mem_of_getElem? soh) none

theorem findIdx_soh {xs rest : Bytes} (none : SOH ∉ xs) :
    (xs ++ SOH :: rest).findIdx? (· == SOH) = some xs.length := by
  have := findSoh_eq_some_iff.mpr ⟨xs, rest, List.drop_zero, none, rfl⟩
  rw [findSoh, Nat.zero_add] at this
  simpa using this

theorem findIdx_none {xs : Bytes} (none : SOH ∉ xs) : xs.findIdx? (· == SOH) = Option.none := by
  rw [List.findIdx?_eq_none_iff]
  intro b mem
  have : b ≠ SOH := fun h => none (h ▸ mem)
  simpa using this

/-- What the framer reads as a length is what the parser reads. -/
theorem number_eq {text : Bytes} {k : ℕ} (h : asU32? text = some k) (short : text.length ≤ 9) :
    Framer.number text = some k := by
  obtain ⟨some_, reads⟩ := asU32?_eq_some_iff.mp h
  rw [Framer.number, if_neg (by simpa [some_] using short)]
  suffices ∀ n, asU32Loop text (some n) = .ok k →
      text.foldlM (fun n b => (digitOf b).map fun d => n * 10 + d) n = some k from this 0 reads
  clear h some_ reads short
  induction text with
  | nil =>
    intro n reads
    cases reads
    rfl
  | cons b text ih =>
    intro n reads
    obtain ⟨d, n', digit, fits, reads⟩ := asU32Loop_cons_ok.mp reads
    obtain rfl : n * 10 + d = n' := by
      unfold checkedU32 at fits
      split at fits
      · exact Option.some.inj fits
      · cases fits
    rw [List.foldlM_cons, digit]
    exact ih _ reads

theorem asU32_of_number {text : Bytes} {k : ℕ} (h : Framer.number text = some k) :
    asU32? text = some k := by
  unfold Framer.number at h
  split at h
  · cases h
  rename_i shape
  obtain ⟨some_, short⟩ := not_or.mp shape
  refine asU32?_eq_some_iff.mpr ⟨by simpa using some_, ?_⟩
  -- No digit takes the number past ten to the digits read so far.
  suffices ∀ a n, n < 10 ^ a → a + text.length ≤ 9 →
      text.foldlM (fun n b => (digitOf b).map fun d => n * 10 + d) n = some k →
      asU32Loop text (some n) = .ok k from this 0 0 (by decide) (by omega) h
  clear h some_ short shape
  induction text with
  | nil =>
    intro a n _ _ reads
    cases reads
    rfl
  | cons b text ih =>
    intro a n below short reads
    rw [List.foldlM_cons] at reads
    cases digit : digitOf b with
    | none =>
      rw [digit] at reads
      cases reads
    | some d =>
      rw [digit] at reads
      have small : d ≤ 9 := by
        unfold digitOf at digit
        split at digit
        · rename_i small
          cases digit
          exact small
        · cases digit
      rw [List.length_cons] at short
      have next : n * 10 + d < 10 ^ (a + 1) := by
        rw [pow_succ]
        omega
      have most : 10 ^ (a + 1) ≤ 10 ^ 9 := Nat.pow_le_pow_right (by decide) (by omega)
      refine asU32Loop_cons_ok.mpr ⟨d, n * 10 + d, digit, ?_, ih (a + 1) _ next (by omega) reads⟩
      unfold checkedU32 u32Size
      rw [if_pos (by omega)]

/-! ### What is cut -/

/-- A message as the framer sees one. -/
structure Delimits (m front digits body sum : Bytes) : Prop where
  eq : m = front ++ needle ++ (digits ++ SOH :: (body ++ (ascii "10=" ++ (sum ++ [SOH]))))
  clear_front : SOH ∉ front
  clear_digits : SOH ∉ digits
  clear_sum : SOH ∉ sum
  declared : Framer.number digits = some body.length

section Cut

variable {n k : ℕ} {f : Framer n} {front digits rest : Bytes}

/-- Where the trailer of a buffer should be. -/
def stopOf (front digits : Bytes) (k : ℕ) : ℕ := front.length + 3 + digits.length + 1 + k

/-- What is cut from a buffer that goes beyond the value of its `9=`. -/
theorem cut_behind (eq : f.buf = front ++ needle ++ (digits ++ SOH :: rest)) (none : SOH ∉ front)
    (none' : SOH ∉ digits) (length : Framer.number digits = some k) :
    f.cut =
      if f.buf.length < stopOf front digits k + 4 then
        if n < stopOf front digits k + 4 then .garbage f.buf.length else .need
      else if (rest.drop k).take 3 ≠ ascii "10=" then .garbage f.buf.length
      else match (rest.drop (k + 3)).findIdx? (· == SOH) with
        | some j => .message (stopOf front digits k + 3 + j + 1)
        | Option.none => if f.buf.length = n then .garbage f.buf.length else .need := by
  have found : findSub (SOH :: ascii "9=") f.buf = some front.length := by
    rw [eq]
    exact findSub_first none
  have behind : f.buf.drop (front.length + 3) = digits ++ SOH :: rest := by
    rw [eq, List.drop_left' (by simp [needle, ascii])]
  have end_ : (digits ++ SOH :: rest).findIdx? (· == SOH) = some digits.length := findIdx_soh none'
  have drop (i : ℕ) : f.buf.drop (front.length + 3 + digits.length + 1 + i) = rest.drop i := by
    rw [← List.drop_drop, ← List.drop_drop, ← List.drop_drop, behind, List.drop_left' rfl]
    rfl
  have some_ : f.buf.length ≠ 0 := by
    rw [eq]
    simp
  unfold Framer.cut
  dsimp only
  rw [if_neg some_, found]
  dsimp only
  rw [behind, end_]
  dsimp only
  rw [List.take_left' rfl, length]
  dsimp only
  rw [drop k, Nat.add_assoc _ k 3, drop (k + 3)]
  rfl

variable {m body sum more : Bytes}

theorem Delimits.length (h : Delimits m front digits body sum) :
    m.length = stopOf front digits body.length + 3 + sum.length + 1 := by
  rw [h.eq, stopOf]
  simp [needle, ascii]
  omega

/-- A message at the front of a buffer is cut off it. -/
theorem cut_whole (h : Delimits m front digits body sum) (eq : f.buf = m ++ more) :
    f.cut = .message m.length := by
  have shape : f.buf =
      front ++ needle ++ (digits ++ SOH :: (body ++ (ascii "10=" ++ (sum ++ SOH :: more)))) := by
    rw [eq, h.eq]
    simp
  have long : stopOf front digits body.length + 4 ≤ f.buf.length := by
    rw [eq, List.length_append, h.length]
    omega
  have trailer : (body ++ (ascii "10=" ++ (sum ++ SOH :: more))).drop (body.length + 3) =
      sum ++ SOH :: more := by
    rw [← List.drop_drop, List.drop_left' rfl, List.drop_left' (by rfl)]
  rw [cut_behind shape h.clear_front h.clear_digits h.declared, if_neg (Nat.not_lt.mpr long),
    List.drop_left' rfl, List.take_left' (by rfl), if_neg (by simp), trailer,
    findIdx_soh h.clear_sum, h.length]

/-- A list and what it is a prefix of, beyond what they have in common. -/
theorem behind_of_prefix {α : Type*} {xs ys b : List α} (part : b <+: xs ++ ys)
    (long : xs.length ≤ b.length) : ∃ b', b = xs ++ b' ∧ b' <+: ys := by
  obtain ⟨b', rfl⟩ := List.prefix_of_prefix_length_le (List.prefix_append xs ys) part long
  exact ⟨b', rfl, (List.prefix_append_right_inj xs).mp part⟩

/-- A proper part of what ends in a separator has none, if that is the only one. -/
theorem clear_of_part {xs ys b : Bytes} (none : SOH ∉ xs) (part : b <+: xs ++ SOH :: ys)
    (short : b.length ≤ xs.length) : SOH ∉ b := by
  have within : b <+: xs := List.prefix_of_prefix_length_le part (List.prefix_append xs _) short
  exact fun mem => none (within.subset mem)

/-- Of a buffer in which the value of `9=` has not ended nothing is cut, unless it is full. -/
theorem cut_unended (room : f.buf.length ≠ n) (none : SOH ∉ front)
    (part : f.buf <+: front ++ needle ++ digits) (none' : SOH ∉ digits) : f.cut = .need := by
  unfold Framer.cut
  by_cases empty : f.buf.length = 0
  · rw [if_pos empty]
  · rw [if_neg empty]
    by_cases beyond : (front ++ needle).length ≤ f.buf.length
    · obtain ⟨b, eq, within⟩ := behind_of_prefix part beyond
      have found : findSub (SOH :: ascii "9=") f.buf = some front.length := by
        rw [eq]
        exact findSub_first none
      have behind : f.buf.drop (front.length + 3) = b := by
        rw [eq, List.drop_left' (by simp [needle, ascii])]
      have clear : SOH ∉ b := fun mem => none' (within.subset mem)
      simp only [found, behind, findIdx_none clear]
      exact if_neg room
    · have found : findSub (SOH :: ascii "9=") f.buf = Option.none :=
        findSub_short none part (by simpa [needle, ascii] using beyond)
      simp only [found]
      exact if_neg room

/-- Of a part of a message that fits the buffer nothing is cut. -/
theorem cut_part (h : Delimits m front digits body sum) (fits : m.length ≤ n)
    (part : f.buf <+: m) (proper : f.buf.length < m.length) : f.cut = .need := by
  have room : f.buf.length ≠ n := by omega
  have total := h.length
  have split : m = (front ++ needle ++ digits) ++ SOH :: (body ++ (ascii "10=" ++ (sum ++ [SOH]))) := by
    rw [h.eq]
    simp
  rw [split] at part
  by_cases ended : (front ++ needle ++ digits).length < f.buf.length
  · rw [← List.singleton_append, ← List.append_assoc] at part
    have ended' : (front ++ needle ++ digits ++ [SOH]).length ≤ f.buf.length := by
      rw [List.length_append]
      exact ended
    obtain ⟨b₁, eq, part₁⟩ := behind_of_prefix part ended'
    have count : f.buf.length = stopOf front digits 0 + b₁.length := by
      rw [eq, stopOf]
      simp [needle, ascii]
      omega
    have past : stopOf front digits body.length = stopOf front digits 0 + body.length := rfl
    rw [cut_behind (by simpa using eq) h.clear_front h.clear_digits h.declared]
    split
    · rw [if_neg (by omega)]
    · rename_i long
      -- The trailer has begun, and the separator behind it is the last byte of the message.
      have three : (ascii "10=").length = 3 := rfl
      obtain ⟨b₂, rfl, part₂⟩ := behind_of_prefix part₁ (by omega)
      rw [List.length_append] at count
      obtain ⟨b₃, rfl, part₃⟩ := behind_of_prefix part₂ (by omega)
      rw [List.length_append, three] at count
      have clear : SOH ∉ b₃ := clear_of_part h.clear_sum part₃ (by omega)
      rw [List.drop_left' rfl, List.take_left' three, if_neg (by simp), ← List.drop_drop,
        List.drop_left' rfl, List.drop_left' three, findIdx_none clear]
  · refine cut_unended room h.clear_front ?_ h.clear_digits
    exact List.prefix_of_prefix_length_le part (List.prefix_append _ _) (Nat.le_of_not_lt ended)

end Cut

/-! ### Framer and parser -/

/-- What comes before the first separator is the same, and what comes behind it. -/
theorem split_first {xs ys a b : Bytes} (none : SOH ∉ xs) (none' : SOH ∉ ys)
    (eq : xs ++ SOH :: a = ys ++ SOH :: b) : xs = ys ∧ a = b := by
  have same : some xs.length = some ys.length := by
    rw [← @findIdx_soh _ a none, eq, findIdx_soh none']
  obtain ⟨rfl, tails⟩ := List.append_inj eq (Option.some.inj same)
  exact ⟨rfl, (List.cons.inj tails).2⟩

/-- Does the parser take the message whole, with all its checks? -/
def Accepted (D : Dictionary) (K : ℕ) (m : Bytes) : Prop :=
  (parseInto D K m .all).outcome = .ok (.complete m.length)

/-- A message whose `9=` has at most nine digits, and a trailer that begins with `10=` where they
say it does. -/
def Plain (m : Bytes) : Prop :=
  ∃ front digits rest k, m = front ++ needle ++ (digits ++ SOH :: rest) ∧ SOH ∉ front ∧
    SOH ∉ digits ∧ digits.length ≤ 9 ∧ asU32? digits = some k ∧ ascii "10=" <+: rest.drop k

section Agree

variable {D : Dictionary} {K n : ℕ} {m : Bytes} {f : Framer n}

/-- The frame the parser sees, as the framer sees it. -/
theorem shape_eq {begin_ digits rest : Bytes} :
    [0x38, EQ] ++ begin_ ++ SOH :: ([0x39, EQ] ++ digits ++ SOH :: rest) =
      ([0x38, EQ] ++ begin_) ++ needle ++ (digits ++ SOH :: rest) := by
  simp [needle, ascii, EQ]

theorem clear_begin {begin_ : Bytes} (none : SOH ∉ begin_) : SOH ∉ [0x38, EQ] ++ begin_ := by
  intro mem
  rcases List.mem_append.mp mem with front | behind
  · revert front
    decide
  · exact none behind

/-- The trailer the parser read has one separator, its last byte. -/
theorem clear_trailer {text value : Bytes} {tag : ℕ} (reads : asU32? text = some tag)
    (none : SOH ∉ value) : SOH ∉ text ++ EQ :: value := by
  intro mem
  rcases List.mem_append.mp mem with front | behind
  · exact text_digits reads SOH front rfl
  · rcases List.mem_cons.mp behind with eq | behind
    · cases eq
    · exact none behind

theorem needle_append (front rest : Bytes) :
    front ++ needle ++ rest = front ++ SOH :: (ascii "9=" ++ rest) := by
  simp [needle]

theorem delimits_of_accepted (taken : Accepted D K m) (plain : Plain m) :
    ∃ front digits body sum, Delimits m front digits body sum := by
  obtain ⟨begin_, digits, rest, declared, text, value, more, eq, none₁, none₂, stated, at_, reads,
    none, total⟩ := accepted_shape taken
  obtain ⟨front, digits', rest', k, eq', none₁', none₂', short, stated', ten⟩ := plain
  rw [shape_eq] at eq
  have same := eq.symm.trans eq'
  rw [needle_append, needle_append] at same
  obtain ⟨rfl, behind⟩ := split_first (clear_begin none₁) none₁' same
  obtain ⟨rfl, rfl⟩ := split_first none₂ none₂' (List.append_cancel_left behind)
  obtain rfl : declared = k := Option.some.inj (stated.symm.trans stated')
  obtain rfl : more = [] := List.length_eq_zero_iff.mp (by omega)
  have clear := clear_trailer reads none
  have at_' : rest.drop declared = (text ++ EQ :: value) ++ [SOH] := by simpa using at_
  -- The trailer's one separator is its last byte, so it is behind the `10=`.
  have within : ascii "10=" <+: text ++ EQ :: value := by
    rw [at_'] at ten
    refine List.prefix_of_prefix_length_le ten (List.prefix_append _ _) ?_
    by_contra long
    have all : ascii "10=" = (text ++ EQ :: value) ++ [SOH] := by
      refine ten.eq_of_length_le ?_
      rw [List.length_append, List.length_singleton]
      omega
    have last := congrArg List.getLast? all
    rw [List.getLast?_concat] at last
    revert last
    decide
  obtain ⟨sum, whole⟩ := within
  have past : rest.length = declared + (ascii "10=" ++ (sum ++ [SOH])).length := by
    have := congrArg List.length at_'
    rw [← whole, List.length_drop] at this
    simp only [List.length_append, List.length_singleton] at this ⊢
    omega
  refine ⟨_, digits, rest.take declared, sum, eq.trans ?_, clear_begin none₁, none₂, ?_, ?_⟩
  · rw [← List.append_assoc (ascii "10="), whole, ← at_', List.take_append_drop]
  · intro mem
    exact clear (whole ▸ List.mem_append_right _ mem)
  · rw [List.length_take, Nat.min_eq_left (by omega)]
    exact number_eq stated short

/-- What the loop takes from a buffer in front of `more`, and what it leaves. -/
theorem loop_stream {ms : List Bytes} {more : Bytes} {fuel : ℕ}
    (whole : ∀ m ∈ ms, m.length ≤ n ∧ ∃ front digits body sum, Delimits m front digits body sum)
    (stream : f.buf ++ more = ms.flatten) (enough : f.buf.length < fuel) :
    ∃ done rest, ms = done ++ rest ∧ (Framer.loop fuel f).1 = done.map .message ∧
      (Framer.loop fuel f).2.buf ++ more = rest.flatten ∧
      ∀ m ∈ rest.head?, (Framer.loop fuel f).2.buf.length < m.length := by
  induction ms generalizing f fuel with
  | nil =>
    obtain ⟨empty, -⟩ := List.append_eq_nil_iff.mp stream
    have need : f.cut = .need := by
      unfold Framer.cut
      rw [empty]
      rfl
    obtain ⟨fuel, rfl⟩ : ∃ k, fuel = k + 1 := ⟨fuel - 1, by omega⟩
    refine ⟨[], [], rfl, ?_, ?_, by rintro m ⟨⟩⟩ <;> simp only [Framer.loop, need]
    · rfl
    · exact stream
  | cons m ms ih =>
    obtain ⟨⟨fits, front, digits, body, sum, shape⟩, others⟩ := List.forall_mem_cons.mp whole
    obtain ⟨fuel, rfl⟩ : ∃ k, fuel = k + 1 := ⟨fuel - 1, by omega⟩
    rw [List.flatten_cons] at stream
    by_cases long : m.length ≤ f.buf.length
    · obtain ⟨b, eq, -⟩ := behind_of_prefix (stream ▸ List.prefix_append f.buf more) long
      have positive : 0 < m.length := by
        rw [shape.length]
        omega
      have behind : (f.take m.length).buf = b := by
        show f.buf.drop m.length = b
        rw [eq, List.drop_left' rfl]
      have shorter : (f.take m.length).buf.length < fuel := by
        rw [behind]
        rw [eq, List.length_append] at enough
        omega
      obtain ⟨done, rest, rfl, frames, left, short⟩ :=
        @ih (f.take m.length) fuel others (by
          rw [eq, List.append_assoc] at stream
          rw [behind]
          exact List.append_cancel_left stream) shorter
      have taken : f.bytes m.length = m := by rw [Framer.bytes, eq, List.take_left' rfl]
      refine ⟨m :: done, rest, rfl, ?_, ?_, ?_⟩ <;> simp only [Framer.loop, cut_whole shape eq]
      · rw [taken, frames, List.map_cons]
      · exact left
      · exact short
    · have part : f.buf <+: m := by
        refine List.prefix_of_prefix_length_le ?_ (List.prefix_append m ms.flatten)
          (Nat.le_of_not_le long)
        exact stream ▸ List.prefix_append f.buf more
      have need := cut_part shape fits part (Nat.lt_of_not_le long)
      refine ⟨[], m :: ms, rfl, ?_, ?_, ?_⟩ <;> simp only [Framer.loop, need]
      · rfl
      · exact stream
      · rintro m' ⟨⟩
        exact Nat.lt_of_not_le long

/-- What reads of a stream hand over. -/
theorem reads_stream {ms chunks : List Bytes} {r : List Frame × Framer n}
    (whole : ∀ m ∈ ms, m.length ≤ n ∧ ∃ front digits body sum, Delimits m front digits body sum)
    (stream : f.buf ++ chunks.flatten = ms.flatten)
    (short : ∀ m ∈ ms.head?, f.buf.length < m.length) (within : f.reads chunks = some r) :
    r.1 = ms.map .message ∧ r.2.buf = [] := by
  induction chunks generalizing f ms r with
  | nil =>
    cases within
    rw [List.flatten_nil, List.append_nil] at stream
    cases ms with
    | nil => exact ⟨rfl, stream⟩
    | cons m ms =>
      have := short m rfl
      rw [stream, List.flatten_cons, List.length_append] at this
      omega
  | cons chunk chunks ih =>
    rw [Framer.reads] at within
    split at within
    · cases within
    rename_i room
    cases looped : Framer.loop (n + 1) (f.filled chunk) with
    | mk handed f' =>
    rw [looped] at within
    obtain ⟨r', rest_, rfl⟩ := Option.map_eq_some_iff.mp within
    have filled : (f.filled chunk).buf = f.buf ++ chunk := by
      refine List.take_of_length_le ?_
      have := f.within
      unfold Framer.spare at room
      rw [List.length_append]
      omega
    obtain ⟨done, rest, rfl, frames, left, short'⟩ :=
      @loop_stream _ (f.filled chunk) _ chunks.flatten (n + 1) whole (by
        rw [filled, List.append_assoc, ← List.flatten_cons, stream])
        (Nat.lt_succ_of_le (f.filled chunk).within)
    rw [looped] at frames left short'
    obtain ⟨all, empty⟩ := ih (fun m mem => whole m (List.mem_append_right _ mem)) left short' rest_
    refine ⟨?_, empty⟩
    show handed ++ r'.1 = _
    rw [show handed = _ from frames, all, List.map_append]

theorem findIdx_some {xs : Bytes} {j : ℕ} (h : xs.findIdx? (· == SOH) = some j) :
    ∃ ys rest, xs = ys ++ SOH :: rest ∧ SOH ∉ ys ∧ j = ys.length := by
  have found : findSoh xs 0 = some j := by rw [findSoh, List.drop_zero, h]; rfl
  obtain ⟨ys, rest, eq, none, at_⟩ := findSoh_eq_some_iff.mp found
  exact ⟨ys, rest, by simpa using eq, none, by simpa using at_⟩

/-- Where a message is cut. -/
theorem cut_message {k : ℕ} (h : f.cut = .message k) :
    ∃ at_ end_ len sum tail, findSub needle f.buf = some at_ ∧
      (f.buf.drop (at_ + 3)).findIdx? (· == SOH) = some end_ ∧
      Framer.number ((f.buf.drop (at_ + 3)).take end_) = some len ∧
      f.buf.drop (at_ + 3 + end_ + 1 + len) = ascii "10=" ++ (sum ++ SOH :: tail) ∧ SOH ∉ sum ∧
      k = at_ + 3 + end_ + 1 + len + 3 + sum.length + 1 := by
  unfold Framer.cut at h
  dsimp only at h
  split at h
  · cases h
  split at h
  · split at h <;> cases h
  rename_i at_ found
  split at h
  · split at h <;> cases h
  rename_i end_ ended
  split at h
  · cases h
  rename_i len declared
  split at h
  · split at h <;> cases h
  split at h
  · cases h
  rename_i ten
  split at h
  · rename_i j last
    cases h
    obtain ⟨sum, tail, eq, none, rfl⟩ := findIdx_some last
    refine ⟨at_, end_, len, sum, tail, found, ended, declared, ?_, none, rfl⟩
    rw [← List.take_append_drop 3 (f.buf.drop _), List.drop_drop, eq, not_not.mp ten]
  · split at h <;> cases h

/-- What is cut is there. -/
theorem cut_within {k : ℕ} (h : f.cut = .message k ∨ f.cut = .garbage k) :
    0 < k ∧ k ≤ f.buf.length := by
  rcases h with h | h
  · obtain ⟨at_, end_, len, sum, tail, -, -, -, eq, -, rfl⟩ := cut_message h
    have := congrArg List.length eq
    rw [List.length_drop, List.length_append, List.length_append, List.length_cons,
      show (ascii "10=").length = 3 from rfl] at this
    omega
  · unfold Framer.cut at h
    dsimp only at h
    split at h
    · cases h
    · rename_i some_
      have all : k = f.buf.length := by
        repeat' split at h
        all_goals first | (cases h; rfl) | cases h
      omega

/-- What is cut off as a message, and the parser takes, it takes whole. -/
theorem cut_accepted {k c : ℕ} (h : f.cut = .message k)
    (taken : (parseInto D K (f.bytes k) .all).outcome = .ok (.complete c)) : c = k := by
  have within := (cut_within (.inl h)).2
  obtain ⟨at_, end_, len, sum, tail, found, ended, declared, eq, none, last⟩ := cut_message h
  obtain ⟨begin_, digits, rest, k', text, value, more, shape, none₁, none₂, stated, trailer, reads,
    none₃, total⟩ := accepted_shape taken
  rw [shape_eq] at shape
  have whole : f.buf = [0x38, EQ] ++ begin_ ++ needle ++ (digits ++ SOH :: (rest ++ f.buf.drop k)) := by
    conv_lhs => rw [← List.take_append_drop k f.buf]
    rw [show f.buf.take k = f.bytes k from rfl, shape]
    simp
  -- Both read the same length in front of the same bytes.
  obtain rfl : at_ = ([0x38, EQ] ++ begin_).length := by
    rw [whole, findSub_first (clear_begin none₁)] at found
    exact (Option.some.inj found).symm
  have behind : f.buf.drop (([0x38, EQ] ++ begin_).length + 3) =
      digits ++ SOH :: (rest ++ f.buf.drop k) := by
    conv_lhs => rw [whole]
    rw [List.drop_left' (by simp [needle, ascii])]
  obtain rfl : end_ = digits.length := by
    rw [behind, findIdx_soh none₂] at ended
    exact (Option.some.inj ended).symm
  obtain rfl : len = k' := by
    rw [behind, List.take_left' rfl] at declared
    exact Option.some.inj ((asU32_of_number declared).symm.trans stated)
  -- What is left of the message is its trailer, and the parser's trailer ends where that does.
  have left : rest.drop len = ascii "10=" ++ sum ++ SOH :: [] := by
    have cut : (f.bytes k).drop (([0x38, EQ] ++ begin_).length + 3 + digits.length + 1 + len) =
        rest.drop len := by
      rw [shape, ← List.drop_drop, ← List.drop_drop, ← List.drop_drop,
        List.drop_left' (by simp [needle, ascii]), List.drop_left' rfl]
      rfl
    rw [← cut, Framer.bytes, List.drop_take, eq, last]
    have long : (ascii "10=" ++ sum ++ [SOH]).length = 3 + sum.length + 1 := by
      simp [ascii]
      omega
    rw [show ascii "10=" ++ (sum ++ SOH :: tail) = (ascii "10=" ++ sum ++ [SOH]) ++ tail by simp,
      List.take_left' (by omega)]
  have clear : SOH ∉ ascii "10=" ++ sum := by
    intro mem
    rcases List.mem_append.mp mem with front | behind
    · revert front
      decide
    · exact none behind
  obtain ⟨-, rfl⟩ := split_first (clear_trailer reads none₃) clear
    (show text ++ EQ :: value ++ SOH :: more = _ by rw [← left, trailer]; simp)
  rw [List.length_nil, Framer.bytes, List.length_take, Nat.min_eq_left within] at total
  exact total

/-- A full buffer of some size is settled. -/
theorem cut_full (positive : 0 < n) (h : f.cut = .need) : f.buf.length < n := by
  have within := f.within
  by_contra full
  have all : f.buf.length = n := by omega
  unfold Framer.cut at h
  dsimp only at h
  rw [if_neg (by omega), if_pos all] at h
  repeat' split at h
  all_goals first | omega | cases h

end Agree

/-- **The framer cuts where the parser does.** A stream of messages that the parser takes, whose `9=`
has at most nine digits and whose trailer begins with `10=`, comes out as those messages, however it
was cut into reads; what is cut is there, a full buffer is settled, and what is cut as a message and
parsed is parsed whole. -/
theorem framing_agrees (D : Dictionary) (K n : ℕ) :
    (∀ (ms chunks : List Bytes) (r : List Frame × Framer n),
      (∀ m ∈ ms, Accepted D K m ∧ Plain m ∧ m.length ≤ n) → chunks.flatten = ms.flatten →
        (Framer.new n).reads chunks = some r → r.1 = ms.map .message ∧ r.2.buf = []) ∧
      ∀ f : Framer n,
        (∀ k, f.cut = .message k ∨ f.cut = .garbage k → 0 < k ∧ k ≤ f.buf.length) ∧
        (0 < n → f.cut = .need → f.buf.length < n) ∧
        ∀ k c, f.cut = .message k →
          (parseInto D K (f.bytes k) .all).outcome = .ok (.complete c) → c = k := by
  refine ⟨fun ms chunks r whole stream within => ?_,
    fun f => ⟨fun k => cut_within, cut_full, fun k c => cut_accepted⟩⟩
  have delimited : ∀ m ∈ ms, m.length ≤ n ∧ ∃ front digits body sum,
      Delimits m front digits body sum := by
    intro m mem
    obtain ⟨taken, plain, fits⟩ := whole m mem
    exact ⟨fits, delimits_of_accepted taken plain⟩
  refine reads_stream delimited (show (Framer.new n).buf ++ chunks.flatten = _ from stream)
    (fun m mem => ?_) within
  obtain ⟨-, front, digits, body, sum, shape⟩ := delimited m (List.mem_of_head? mem)
  rw [shape.length]
  exact Nat.succ_pos _

/-- A Heartbeat whose length and whose trailer's tag are written like this. -/
def heartbeat (digits tag : Bytes) : Bytes :=
  let front := encodeField 8 (ascii "F") ++ encodeField 9 digits ++ encodeField 35 (ascii "0")
  front ++ (tag ++ EQ :: (formatChecksum (checksum front) ++ [SOH]))

/-- Two messages in three reads. -/
theorem framing_agrees_twice :
    let m := heartbeat (ascii "5") (ascii "10")
    let chunks := [(m ++ m).take 7, ((m ++ m).drop 7).take 20, (m ++ m).drop 27]
    ∃ r, (Framer.new 32).reads chunks = some r ∧ r.1 = [.message m, .message m] ∧ r.2.buf = [] := by
  intro m chunks
  have within : ((Framer.new 32).reads chunks).isSome := by decide +kernel
  refine ⟨_, (Option.some_get within).symm, ?_⟩
  refine (framing_agrees noDict 8 32).1 [m, m] chunks _ ?_ (by decide +kernel)
    (Option.some_get within).symm
  have plain : Accepted noDict 8 m ∧ Plain m ∧ m.length ≤ 32 := by
    refine ⟨by unfold Accepted; decide +kernel, ?_, by decide +kernel⟩
    exact ⟨ascii "8=F", ascii "5", m.drop 8, 5, by decide +kernel, by decide, by decide, by decide,
      by decide, by decide +kernel⟩
  exact List.forall_mem_cons.mpr ⟨plain, List.forall_mem_singleton.mpr plain⟩

/-- Does the parser take the message, and the framer find it to be rubbish? -/
def Differs (m : Bytes) : Prop :=
  Accepted noDict 8 m ∧ m.length ≤ 32 ∧
    ((Framer.new 32).reads [m]).map Prod.fst = some [.garbage m]

/-- A length of ten digits and a trailer spelled `010=` are read by the parser and not by the
framer. -/
theorem framing_differs :
    Differs (heartbeat (ascii "0000000005") (ascii "10")) ∧
      Differs (heartbeat (ascii "5") (ascii "010")) := by
  unfold Differs Accepted
  decide +kernel

end Fixbolt
