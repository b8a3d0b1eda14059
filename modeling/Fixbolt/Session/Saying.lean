import Fixbolt.Codec.Fitting
import Fixbolt.Session.Timing

/-!
# What a session decides to say

A session lays its own messages out with at most 18 slots into 512 bytes, from names in buffers and
from values that were copied into buffers. The Reject with every value at its longest takes exactly
the 512 bytes.

* `skeleton_error`: a template of a session is built unless the DATA rule refuses it;
* `Session.Decides`: everything a session says of its own accord;
* `Scene.sendAs_fits`: what it says is written.
-/

namespace Fixbolt

open TemplateBuilder

/-! ### Sizes -/

/-- Every name lies in its buffer. -/
structure Config.Sized (cfg : Config) : Prop where
  beginString : cfg.beginString.bytes.length ≤ maxBeginStringLen
  sender : cfg.senderCompId.bytes.length ≤ maxCompIdLen
  target : cfg.targetCompId.bytes.length ≤ maxCompIdLen
  applVerId : ∀ name ∈ cfg.defaultApplVerId, name.bytes.length ≤ maxApplVerIdLen

theorem Name.new_length (n : ℕ) (src : Bytes) : (Name.new n src).bytes.length ≤ n :=
  List.length_take_le n src

/-- A configuration that was made has its names in their buffers. -/
theorem Config.acceptor_sized (beginString senderCompId targetCompId : Bytes) :
    (Config.acceptor beginString senderCompId targetCompId).Sized :=
  ⟨Name.new_length _ _, Name.new_length _ _, Name.new_length _ _, nofun⟩

/-- How long the value of a tag is at most in what a session says: the buffer it was copied into. -/
def longest (tag : ℕ) : ℕ :=
  if tag = 58 then SessionText.maxLen
  else if tag = 112 then 64
  else if [49, 56, 115, 116, 144, 128, 129, 145].contains tag then 32
  else if [52, 122].contains tag then 27
  else if tag = 1137 then 16
  else if tag = 371 then 12
  else if [34, 369, 45, 108, 789, 7, 16, 36].contains tag then 10
  else if [98, 372].contains tag then 8
  else 2

/-- What a session says. -/
def sayings : Bounds where
  cap := longest
  low tag := by
    unfold longest SessionText.maxLen
    split_ifs <;> omega
  high tag := by
    unfold longest SessionText.maxLen
    split_ifs <;> omega

/-- What lies in the scratch of a template: the two names, and numbers of two digits. -/
def literals : Bounds where
  cap tag := if [49, 56].contains tag then 32 else 2
  low tag := by split_ifs <;> omega
  high tag := by split_ifs <;> omega

/-- The declarations of a session message. -/
def Which.decls (which : Which) (sender target : Bytes) : List Decl :=
  [.field 35 which.msgType, .field 49 sender, .field 56 target] ++ which.slots.map .slot

theorem skeleton_eq (D : Dictionary) (begin_ sender target : Bytes) (which : Which) :
    skeleton D begin_ sender target which =
      (declare skeletonParts skeletonScratch begin_ (which.decls sender target)).build D
        skeletonParts skeletonScratch := by
  rw [declare, Which.decls, List.foldl_append, List.foldl_map]
  rfl

theorem Which.decls_tags (which : Which) (sender target : Bytes) :
    (which.decls sender target).map Decl.tag = [35, 49, 56] ++ which.slots := by
  unfold Which.decls
  rw [List.map_append, List.map_map]
  exact congrArg _ (List.map_id _)

theorem Which.decls_cost (c : Bounds) (which : Which) (sender target : Bytes) :
    ((which.decls sender target).map fun x => c.cost x.tag).sum =
      (([35, 49, 56] ++ which.slots).map c.cost).sum := by
  rw [← which.decls_tags sender target, List.map_map]
  rfl

/-- What the static fields of a session message are. -/
theorem Which.decls_fit {c : Bounds} {sender target : Bytes} (which : Which)
    (from_ : sender.length ≤ c.cap 49) (to_ : target.length ≤ c.cap 56) :
    ∀ x ∈ which.decls sender target, x.entry.Fits c := by
  intro x mem
  unfold Which.decls at mem
  simp only [List.cons_append, List.nil_append, List.mem_cons, List.mem_map] at mem
  obtain rfl | rfl | rfl | ⟨tag, -, rfl⟩ := mem
  · refine ⟨which.msgType, rfl, le_trans ?_ (c.low 35)⟩
    cases which <;> decide
  · exact ⟨sender, rfl, from_⟩
  · exact ⟨target, rfl, to_⟩
  · exact trivial

section Names

variable {D : Dictionary} {begin_ sender target : Bytes}

/-- **The 24 parts and the 320 bytes of scratch are enough** for names in their buffers, in any
dictionary. -/
theorem skeleton_error {which : Which} {e : EncodeError} (front : begin_.length ≤ 16)
    (from_ : sender.length ≤ 32) (to_ : target.length ≤ 32)
    (h : skeleton D begin_ sender target which = .error e) : ∃ tag, e = .dataWithoutLength tag := by
  rw [skeleton_eq] at h
  have each (p : ℕ → Prop) (all : ∀ t ∈ [35, 49, 56] ++ which.slots, p t) :
      ∀ x ∈ which.decls sender target, p x.tag := by
    intro x mem
    exact all x.tag (which.decls_tags sender target ▸ List.mem_map_of_mem mem)
  have count : (which.decls sender target).length = 3 + which.slots.length := by
    rw [← List.length_map (f := Decl.tag), which.decls_tags, List.length_append]
    rfl
  have literal : ((which.decls sender target).map Decl.literal).sum =
      (encodeField 35 which.msgType).length + (encodeField 49 sender).length +
        (encodeField 56 target).length := by
    have none : (which.slots.map (Decl.literal ∘ Decl.slot)).sum = 0 := by
      simp [Function.comp_def, Decl.literal]
    unfold Which.decls
    rw [List.map_append, List.map_map, List.sum_append, none]
    simp [Decl.literal, Nat.add_assoc]
  have sizes : (renderU32 35).length = 2 ∧ (renderU32 49).length = 2 ∧ (renderU32 56).length = 2 ∧
      which.msgType.length = 1 := by
    cases which <;> decide
  obtain ⟨tag35, tag49, tag56, one⟩ := sizes
  have taken : ((which.decls sender target).map Decl.literal).sum ≤ 77 := by
    rw [literal, encodeField_size, encodeField_size, encodeField_size, tag35, tag49, tag56, one]
    omega
  refine build_error (c := literals) (d := 4) (by decide) ?_ (by decide) ?_
    (which.decls_fit from_ to_) ?_ ?_ ?_ h
  · rw [count]
    cases which <;> decide
  · exact each (fun t => reserved t = false) (by cases which <;> decide)
  · exact each (fun t => (renderU32 t).length ≤ 4) (by cases which <;> decide)
  · have slots : which.slots.length ≤ 14 := by cases which <;> decide
    rw [count]
    unfold skeletonScratch
    omega
  · have room : (([35, 49, 56] ++ which.slots).map literals.cost).sum ≤ 304 := by
      cases which <;> decide
    rw [which.decls_cost]
    unfold skeletonScratch
    omega

/-- **The 512 bytes are enough**: the template of a session message writes every message whose
values lie in the buffers they were copied from. -/
theorem skeleton_writes {which : Which} {t : Template} {slots : List (ℕ × Bytes)}
    (front : begin_.length ≤ 16) (from_ : sender.length ≤ 32) (to_ : target.length ≤ 32)
    (built : skeleton D begin_ sender target which = .ok t) (holds : sayings.Holds slots) :
    ∃ out, t.encodeWith D outRoom slots [] = .ok out := by
  rw [skeleton_eq] at built
  obtain ⟨first, length⟩ := build_length built
    (which.decls_fit (c := sayings) from_ to_) holds
  have costs : ((which.decls sender target).map fun x => sayings.cost x.tag).sum ≤ 478 := by
    rw [which.decls_cost]
    cases which <;> decide
  refine Template.encodeWith_fits (by rw [first]; omega) (by decide) ?_
  unfold Template.reserve outRoom
  rw [first]
  omega

end Names

/-! ### What a session sends -/

/-- A session whose templates could be made of its names. -/
structure Session.Equipped (P : Params) (s : Session) : Prop where
  sized : s.cfg.Sized
  own : s.out = Session.outboundOf P.dict.toDictionary s.cfg
  named : s.out.isSome

theorem Outbound.new_template {D : Dictionary} {begin_ sender target : Bytes} {o : Outbound}
    (h : Outbound.new D begin_ sender target = some o) (which : Which) :
    skeleton D begin_ sender target which = .ok (o.template which) := by
  have ok {r : Except EncodeError Template} {t : Template} (h : r.toOption = some t) : r = .ok t := by
    cases r with
    | error e => cases h
    | ok t' => exact congrArg Except.ok (Option.some.inj h)
  simp only [Outbound.new, Option.bind_eq_bind, Option.bind_eq_some_iff] at h
  obtain ⟨a, ha, b, hb, c, hc, d, hd, e, he, f, hf, g, hg, made⟩ := h
  cases made
  cases which with
  | logon => exact ok ha
  | logout => exact ok hb
  | reject => exact ok hc
  | heartbeat => exact ok hd
  | testRequest => exact ok he
  | resendRequest => exact ok hf
  | gapFill => exact ok hg

theorem Name.get_eq {name : Name} {v : Bytes} (h : name.get = some v) : v = name.bytes := by
  unfold Name.get at h
  split at h
  · exact (Option.some.inj h).symm
  · cases h

/-- The templates of a session, and the names they were made of. -/
theorem Session.Equipped.templates {P : Params} {s : Session} (e : s.Equipped P) :
    ∃ o begin_ sender target, s.out = some o ∧ begin_.length ≤ 16 ∧ sender.length ≤ 32 ∧
      target.length ≤ 32 ∧ ∀ which, skeleton P.dict.toDictionary begin_ sender target which =
        .ok (o.template which) := by
  obtain ⟨o, out⟩ := Option.isSome_iff_exists.mp e.named
  have made := e.own.symm.trans out
  unfold Session.outboundOf at made
  split at made
  · split at made
    · rename_i begin_ sender target front from_ to_
      refine ⟨o, begin_, sender, target, out, ?_, ?_, ?_, Outbound.new_template made⟩
      · exact Name.get_eq front ▸ e.sized.beginString
      · exact Name.get_eq from_ ▸ e.sized.sender
      · exact Name.get_eq to_ ▸ e.sized.target
    · cases made
  · cases made

theorem Session.stampNow_length (s : Session) : s.stampNow.length ≤ 27 := by
  have digits (p : Precision) : p.fractionalDigits ≤ 9 := by cases p <;> decide
  have width := digits s.stampPrecision
  have taken := List.length_take_le (18 + s.stampPrecision.fractionalDigits)
    (formatTimestamp s.cfg.timestampPrecision (s.nowMs - millisYearZeroToEpoch) s.nowSubMsNanos)
  unfold Session.stampNow
  omega

theorem Bounds.Holds.append {c : Bounds} {xs ys : List (ℕ × Bytes)} (h : c.Holds xs)
    (h' : c.Holds ys) : c.Holds (xs ++ ys) := by
  intro f mem
  obtain mem | mem := List.mem_append.mp mem
  · exact h f mem
  · exact h' f mem

theorem Bounds.Holds.nil {c : Bounds} : c.Holds [] := List.forall_mem_nil _

theorem Bounds.Holds.cons {c : Bounds} {f : ℕ × Bytes} {xs : List (ℕ × Bytes)}
    (first : f.2.length ≤ c.cap f.1) (rest : c.Holds xs) : c.Holds (f :: xs) :=
  List.forall_mem_cons.mpr ⟨first, rest⟩

theorem Session.slotsFor_holds (s : Session) (number : Option ℕ) {extra : List (ℕ × Bytes)}
    (holds : sayings.Holds extra) : sayings.Holds (s.slotsFor number extra) := by
  have processed : sayings.Holds
      (if s.cfg.lastProcessed then [(369, renderU32 s.lastIn)] else []) := by
    split
    · exact .cons (renderU32_length _) .nil
    · exact .nil
  exact .append (.append (.cons (renderU32_length _) (.cons s.stampNow_length .nil)) processed) holds

theorem Session.slotsFor_length (s : Session) (number : Option ℕ) (extra : List (ℕ × Bytes)) :
    (s.slotsFor number extra).length ≤ 3 + extra.length := by
  unfold Session.slotsFor
  split
  · simp
    omega
  · simp
    omega

/-- **Bounded values are sent**, under whatever number. -/
theorem Scene.sendAs_fits {P : Params} {w : Scene} {which : Which} {number : Option ℕ}
    {extra : List (ℕ × Bytes)} (equipped : w.ses.Equipped P) (holds : sayings.Holds extra)
    (few : extra.length ≤ 11) : ∃ w', w.sendAs P which number extra = some w' := by
  obtain ⟨o, begin_, sender, target, out, front, from_, to_, built⟩ := equipped.templates
  obtain ⟨bytes, written⟩ :=
    skeleton_writes front from_ to_ (built which) (w.ses.slotsFor_holds number holds)
  have room := w.ses.slotsFor_length number extra
  unfold Scene.sendAs
  simp only [out, written]
  rw [if_neg (by unfold maxSlots; omega)]
  exact ⟨_, rfl⟩

/-! ### What a session decides to say -/

/-- Everything that a session says without an operator's words: the message, the number it goes out
under when that is an old one, and the fields it adds. -/
inductive Session.Decides (s : Session) : Which → Option ℕ → List (ℕ × Bytes) → Prop
  /-- The Logon that opens a connection. -/
  | opening : Decides s .logon none s.openingSlots
  /-- The answer to a Logon. -/
  | answer {view : MessageView} {seq : ℕ} {encrypt heartBt : Bytes}
      (encrypts : (Inbound.read view seq).encrypt = some encrypt)
      (beats : (Inbound.read view seq).heartBt = some heartBt) :
      Decides s .logon none (Scene.logonAnswer s (.read view seq) encrypt heartBt)
  /-- A Logout without a text. -/
  | goodbye : Decides s .logout none []
  /-- A Logout that says why. -/
  | farewell (why : SessionText) : Decides s .logout none [(58, why.render)]
  | expectsTooMuch : Decides s .logout none [(58, ascii "NextExpectedMsgSeqNum too high")]
  /-- A Reject of a message that was read. -/
  | reject (view : MessageView) (seq : ℕ) (text : SessionText) (tag : Option ℕ) :
      Decides s .reject none ((Inbound.read view seq).reject text (tag.bind tagText)).slots
  /-- A Reject of a message with an unreadable tag. -/
  | badTag (view : MessageView) (text : Option Bytes) :
      Decides s .reject none
        (Reject.mk .invalidTagNumber (copy 12 text) (copy 8 (view.get 35)) (Inbound.number view 34)
          []).slots
  | heartbeat : Decides s .heartbeat none []
  /-- The answer to a TestRequest. -/
  | reply (view : MessageView) (seq : ℕ) :
      Decides s .heartbeat none [(112, (Inbound.read view seq).testReqId.getD [])]
  | testRequest : Decides s .testRequest none [(112, ascii "TEST")]
  /-- A ResendRequest, the session's own or one that was ordered. -/
  | resendRequest (from_ upTo : ℕ) :
      Decides s .resendRequest none [(7, renderU32 from_), (16, renderU32 upTo)]
  /-- A gap fill over numbers that were spent. -/
  | fill (from_ upto : ℕ) : Decides s .gapFill (some from_)
      [(43, ascii "Y"), (122, s.stampNow), (36, renderU32 upto), (123, ascii "Y")]
  /-- A new number, announced. -/
  | sequenceReset (n : ℕ) : Decides s .gapFill none [(36, renderU32 n), (123, ascii "N")]

theorem copy_length {n : ℕ} {value : Option Bytes} {v : Bytes} (h : copy n value = some v) :
    v.length ≤ n := of_decide_eq_true (Option.filter_eq_some_iff.mp h).2

theorem optional_holds {c : Bounds} {tag : ℕ} {value : Option Bytes}
    (h : ∀ v, value = some v → v.length ≤ c.cap tag) :
    c.Holds (value.map fun v => (tag, v)).toList := by
  cases value with
  | none => exact .nil
  | some v => exact .cons (h v rfl) .nil

theorem conditional_holds {c : Bounds} {b : Prop} [Decidable b] {tag : ℕ} {v : Bytes}
    (h : v.length ≤ c.cap tag) : c.Holds (if b then [(tag, v)] else []) := by
  split
  · exact .cons h .nil
  · exact .nil

theorem routeOf_holds (view : MessageView) :
    sayings.Holds (routeOf view) ∧ (routeOf view).length ≤ 6 := by
  refine ⟨fun f mem => ?_, List.length_filterMap_le _ _⟩
  obtain ⟨⟨from_, back⟩, listed, made⟩ := List.mem_filterMap.mp mem
  obtain ⟨v, copied, rfl⟩ := Option.map_eq_some_iff.mp made
  have short := copy_length copied
  have widths : ∀ p ∈ routing, longest p.2 = 32 := by decide
  exact short.trans (Nat.le_of_eq (widths _ listed).symm)

/-- A Reject whose parts lie in their buffers: at most eleven of the twelve fields it has room for. -/
theorem Reject.slots_hold {r : Reject} (route : sayings.Holds r.route) (six : r.route.length ≤ 6)
    (tag : ∀ v, r.refTag = some v → v.length ≤ 12)
    (type : ∀ v, r.refMsgType = some v → v.length ≤ 8) :
    sayings.Holds r.slots ∧ r.slots.length ≤ 11 := by
  have seq : sayings.Holds (r.refSeq.map fun v => (45, renderU32 v)).toList := by
    cases r.refSeq with
    | none => exact .nil
    | some v => exact .cons (renderU32_length v) .nil
  have reason : sayings.Holds (r.text.sessionRejectReason.map fun v => (373, renderU32 v)).toList := by
    cases r.text <;> first | exact .nil | exact .cons (by decide) .nil
  have one {α : Type} (o : Option α) : o.toList.length ≤ 1 := by cases o <;> simp
  refine ⟨(((((route.append seq).append (.cons r.text.render_length .nil)).append
    (optional_holds tag)).append (optional_holds type)).append reason), ?_⟩
  have counts := And.intro (one (r.refSeq.map fun v => (45, renderU32 v)))
    (And.intro (one (r.refTag.map fun t => (371, t))) (And.intro
      (one (r.refMsgType.map fun m => (372, m)))
      (one (r.text.sessionRejectReason.map fun v => (373, renderU32 v)))))
  unfold Reject.slots
  simp only [List.length_append, List.length_singleton]
  omega

/-- **What a session decides to say has bounded values**, and few of them. -/
theorem Session.Decides.holds {s : Session} {which : Which} {number : Option ℕ}
    {extra : List (ℕ × Bytes)} (sized : s.cfg.Sized) (h : s.Decides which number extra) :
    sayings.Holds extra ∧ extra.length ≤ 11 := by
  have applVerId : ∀ v, s.cfg.applVerIdHeld = some v → v.length ≤ sayings.cap 1137 := by
    intro v held
    obtain ⟨name, named, got⟩ := Option.bind_eq_some_iff.mp held
    exact Name.get_eq got ▸ sized.applVerId name named
  have one (v : Option Bytes) : (v.map fun v => (1137, v)).toList.length ≤ 1 := by cases v <;> simp
  have last := one s.cfg.applVerIdHeld
  cases h with
  | opening =>
    refine ⟨(Bounds.Holds.cons (by decide : (ascii "0").length ≤ longest 98)
      (.cons (renderU32_length _) .nil)).append (conditional_holds (renderU32_length _)) |>.append
        (optional_holds applVerId), ?_⟩
    unfold Session.openingSlots
    split
    · simp only [List.length_append, List.length_cons, List.length_nil]
      omega
    · simp only [List.length_append, List.length_cons, List.length_nil]
      omega
  | @answer view seq encrypt heartBt encrypts beats =>
    have method : encrypt.length ≤ longest 98 := copy_length encrypts
    have beat : heartBt.length ≤ 8 := copy_length beats
    refine ⟨((Bounds.Holds.cons method (.cons (beat.trans (by decide : 8 ≤ longest 108)) .nil)).append
      (conditional_holds (by decide : (ascii "Y").length ≤ longest 141))).append
        (conditional_holds (renderU32_length _)) |>.append (optional_holds applVerId), ?_⟩
    have flag (b : Prop) [Decidable b] (f : ℕ × Bytes) : (if b then [f] else []).length ≤ 1 := by
      split <;> simp
    have reset := flag ((Inbound.read view seq).resetSeq = true) (141, ascii "Y")
    have expected := flag (s.cfg.nextExpected = true) (789, renderU32 (min (s.nextIn + 1) u32Max))
    unfold Scene.logonAnswer
    simp only [List.length_append, List.length_cons, List.length_nil]
    omega
  | goodbye => exact ⟨.nil, by decide⟩
  | farewell why => exact ⟨.cons why.render_length .nil, by simp⟩
  | expectsTooMuch => exact ⟨.cons (by decide) .nil, by decide⟩
  | reject view seq text tag =>
    obtain ⟨route, six⟩ := routeOf_holds view
    refine Reject.slots_hold route six (fun v named => ?_) fun v named => copy_length named
    obtain ⟨t, -, named⟩ := Option.bind_eq_some_iff.mp named
    exact copy_length named
  | badTag view text =>
    exact Reject.slots_hold .nil (Nat.zero_le 6) (fun v named => copy_length named) fun v named =>
      copy_length named
  | heartbeat => exact ⟨.nil, by decide⟩
  | reply view seq =>
    refine ⟨.cons ?_ .nil, by simp⟩
    cases id : (Inbound.read view seq).testReqId with
    | none => exact Nat.zero_le _
    | some v => exact copy_length id
  | testRequest => exact ⟨.cons (by decide) .nil, by decide⟩
  | resendRequest from_ upTo =>
    exact ⟨.cons (renderU32_length _) (.cons (renderU32_length _) .nil), by simp⟩
  | fill from_ upto =>
    exact ⟨.cons (by decide) (.cons s.stampNow_length (.cons (renderU32_length _)
      (.cons (by decide) .nil))), by simp⟩
  | sequenceReset n => exact ⟨.cons (renderU32_length _) (.cons (by decide) .nil), by simp⟩

/-! ### Faults -/

/-- A fault names a tag by its text, or none. -/
def Fault.Named (f : Fault) : Prop := ∃ tag : Option ℕ, f.2 = tag.bind tagText

section Faults

variable {T : Tables} {view : MessageView} {msgType : Bytes} {checks : DictionaryChecks} {f : Fault}

theorem Fault.named_tag (text : SessionText) (tag : ℕ) : Fault.Named (text, tagText tag) :=
  ⟨some tag, rfl⟩

theorem Fault.named_none (text : SessionText) : Fault.Named (text, none) := ⟨none, rfl⟩

theorem valueFault_named {tag : ℕ} {value : Bytes} (h : valueFault T tag value = some f) :
    f.Named := by
  unfold valueFault at h
  split at h
  · exact Option.some.inj h ▸ Fault.named_tag _ _
  · split at h
    · exact Option.some.inj h ▸ Fault.named_tag _ _
    · cases h

theorem fieldFault_named {inBody : Bool} {seen : SeenCounters} {i tag : ℕ} {value : Bytes}
    (h : fieldFault T view msgType checks inBody seen i tag value = some f) : f.Named := by
  unfold fieldFault at h
  repeat' split at h
  all_goals first
    | exact Option.some.inj h ▸ Fault.named_tag _ _
    | exact valueFault_named h
    | cases h

theorem scanFieldsFrom_named {fields : List (ℕ × ℕ × Bytes)} {inBody : Bool} {seen : SeenCounters}
    (h : (scanFieldsFrom T view msgType checks fields inBody seen).1 = some f) : f.Named := by
  induction fields generalizing inBody seen with
  | nil => cases h
  | cons field fields ih =>
    obtain ⟨i, tag, value⟩ := field
    unfold scanFieldsFrom at h
    split at h
    · exact ih h
    · split at h
      · rename_i fault found
        exact Option.some.inj h ▸ fieldFault_named found
      · exact ih h

theorem scanGroupMembers_named {seen : SeenCounters}
    (h : scanGroupMembers T view msgType checks seen = some f) : f.Named := by
  unfold scanGroupMembers at h
  split at h
  · cases h
  · obtain ⟨⟨i, tag, value⟩, -, h⟩ := List.exists_of_findSome?_eq_some h
    dsimp only at h
    split at h
    · cases h
    · split at h
      · exact valueFault_named h
      · cases h

theorem badNestedCount_named {levels : ℕ} {entry : GroupEntry} {parent : ℕ}
    (h : badNestedCount T view msgType levels entry parent = some f) : f.Named := by
  induction levels generalizing entry parent with
  | zero => cases h
  | succ levels ih =>
    unfold badNestedCount at h
    obtain ⟨member, -, h⟩ := List.exists_of_findSome?_eq_some h
    split at h
    · cases h
    · split at h
      · cases h
      · split at h
        · exact Option.some.inj h ▸ Fault.named_tag _ _
        · obtain ⟨child, -, h⟩ := List.exists_of_findSome?_eq_some h
          exact ih h

theorem badGroupCount_named (h : badGroupCount T view msgType = some f) : f.Named := by
  unfold badGroupCount at h
  obtain ⟨⟨i, counter, value⟩, -, h⟩ := List.exists_of_findSome?_eq_some h
  dsimp only at h
  split at h
  · cases h
  · split at h
    · cases h
    · split at h
      · exact Option.some.inj h ▸ Fault.named_tag _ _
      · obtain ⟨entry, -, h⟩ := List.exists_of_findSome?_eq_some h
        exact badNestedCount_named h

theorem missingRequired_named (h : missingRequired T view msgType = some f) : f.Named := by
  unfold missingRequired at h
  obtain ⟨tag, -, h⟩ := List.exists_of_findSome?_eq_some h
  split at h
  · exact Option.some.inj h ▸ Fault.named_tag _ _
  · cases h

theorem outOfFamilyApplVerId_named (h : outOfFamilyApplVerId T view msgType = some f) : f.Named := by
  unfold outOfFamilyApplVerId at h
  split at h
  · cases h
  · obtain ⟨v, -, h⟩ := Option.bind_eq_some_iff.mp h
    split at h
    · cases h
    · exact Option.some.inj h ▸ Fault.named_tag _ _

/-- Every fault of a message names a tag by its text, or none. -/
theorem faultOf_named {P : Params} {s : Session} (h : s.faultOf P view msgType = some f) :
    f.Named := by
  have or_ {a b : Option Fault} (h : (a <|> b) = some f) : a = some f ∨ b = some f := by
    cases a with
    | none => exact .inr h
    | some x => exact .inl h
  unfold Session.faultOf at h
  split at h
  · cases h
  · split at h
    · exact Option.some.inj h ▸ Fault.named_none _
    · dsimp only at h
      obtain h | h := or_ h
      · exact scanFieldsFrom_named h
      · obtain h | h := or_ h
        · split at h
          · exact outOfFamilyApplVerId_named h
          · cases h
        · obtain h | h := or_ h
          · exact missingRequired_named h
          · obtain h | h := or_ h
            · exact badGroupCount_named h
            · obtain h | h := or_ h
              · exact scanGroupMembers_named h
              · obtain h | h := or_ h
                · split at h
                  · cases h
                  · exact Option.some.inj h ▸ Fault.named_none _
                · split at h
                  · cases h
                  · exact Option.some.inj h ▸ Fault.named_none _

end Faults

end Fixbolt
