import Fixbolt.Codec.Frame
import Fixbolt.Session.Refine

/-!
# A setting to look at

A FIX 4.4 session between `S` and `T`, a day after 1970 began, for the runs that show where a
property fails and that its hypotheses can be met. `KeepAll` is a journal that keeps everything.
-/

namespace Fixbolt

/-- A journal that keeps everything it is given, newest first. -/
structure KeepAll where
  kept : List (ℕ × Bytes)

instance : Journal KeepAll where
  put j n bytes := (⟨(n, bytes) :: j.kept⟩, true)
  get j n := j.kept.lookup n
  oldest j := (j.kept.map (·.1)).min?
  markIn j _ := j
  markOut j _ := j

theorem KeepAll.get_put (j : KeepAll) (n k : ℕ) (bytes : Bytes) :
    Journal.get (Journal.put j n bytes).1 k = if k = n then some bytes else Journal.get j k := by
  show ((n, bytes) :: j.kept).lookup k = _
  rw [List.lookup_cons]
  by_cases h : k = n
  · simp [h]
  · rw [if_neg h, beq_false_of_ne h]
    rfl

/-- An application that answers every message with the same bytes. -/
structure Replies where
  answer : Bytes

instance : Application Replies where
  onMessage a _ _ := (a, some a.answer)

namespace Setting

/-- An acceptor's parameters, with the excerpt of the dictionary. -/
def acceptor : Params where
  dict := fix44
  capacity := 64
  speaksFirst := false
  appScratch := 1024

/-- An initiator's. -/
def initiator : Params := { acceptor with speaksFirst := true }

/-- The end `S`, whose counterparty is `T`. -/
def config : Config := Config.acceptor (ascii "FIX.4.4") (ascii "S") (ascii "T")

/-- A day after 1970 began, and how `52=` writes it. -/
def now : ℕ := millisYearZeroToEpoch + 86400000

@[inherit_doc now] def stamp : Bytes := ascii "19700102-00:00:00"

/-- A message of the counterparty: its type, its number and its other fields. -/
def theirs (msgType : String) (seq : ℕ) (fields : List (ℕ × Bytes)) : Bytes :=
  frame (ascii "FIX.4.4")
    ([(35, ascii msgType), (49, ascii "T"), (56, ascii "S"), (34, renderU32 seq), (52, stamp)] ++
      fields)

/-- Its Logon. -/
def logon (seq : ℕ) : Bytes := theirs "A" seq [(98, ascii "0"), (108, ascii "30")]

/-- An order of the counterparty. -/
def order (seq : ℕ) : Bytes :=
  theirs "D" seq [(11, ascii "A"), (54, ascii "1"), (60, stamp), (40, ascii "1")]

/-- An order of this end's application, under a number that is not its own yet. -/
def ours : Bytes :=
  frame (ascii "FIX.4.4")
    [(35, ascii "D"), (49, ascii "S"), (56, ascii "T"), (34, ascii "7"), (52, stamp),
      (11, ascii "A"), (54, ascii "1"), (60, stamp), (40, ascii "1")]

/-- A session just made, with an application that never answers and no journal. -/
def fresh (P : Params) (cfg : Config) : World Silent NoJournal :=
  ⟨⟨.new P cfg, []⟩, .silent, .noJournal⟩

/-- The acceptor, logged on by the counterparty's first message. -/
def loggedOn : World Silent NoJournal :=
  (fresh acceptor config).run acceptor [.connect, .tick now, .receivedWith (logon 1)]

/-- A logged-on acceptor that keeps what it sends, resends one message at a time, and sent three
orders. -/
def threeSent : World Silent KeepAll :=
  (⟨⟨.new acceptor { config with resendBatch := 1 }, []⟩, .silent, ⟨[]⟩⟩ : World Silent KeepAll).run
    acceptor [.connect, .tick now, .receivedWith (logon 1), .sendApplication ours,
      .sendApplication ours, .sendApplication ours]

theorem threeSent_reachable : World.Reachable acceptor threeSent :=
  World.Reachable.run acceptor (.init (.new _) _ _) _ (by simp [Call.fits])

theorem fresh_reachable (P : Params) (cfg : Config) : World.Reachable P (fresh P cfg) :=
  .init (.new cfg) Silent.silent NoJournal.noJournal

theorem loggedOn_reachable : World.Reachable acceptor loggedOn :=
  (fresh_reachable acceptor config).run _ _ (by simp [Call.fits])

end Setting

end Fixbolt
