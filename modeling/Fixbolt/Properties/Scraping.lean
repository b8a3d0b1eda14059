import Fixbolt.Properties.Printing

/-!
# What a scrape says

A scrape is a body of the text format. `EngineView.Holds` is what an engine view has to say under each
series, in the units of its name, and with which labels. The body says that and no more, and what is
reserved for it is enough.

* `holds_iff`: what is printed of an engine is what it holds;
* `mem_samples_iff`: the samples of all families are what there is to say;
* `scrape_says`: a scrape fits and reads back as that.
-/

namespace Fixbolt

namespace Metrics

open Exposition

/-- What an engine view says under a series, and with which label after the engine's name. -/
inductive EngineView.Holds (e : EngineView) : Source → Extra → ℚ → Prop
  | snapshotAvailable : e.Holds .snapshotAvailable .none (if e.numbers.isSome then 1 else 0)
  | snapshotAge {ms} : e.ageMs = some ms → e.Holds .snapshotAge .none (ms.toNat / 1000)
  | published : e.Holds .published .none e.published.toNat
  | eventsLost : e.Holds .eventsLost .none e.eventsLost.toNat
  | healthy {n} : e.numbers = some n → e.Holds .healthy .none (if n.healthy then 1 else 0)
  | connections {n} : e.numbers = some n → e.Holds .connections .none n.connections.toNat
  | sessionsLoggedOn {n} : e.numbers = some n → e.Holds .sessionsLoggedOn .none n.loggedOn.toNat
  | truncated {n} : e.numbers = some n → e.Holds .truncated .none (if n.truncated then 1 else 0)
  | refused {n} : e.numbers = some n → e.Holds .refused .none n.refused.toNat
  | unframeable {n} : e.numbers = some n → e.Holds .unframeable .none n.unframeable.toNat
  | sourcesMissing {n} : e.numbers = some n → e.Holds .sourcesMissing .none n.sourcesMissing.toNat
  | logLost {n} : e.numbers = some n → e.Holds .logLost .none n.logLost.toNat
  | ringUsed {n used capacity} : e.numbers = some n → n.ring = some (used, capacity) →
      e.Holds .ringUsed .none used.toNat
  | ringCapacity {n used capacity} : e.numbers = some n → n.ring = some (used, capacity) →
      e.Holds .ringCapacity .none capacity.toNat
  | presessionUsed {n used capacity} : e.numbers = some n → n.presession = some (used, capacity) →
      e.Holds .presessionUsed .none used.toNat
  | presessionCapacity {n used capacity} : e.numbers = some n →
      n.presession = some (used, capacity) → e.Holds .presessionCapacity .none capacity.toNat
  -- A session is described by a published snapshot only.
  | sessionLoggedOn {s} : e.numbers ≠ none → s ∈ e.sessions →
      e.Holds .sessionLoggedOn (.conn s.conn) (if s.loggedOn then 1 else 0)
  | sessionNextOut {s} : e.numbers ≠ none → s ∈ e.sessions →
      e.Holds .sessionNextOut (.conn s.conn) s.nextOut.toNat
  | sessionNextIn {s} : e.numbers ≠ none → s ∈ e.sessions →
      e.Holds .sessionNextIn (.conn s.conn) s.nextIn.toNat
  | sessionSkew {s ms} : e.numbers ≠ none → s ∈ e.sessions → s.skewMs = some ms →
      e.Holds .sessionSkew (.conn s.conn) (ms.toInt / 1000)
  | sessionPendingOutput {s} : e.numbers ≠ none → s ∈ e.sessions →
      e.Holds .sessionPendingOutput (.conn s.conn) (if s.pendingOutput then 1 else 0)
  | sessionJournalRefused {s} : e.numbers ≠ none → s ∈ e.sessions →
      e.Holds .sessionJournalRefused (.conn s.conn) s.journalRefused.toNat
  | sessionResendBeyond {s} : e.numbers ≠ none → s ∈ e.sessions →
      e.Holds .sessionResendBeyond (.conn s.conn) s.resendBeyond.toNat
  | events {c label} {i : ℕ} {n : UInt64} : e.events = some c → EVENT_KINDS[i]? = some label →
      c.kinds.toList[i]? = some n → e.Holds .events (.kind label) n.toNat
  | sessionEnds {c} {i : ℕ} {n : UInt64} : e.events = some c → c.reasons.toList[i]? = some n →
      e.Holds .sessionEnds (.reason (reasonLabel i)) n.toNat

/-- What there is to say: what each engine holds, under its name, and the exporter's own counters. -/
inductive Told (engines : List EngineView) (exporter : ExporterView) : Sample → Prop
  | engine {e s x q} : e ∈ engines → s ∈ ALL → e.Holds s.source x q →
      Told engines exporter ⟨s.name, x.labels e.name, q⟩
  | scrapes {s} : s ∈ ALL → s.source = .scrapes →
      Told engines exporter ⟨s.name, [], exporter.scrapes.toNat⟩
  | badRequests {s} : s ∈ ALL → s.source = .badRequests →
      Told engines exporter ⟨s.name, [], exporter.badRequests.toNat⟩

@[simp] theorem int_quantity (b : Bool) : (int b).quantity = if b then 1 else 0 := by
  cases b <;> rfl

@[simp] theorem mem_engineSample {v : Option Value} {x : Extra} {w : Value} :
    (x, w) ∈ engineSample v ↔ v = some w ∧ x = .none := by
  cases v with
  | none => simp [engineSample]
  | some v =>
    simp only [engineSample, Option.map_some, Option.toList_some, List.mem_singleton,
      Prod.mk.injEq, Option.some.injEq]
    exact ⟨fun h => ⟨h.2.symm, h.1⟩, fun h => ⟨h.2, h.1.symm⟩⟩

/-- What is printed of the sessions: nothing before the first snapshot. -/
theorem mem_sessions {e : EngineView} {source : Source} {x : Extra} {w : Value} :
    (x, w) ∈ (if e.numbers.isNone then []
      else e.sessions.filterMap fun s =>
        (sessionValue source s).map fun v => (Extra.conn s.conn, v)) ↔
      e.numbers ≠ none ∧ ∃ s ∈ e.sessions, x = .conn s.conn ∧ sessionValue source s = some w := by
  cases e.numbers with
  | none => simp
  | some n =>
    simp only [Option.isNone_some, Bool.false_eq_true, if_false, List.mem_filterMap,
      Option.map_eq_some_iff, Prod.mk.injEq, ne_eq, reduceCtorEq, not_false_eq_true, true_and]
    constructor
    · rintro ⟨s, mem, v, value, rfl, rfl⟩
      exact ⟨s, mem, rfl, value⟩
    · rintro ⟨s, mem, rfl, value⟩
      exact ⟨s, mem, w, value, rfl, rfl⟩

theorem mem_kinds {c : Counts} {x : Extra} {w : Value} :
    (x, w) ∈ (EVENT_KINDS.zip c.kinds.toList).map (fun (label, n) => (Extra.kind label, Value.int n)) ↔
      ∃ (i : ℕ) (label : Bytes) (n : UInt64), EVENT_KINDS[i]? = some label ∧ c.kinds.toList[i]? = some n ∧
        x = .kind label ∧ w = .int n := by
  simp only [List.mem_map, Prod.exists, Prod.mk.injEq]
  constructor
  · rintro ⟨label, n, mem, rfl, rfl⟩
    obtain ⟨i, at_⟩ := List.mem_iff_getElem?.mp mem
    obtain ⟨first, second⟩ := List.getElem?_zip_eq_some.mp at_
    exact ⟨i, label, n, first, second, rfl, rfl⟩
  · rintro ⟨i, label, n, first, second, rfl, rfl⟩
    exact ⟨label, n, List.mem_of_getElem? (List.getElem?_zip_eq_some.mpr ⟨first, second⟩), rfl, rfl⟩

theorem mem_reasons {c : Counts} {x : Extra} {w : Value} :
    (x, w) ∈ c.reasons.toList.zipIdx.map (fun (n, i) => (Extra.reason (reasonLabel i), Value.int n)) ↔
      ∃ (i : ℕ) (n : UInt64), c.reasons.toList[i]? = some n ∧ x = .reason (reasonLabel i) ∧ w = .int n := by
  simp only [List.mem_map, Prod.exists, Prod.mk.injEq, List.mk_mem_zipIdx_iff_getElem?]
  constructor
  · rintro ⟨n, i, at_, rfl, rfl⟩
    exact ⟨i, n, at_, rfl, rfl⟩
  · rintro ⟨i, n, at_, rfl, rfl⟩
    exact ⟨n, i, at_, rfl, rfl⟩

/-- What is printed of an engine under a series is what it holds there. -/
theorem holds_iff {s : Series} {e : EngineView} {x : Extra} {q : ℚ} :
    e.Holds s.source x q ↔ ∃ v, (x, v) ∈ eachSample s e ∧ v.quantity = q := by
  obtain ⟨name, kind, scope, source, help⟩ := s
  constructor
  · intro holds
    dsimp only at holds
    cases holds with
    | snapshotAvailable => exact ⟨_, mem_engineSample.mpr ⟨rfl, rfl⟩, int_quantity _⟩
    | snapshotAge age => exact ⟨_, mem_engineSample.mpr ⟨by rw [age]; rfl, rfl⟩, rfl⟩
    | published => exact ⟨_, mem_engineSample.mpr ⟨rfl, rfl⟩, rfl⟩
    | eventsLost => exact ⟨_, mem_engineSample.mpr ⟨rfl, rfl⟩, rfl⟩
    | healthy had => exact ⟨_, mem_engineSample.mpr ⟨by rw [had]; rfl, rfl⟩, int_quantity _⟩
    | connections had => exact ⟨_, mem_engineSample.mpr ⟨by rw [had]; rfl, rfl⟩, rfl⟩
    | sessionsLoggedOn had => exact ⟨_, mem_engineSample.mpr ⟨by rw [had]; rfl, rfl⟩, rfl⟩
    | truncated had => exact ⟨_, mem_engineSample.mpr ⟨by rw [had]; rfl, rfl⟩, int_quantity _⟩
    | refused had => exact ⟨_, mem_engineSample.mpr ⟨by rw [had]; rfl, rfl⟩, rfl⟩
    | unframeable had => exact ⟨_, mem_engineSample.mpr ⟨by rw [had]; rfl, rfl⟩, rfl⟩
    | sourcesMissing had => exact ⟨_, mem_engineSample.mpr ⟨by rw [had]; rfl, rfl⟩, rfl⟩
    | logLost had => exact ⟨_, mem_engineSample.mpr ⟨by rw [had]; rfl, rfl⟩, rfl⟩
    | ringUsed had ring | ringCapacity had ring | presessionUsed had ring
    | presessionCapacity had ring =>
      exact ⟨_, mem_engineSample.mpr ⟨by rw [had, Option.bind_some, ring]; rfl, rfl⟩, rfl⟩
    | sessionLoggedOn had mem | sessionPendingOutput had mem =>
      exact ⟨_, mem_sessions.mpr ⟨had, _, mem, rfl, rfl⟩, int_quantity _⟩
    | sessionNextOut had mem | sessionNextIn had mem | sessionJournalRefused had mem
    | sessionResendBeyond had mem =>
      refine ⟨_, mem_sessions.mpr ⟨had, _, mem, rfl, rfl⟩, ?_⟩
      simp [Value.quantity]
    | sessionSkew had mem skew =>
      exact ⟨_, mem_sessions.mpr ⟨had, _, mem, rfl, by rw [sessionValue, skew]; rfl⟩, rfl⟩
    | events had label at_ =>
      refine ⟨.int _, ?_, rfl⟩
      simp only [eachSample, had]
      exact mem_kinds.mpr ⟨_, _, _, label, at_, rfl, rfl⟩
    | sessionEnds had at_ =>
      refine ⟨.int _, ?_, rfl⟩
      simp only [eachSample, had]
      exact mem_reasons.mpr ⟨_, _, at_, rfl, rfl⟩
  · rintro ⟨v, mem, rfl⟩
    cases source with
    | snapshotAvailable =>
      obtain ⟨eq, rfl⟩ := mem_engineSample.mp mem
      obtain rfl := Option.some.inj eq
      rw [int_quantity]
      exact .snapshotAvailable
    | snapshotAge =>
      obtain ⟨eq, rfl⟩ := mem_engineSample.mp mem
      obtain ⟨ms, age, rfl⟩ := Option.map_eq_some_iff.mp eq
      exact .snapshotAge age
    | published =>
      obtain ⟨eq, rfl⟩ := mem_engineSample.mp mem
      obtain rfl := Option.some.inj eq
      exact .published
    | eventsLost =>
      obtain ⟨eq, rfl⟩ := mem_engineSample.mp mem
      obtain rfl := Option.some.inj eq
      exact .eventsLost
    | healthy | truncated =>
      obtain ⟨eq, rfl⟩ := mem_engineSample.mp mem
      obtain ⟨n, had, rfl⟩ := Option.map_eq_some_iff.mp eq
      rw [int_quantity]
      constructor
      exact had
    | connections | sessionsLoggedOn | refused | unframeable | sourcesMissing | logLost =>
      obtain ⟨eq, rfl⟩ := mem_engineSample.mp mem
      obtain ⟨n, had, rfl⟩ := Option.map_eq_some_iff.mp eq
      constructor
      exact had
    | ringUsed | ringCapacity | presessionUsed | presessionCapacity =>
      obtain ⟨eq, rfl⟩ := mem_engineSample.mp mem
      obtain ⟨⟨used, capacity⟩, had, rfl⟩ := Option.map_eq_some_iff.mp eq
      obtain ⟨n, had, pair⟩ := Option.bind_eq_some_iff.mp had
      constructor
      · exact had
      · exact pair
    | sessionLoggedOn | sessionPendingOutput =>
      obtain ⟨had, s, held, rfl, eq⟩ := mem_sessions.mp mem
      obtain rfl := Option.some.inj eq
      rw [int_quantity]
      constructor
      · exact had
      · exact held
    | sessionNextOut =>
      obtain ⟨had, s, held, rfl, eq⟩ := mem_sessions.mp mem
      obtain rfl := Option.some.inj eq
      exact .sessionNextOut had held
    | sessionNextIn =>
      obtain ⟨had, s, held, rfl, eq⟩ := mem_sessions.mp mem
      obtain rfl := Option.some.inj eq
      exact .sessionNextIn had held
    | sessionJournalRefused =>
      obtain ⟨had, s, held, rfl, eq⟩ := mem_sessions.mp mem
      obtain rfl := Option.some.inj eq
      exact .sessionJournalRefused had held
    | sessionResendBeyond =>
      obtain ⟨had, s, held, rfl, eq⟩ := mem_sessions.mp mem
      obtain rfl := Option.some.inj eq
      exact .sessionResendBeyond had held
    | sessionSkew =>
      obtain ⟨had, s, held, rfl, eq⟩ := mem_sessions.mp mem
      obtain ⟨ms, skew, rfl⟩ := Option.map_eq_some_iff.mp eq
      exact .sessionSkew had held skew
    | events =>
      simp only [eachSample] at mem
      split at mem
      · rename_i had
        obtain ⟨i, label, n, first, second, rfl, rfl⟩ := mem_kinds.mp mem
        exact .events had first second
      · exact absurd mem List.not_mem_nil
    | sessionEnds =>
      simp only [eachSample] at mem
      split at mem
      · rename_i had
        obtain ⟨i, n, at_, rfl, rfl⟩ := mem_reasons.mp mem
        exact .sessionEnds had at_
      · exact absurd mem List.not_mem_nil
    | scrapes | badRequests => exact absurd mem List.not_mem_nil

/-! ### What is read back -/

theorem decimal_inj {m n : ℕ} (eq : decimal m = decimal n) : m = n := by
  have read (k : ℕ) : numberOf (decimal k) = k :=
    (numberOf_writeDigits fun _ => numberDigits_lt _).trans (ofDigits_numberDigits k)
  rw [← read m, eq, read]

/-- The labels of a sample tell the engine and what follows its name. -/
theorem labels_inj {x y : Extra} {m n : Bytes} (eq : x.labels m = y.labels n) : m = n ∧ x = y := by
  have words : ascii "conn" ≠ ascii "kind" ∧ ascii "conn" ≠ ascii "reason" ∧
      ascii "kind" ≠ ascii "reason" := by decide
  obtain ⟨a, b, c⟩ := words
  cases x <;> cases y <;>
    simp only [Extra.labels, List.cons.injEq, Prod.mk.injEq, reduceCtorEq, and_false, and_true,
      true_and, a, b, c, a.symm, b.symm, c.symm, false_and] at eq
  · exact ⟨eq, rfl⟩
  · exact ⟨eq.1, congrArg Extra.conn (UInt64.toNat_inj.mp (decimal_inj eq.2))⟩
  · exact ⟨eq.1, congrArg Extra.kind eq.2⟩
  · exact ⟨eq.1, congrArg Extra.reason eq.2⟩

/-- The name and the labels of a sample. -/
def key (s : Sample) : Bytes × List (Bytes × Bytes) := (s.name, s.labels)

variable {engines : List EngineView} {exporter : ExporterView} {events : Bool}

theorem samples_named {s : Series} :
    ∀ x ∈ s.samples engines exporter, x.name = s.name := by
  intro x mem
  unfold Series.samples at mem
  split at mem
  · rw [List.mem_singleton.mp mem]
  · obtain ⟨e, -, mem⟩ := List.mem_flatMap.mp mem
    obtain ⟨p, -, rfl⟩ := List.mem_map.mp mem
    rfl

/-- Under one series no labels are printed twice. -/
theorem samples_once (s : Series) (distinct : (engines.map EngineView.name).Nodup)
    (fit : ∀ e ∈ engines, e.Fits events) : ((s.samples engines exporter).map key).Nodup := by
  unfold Series.samples
  split
  · exact List.nodup_singleton _
  rw [List.map_flatMap, List.nodup_flatMap]
  constructor
  · intro e at_
    have once := (eachSample_spec (fit e at_).few (fit e at_).once s).once
    have keys := once.map (f := fun x : Extra => (s.name, x.labels e.name)) fun x y eq =>
      (labels_inj (Prod.mk.inj eq).2).2
    rw [List.map_map] at keys
    rwa [List.map_map]
  · refine (List.pairwise_map.mp distinct).imp fun {a b} other => ?_
    intro x left right
    simp only [List.map_map] at left right
    obtain ⟨p, -, rfl⟩ := List.mem_map.mp left
    obtain ⟨q, -, eq⟩ := List.mem_map.mp right
    exact other (labels_inj (Prod.mk.inj eq).2).1.symm

/-- The families of a scrape. -/
def families (engines : List EngineView) (exporter : ExporterView) : List Family :=
  (ALL.map (Series.family engines exporter)).filter fun f => f.samples ≠ []

theorem mem_families {f : Family} : f ∈ families engines exporter ↔
    ∃ s ∈ ALL, s.family engines exporter = f ∧ s.samples engines exporter ≠ [] := by
  rw [families, List.mem_filter, List.mem_map, decide_eq_true_iff]
  constructor
  · rintro ⟨⟨s, mem, rfl⟩, filled⟩
    exact ⟨s, mem, rfl, filled⟩
  · rintro ⟨s, mem, rfl, filled⟩
    exact ⟨⟨s, mem, rfl⟩, filled⟩

theorem families_flatMap {α : Type} (g : Family → List α) (l : List Series) :
    ((l.map (Series.family engines exporter)).filter fun f => f.samples ≠ []).flatMap g =
      l.flatMap fun s => if s.samples engines exporter = [] then []
        else g (s.family engines exporter) := by
  induction l with
  | nil => rfl
  | cons s l ih =>
    by_cases empty : s.samples engines exporter = []
    · rw [List.map_cons, List.filter_cons_of_neg (by simp [Series.family, empty]), ih,
        List.flatMap_cons, if_pos empty, List.nil_append]
    · rw [List.map_cons, List.filter_cons_of_pos (by simp [Series.family, empty]),
        List.flatMap_cons, ih, List.flatMap_cons, if_neg empty]

theorem families_samples : (families engines exporter).flatMap Family.samples =
    ALL.flatMap (Series.samples engines exporter) := by
  rw [families, families_flatMap]
  refine congrArg (List.flatMap · ALL) (funext fun s => ?_)
  split
  · rename_i empty
    exact empty.symm
  · rfl

/-- What a scrape's families say is what there is to say. -/
theorem mem_samples_iff {x : Sample} :
    x ∈ (families engines exporter).flatMap Family.samples ↔ Told engines exporter x := by
  rw [families_samples, List.mem_flatMap]
  constructor
  · rintro ⟨s, mem, at_⟩
    obtain ⟨-, -, -, same⟩ := all_spec s mem
    unfold Series.samples at at_
    split at at_
    · rename_i scope
      rw [same] at scope
      rw [List.mem_singleton.mp at_]
      cases source : s.source with
      | scrapes => exact .scrapes mem source
      | badRequests => exact .badRequests mem source
      | _ => simp [source, Source.scope] at scope
    · obtain ⟨e, held, at_⟩ := List.mem_flatMap.mp at_
      obtain ⟨p, printed, rfl⟩ := List.mem_map.mp at_
      exact .engine held mem (holds_iff.mpr ⟨p.2, printed, rfl⟩)
  · intro told
    cases told with
    | @engine e s x q held mem holds =>
      obtain ⟨v, printed, rfl⟩ := holds_iff.mp holds
      have scope : s.scope ≠ .exporter := by
        intro scope
        rw [eachSample_exporter ((all_spec s mem).2.2.2 ▸ scope)] at printed
        exact List.not_mem_nil printed
      refine ⟨s, mem, ?_⟩
      rw [Series.samples, if_neg scope]
      exact List.mem_flatMap.mpr ⟨e, held, List.mem_map.mpr ⟨(x, v), printed, rfl⟩⟩
    | @scrapes s mem source =>
      refine ⟨s, mem, ?_⟩
      have scope : s.scope = .exporter := by rw [(all_spec s mem).2.2.2, source]; rfl
      rw [Series.samples, if_pos scope, source]
      exact List.mem_singleton_self _
    | @badRequests s mem source =>
      refine ⟨s, mem, ?_⟩
      have scope : s.scope = .exporter := by rw [(all_spec s mem).2.2.2, source]; rfl
      rw [Series.samples, if_pos scope, source]
      exact List.mem_singleton_self _

/-- A body of these lines is those families. -/
theorem exposes {body : Bytes} (reads : readBody body = some (ALL.flatMap (Series.lines engines exporter)))
    (distinct : (engines.map EngineView.name).Nodup) (fit : ∀ e ∈ engines, e.Fits events) :
    Exposes body (families engines exporter) where
  reads := by rw [reads, families, families_flatMap]; rfl
  filled f mem := by
    obtain ⟨s, -, rfl, filled⟩ := mem_families.mp mem
    exact filled
  named f mem x at_ := by
    obtain ⟨s, -, rfl, -⟩ := mem_families.mp mem
    exact samples_named x at_
  once := by
    have names : (ALL.map (Series.family engines exporter)).map Family.name = ALL.map Series.name :=
      List.map_map
    have := all_once
    rw [← names] at this
    exact this.sublist (List.filter_sublist.map _)
  distinct := by
    show (((families engines exporter).flatMap Family.samples).map key).Nodup
    rw [families_samples, List.map_flatMap, List.nodup_flatMap]
    refine ⟨fun s _ => samples_once s distinct fit, (List.pairwise_map.mp all_once).imp ?_⟩
    intro a b other x left right
    obtain ⟨p, inA, rfl⟩ := List.mem_map.mp left
    obtain ⟨q, inB, eq⟩ := List.mem_map.mp right
    refine other ?_
    rw [← samples_named p inA, ← samples_named q inB]
    exact (Prod.mk.inj eq).1.symm

/-- A scrape of engines with distinct names, into a buffer with the room `capacityFor` gives, succeeds
without growing it. Its body reads back as families of the table's series, each in one piece, and their
samples are exactly what the engines and the exporter have to say, each once. -/
theorem scrape_says (engines : List EngineView) (exporter : ExporterView) (events : Bool) (out : Vec)
    (distinct : (engines.map EngineView.name).Nodup) (fit : ∀ e ∈ engines, e.Fits events)
    (room : capacityFor (engines.map EngineView.name) events ≤ out.capacity) :
    ∃ out' families, encode out engines exporter = .ok out' ∧ out'.capacity = out.capacity ∧
      Exposes out'.bytes families ∧
      (∀ f ∈ families, ∃ s ∈ ALL, f.name = s.name ∧ f.doc = s.help ∧ f.kind = s.kind.asStr) ∧
      ∀ x, x ∈ families.flatMap Family.samples ↔ Told engines exporter x := by
  obtain ⟨texts, spells, puts, short⟩ := prints_all fit exporter
  have fits : out.clear.bytes.length + (texts.flatMap (· ++ [newline])).length ≤
      out.clear.capacity := by
    show 0 + _ ≤ out.capacity
    omega
  have written := Vec.extendFromSlice_eq fits
  refine ⟨_, families engines exporter, ?_, written.2, ?_, ?_, fun x => mem_samples_iff⟩
  · exact (puts out.clear).trans (by rw [Out.put_eq, if_pos fits])
  · refine exposes ?_ distinct fit
    rw [written.1]
    exact readBody_spelled spells
  · intro f mem
    obtain ⟨s, held, rfl, -⟩ := mem_families.mp mem
    exact ⟨s, held, rfl, rfl, rfl⟩

/-- Two engines, one of them named with what has to be escaped. -/
def twoEngines : List EngineView :=
  [{ name := [0x22, 0x5C, 0x0A], published := 7, eventsLost := 0, ageMs := some 1500,
     numbers := some ⟨true, 1, 1, false, 0, 0, 0, 0, none, some (1, 8)⟩,
     sessions := [⟨7, true, 5, 6, some (-999), false, 0, 0⟩, ⟨8, false, 1, 1, none, true, 0, 0⟩],
     events := some ⟨Vector.replicate _ 2, Vector.replicate _ 3⟩ },
   { name := [0x62], published := 0, eventsLost := 0, ageMs := none, numbers := none, sessions := [],
     events := none }]

theorem scrape_says_two :
    ∃ out' families, encode (Vec.withCapacity (capacityFor (twoEngines.map EngineView.name) true))
        twoEngines ⟨3, 1⟩ = .ok out' ∧
      out'.capacity = capacityFor (twoEngines.map EngineView.name) true ∧
      Exposes out'.bytes families ∧
      (∀ f ∈ families, ∃ s ∈ ALL, f.name = s.name ∧ f.doc = s.help ∧ f.kind = s.kind.asStr) ∧
      ∀ x, x ∈ families.flatMap Family.samples ↔ Told twoEngines ⟨3, 1⟩ x :=
  scrape_says twoEngines ⟨3, 1⟩ true
    (Vec.withCapacity (capacityFor (twoEngines.map EngineView.name) true)) (by decide)
    (List.forall_mem_cons.mpr ⟨⟨by decide, by decide, fun _ => rfl⟩,
      List.forall_mem_singleton.mpr ⟨by decide, by decide, fun _ => rfl⟩⟩)
    (Nat.le_refl _)

end Metrics

end Fixbolt
