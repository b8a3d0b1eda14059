import Fixbolt.Codec.Bytes

/-!
# Every series a scrape prints

Its name, its type, which labels its samples carry, where they come from and its help: `ALL`, in the
order a scrape prints them.
-/

namespace Fixbolt

namespace Metrics

/-- A metric type. -/
inductive Kind where
  | gauge
  | counter
deriving DecidableEq

/-- The word on the `# TYPE` line. -/
def Kind.asStr : Kind → Bytes
  | .gauge => ascii "gauge"
  | .counter => ascii "counter"

/-- Which labels a series carries, and so how many samples it has per engine. -/
inductive Scope where
  | exporter
  | engine
  | session
  | eventKind
  | reason
deriving DecidableEq

/-- Where a series' value comes from. -/
inductive Source where
  | snapshotAvailable
  | snapshotAge
  | published
  | healthy
  | connections
  | sessionsLoggedOn
  | truncated
  | refused
  | unframeable
  | sourcesMissing
  | logLost
  | eventsLost
  | ringUsed
  | ringCapacity
  | presessionUsed
  | presessionCapacity
  | sessionLoggedOn
  | sessionNextOut
  | sessionNextIn
  | sessionSkew
  | sessionPendingOutput
  | sessionJournalRefused
  | sessionResendBeyond
  | events
  | sessionEnds
  | scrapes
  | badRequests
deriving DecidableEq

/-- One series. -/
structure Series where
  name : Bytes
  kind : Kind
  scope : Scope
  source : Source
  help : Bytes
deriving DecidableEq

/-- The bytes of a literal, character by character. -/
theorem ascii_ofList (cs : List Char) :
    ascii (String.ofList cs) = cs.map fun c => c.toNat.toUInt8 := by simp [ascii]

/-- A series with its name and its help as text. -/
def series (name : String) (kind : Kind) (scope : Scope) (source : Source) (help : String) :
    Series :=
  ⟨ascii name, kind, scope, source, ascii help⟩

/-- Every series, in the order a scrape prints them. -/
def ALL : List Series := [
  series "fixbolt_snapshot_available" .gauge .engine .snapshotAvailable
    "1 once the engine has published a snapshot; every series read off a snapshot is absent until then",
  series "fixbolt_snapshot_age_seconds" .gauge .engine .snapshotAge
    "Seconds since the exporter last saw the engine publish; grows while a standard engine sleeps",
  series "fixbolt_snapshots_published_total" .counter .engine .published
    "Snapshots the engine has built; flat while asked means the engine is not turning",
  series "fixbolt_healthy" .gauge .engine .healthy
    "1 when Snapshot::healthy(): at least one session, all logged on, no refusal and no missing source",
  series "fixbolt_connections" .gauge .engine .connections
    "Connections the engine holds",
  series "fixbolt_sessions_logged_on" .gauge .engine .sessionsLoggedOn
    "Sessions the snapshot describes that are logged on",
  series "fixbolt_snapshot_truncated" .gauge .engine .truncated
    "1 when the engine held more sessions than a snapshot carries (MAX_SESSIONS)",
  series "fixbolt_refused_connections_total" .counter .engine .refused
    "Connections ended because the dispatch would not take a message (ADR-0011); zero when healthy",
  series "fixbolt_unframeable_prelogon_total" .counter .engine .unframeable
    "Sockets dropped before Logon because their first message could not be framed",
  series "fixbolt_sources_missing_total" .counter .engine .sourcesMissing
    "Connections that claimed to be pollable and gave no descriptor; zero when healthy",
  series "fixbolt_message_log_lost_total" .counter .engine .logLost
    "Messages the message log never wrote; zero when healthy",
  series "fixbolt_events_lost_total" .counter .engine .eventsLost
    "Events never delivered to a reader: the event ring was full or busy",
  series "fixbolt_ring_to_app_used_bytes" .gauge .engine .ringUsed
    "Bytes waiting in the ring from the engine to the application; only under RingDispatch",
  series "fixbolt_ring_to_app_capacity_bytes" .gauge .engine .ringCapacity
    "Size of the ring from the engine to the application; a full ring ends the session (D10b)",
  series "fixbolt_presession_slots_used" .gauge .engine .presessionUsed
    "Pre-session slots taken: sockets waiting to send Logon plus connections parked for recovery",
  series "fixbolt_presession_slots_capacity" .gauge .engine .presessionCapacity
    "The pre-session ceiling, Limits::pending(); only behind a serve front door",
  series "fixbolt_session_logged_on" .gauge .session .sessionLoggedOn
    "1 when this session is logged on",
  series "fixbolt_session_next_out_seq_num" .gauge .session .sessionNextOut
    "The next outgoing MsgSeqNum(34) of this session",
  series "fixbolt_session_next_in_seq_num" .gauge .session .sessionNextIn
    "The next expected incoming MsgSeqNum(34) of this session",
  series "fixbolt_session_clock_skew_seconds" .gauge .session .sessionSkew
    "SendingTime(52) of the last message received minus the engine's clock; absent until measured",
  series "fixbolt_session_pending_output" .gauge .session .sessionPendingOutput
    "1 when this session has bytes queued that the socket has not taken",
  series "fixbolt_session_journal_refused_total" .counter .session .sessionJournalRefused
    "Outgoing messages the journal refused to record for this session",
  series "fixbolt_session_resend_beyond_journal_total" .counter .session .sessionResendBeyond
    "Resend requests reaching further back than this session's journal holds",
  series "fixbolt_events_total" .counter .eventKind .events
    "Events read from the engine, by kind; only when the exporter owns the event stream",
  series "fixbolt_session_ends_total" .counter .reason .sessionEnds
    "Sessions ended, by DropReason; only when the exporter owns the event stream",
  series "fixbolt_exporter_scrapes_total" .counter .exporter .scrapes
    "Requests for /metrics this exporter answered",
  series "fixbolt_exporter_bad_requests_total" .counter .exporter .badRequests
    "Requests this exporter refused: malformed, too large, too slow, wrong path or method"]

/-- The `kind` labels of `fixbolt_events_total`. -/
def EVENT_KINDS : List Bytes := [
  "logged_on", "ended", "ended_without_reason", "tls_fell_back_to_userspace", "administered",
  "resend_beyond_journal", "journal_refused", "journal_unwritten", "message_log_lost",
  "spoke_first_to_the_bound", "origination_undeliverable", "message_log_unsent",
  "tls_handshake_refused", "other"].map ascii

/-- The `reason` labels of `fixbolt_session_ends_total`, one per reason a session can end for. -/
def DROP_REASONS : List Bytes := [
  "wrong_begin_string", "not_a_logon", "logon_incomplete", "logon_without_default_appl_ver_id",
  "wrong_sender_comp_id", "wrong_target_comp_id", "sending_time_out_of_range", "never_ticked",
  "sequence_number_too_low", "next_expected_too_high", "outside_schedule", "cannot_send",
  "heartbeat_timeout", "logon_timed_out", "logout_timed_out", "peer_logout", "schedule_closed",
  "transport_closed", "duplicate_identity", "refused_by_deployment", "slow_application",
  "slow_consumer", "engine_shutdown"].map ascii

/-- How many `reason` samples a scrape prints: every `DROP_REASONS` entry, and `other`. -/
def REASONS : ℕ := DROP_REASONS.length + 1

/-- The `reason` label at `i`, `other` past the named ones. -/
def reasonLabel (i : ℕ) : Bytes := (DROP_REASONS[i]?).getD (ascii "other")

end Metrics

end Fixbolt
