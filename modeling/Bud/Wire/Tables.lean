import Bud.Wire.Codec

/-!
# The tables of the two codecs

`encodeFieldLevelPayload` and `decodeFieldLevelPayload` of `wire.ts`, and their counterparts in
`proto_wire.rs`, message by message. The service has a table for every frame type in both
directions. The daemon sends its terminal frames as JSON, and has tables only for the terminal
frames it is sent.
-/

namespace Bud.Wire

/-- `FIELD_LEVEL_FRAME_TYPES`. -/
inductive FrameType where
  | error
  | hello
  | helloAck
  | helloChallenge
  | helloProof
  | heartbeat
  | heartbeatAck
  | terminalEnsure
  | terminalStatus
  | terminalInput
  | terminalResize
  | terminalClose
  | terminalSend
  | terminalSendResult
  | terminalObserve
  | terminalObserveResult
  | terminalOutput
  | terminalEvent
  | reconnectReport
  | reconciliationDecision
  | dataAttach
  | dataAttachAck
  | streamData
  | streamCredit
  | streamReset
  | streamClose
  deriving DecidableEq

namespace FrameType

def all : List FrameType :=
  [.error, .hello, .helloAck, .helloChallenge, .helloProof, .heartbeat, .heartbeatAck,
    .terminalEnsure, .terminalStatus, .terminalInput, .terminalResize, .terminalClose,
    .terminalSend, .terminalSendResult, .terminalObserve, .terminalObserveResult, .terminalOutput,
    .terminalEvent, .reconnectReport, .reconciliationDecision, .dataAttach, .dataAttachAck,
    .streamData, .streamCredit, .streamReset, .streamClose]

def name : FrameType → String
  | .error => "error"
  | .hello => "hello"
  | .helloAck => "hello_ack"
  | .helloChallenge => "hello_challenge"
  | .helloProof => "hello_proof"
  | .heartbeat => "heartbeat"
  | .heartbeatAck => "heartbeat_ack"
  | .terminalEnsure => "terminal_ensure"
  | .terminalStatus => "terminal_status"
  | .terminalInput => "terminal_input"
  | .terminalResize => "terminal_resize"
  | .terminalClose => "terminal_close"
  | .terminalSend => "terminal_send"
  | .terminalSendResult => "terminal_send_result"
  | .terminalObserve => "terminal_observe"
  | .terminalObserveResult => "terminal_observe_result"
  | .terminalOutput => "terminal_output"
  | .terminalEvent => "terminal_event"
  | .reconnectReport => "reconnect_report"
  | .reconciliationDecision => "reconciliation_decision"
  | .dataAttach => "data_attach"
  | .dataAttachAck => "data_attach_ack"
  | .streamData => "stream_data"
  | .streamCredit => "stream_credit"
  | .streamReset => "stream_reset"
  | .streamClose => "stream_close"

def ofName? (name : String) : Option FrameType := all.find? fun frameType => frameType.name = name

end FrameType

/-! ### The service -/

namespace Ts

def typedPayloadFieldByFrameType : List (String × ℕ) :=
  [("error", 101), ("hello", 102), ("hello_ack", 103), ("hello_challenge", 104),
    ("hello_proof", 105), ("heartbeat", 106), ("heartbeat_ack", 107), ("terminal_ensure", 120),
    ("terminal_status", 121), ("terminal_input", 122), ("terminal_resize", 123),
    ("terminal_close", 124), ("terminal_send", 125), ("terminal_send_result", 126),
    ("terminal_observe", 127), ("terminal_observe_result", 128), ("terminal_output", 129),
    ("terminal_event", 131), ("reconnect_report", 150), ("reconciliation_decision", 151),
    ("data_attach", 170), ("data_attach_ack", 171), ("stream_data", 172), ("stream_credit", 173),
    ("stream_reset", 174), ("stream_close", 175), ("proxy_open", 176), ("proxy_open_result", 177),
    ("file_open", 178), ("file_open_result", 179), ("file_resolve", 180),
    ("file_resolve_result", 181), ("proxy_ws_open", 182), ("proxy_ws_open_result", 183),
    ("proxy_ws_message", 184), ("proxy_ws_close", 185), ("proxy_ws_error", 186),
    ("browser_command", 190), ("browser_result", 191)]

def frameTypeByTypedPayloadField : List (ℕ × String) :=
  typedPayloadFieldByFrameType.map fun entry => (entry.2, entry.1)

def streamTypeProtoValues : List (String × ℕ) :=
  [("terminal_interactive", 1), ("localhost_http_proxy", 2), ("file_read", 3),
    ("localhost_websocket_proxy", 4), ("local_llm_http", 5)]

def streamTypeJsonValues : List (ℕ × String) :=
  [(1, "terminal_interactive"), (2, "localhost_http_proxy"), (3, "file_read"),
    (4, "localhost_websocket_proxy"), (5, "local_llm_http")]

def operationStateProtoValues : List (String × ℕ) :=
  [("offered", 1), ("accepted", 2), ("rejected", 3), ("running", 4), ("succeeded", 5),
    ("failed", 6), ("canceled", 7), ("unknown", 8), ("expired", 9)]

def operationStateJsonValues : List (ℕ × String) :=
  [(1, "offered"), (2, "accepted"), (3, "rejected"), (4, "running"), (5, "succeeded"),
    (6, "failed"), (7, "canceled"), (8, "unknown"), (9, "expired")]

def streamStateProtoValues : List (String × ℕ) :=
  [("opening", 1), ("open", 2), ("half_closed_local", 3), ("half_closed_remote", 4), ("closed", 5),
    ("reset", 6), ("unknown", 7), ("expired", 8)]

def streamStateJsonValues : List (ℕ × String) :=
  [(1, "opening"), (2, "open"), (3, "half_closed_local"), (4, "half_closed_remote"), (5, "closed"),
    (6, "reset"), (7, "unknown"), (8, "expired")]

def streamResetReasonProtoValues : List (String × ℕ) :=
  [("canceled", 1), ("policy_denied", 2), ("transport_lost", 3), ("timeout", 4),
    ("backpressure", 5), ("protocol_error", 6), ("local_error", 7), ("remote_error", 8)]

def streamResetReasonJsonValues : List (ℕ × String) :=
  [(1, "canceled"), (2, "policy_denied"), (3, "transport_lost"), (4, "timeout"),
    (5, "backpressure"), (6, "protocol_error"), (7, "local_error"), (8, "remote_error")]

/-- `encodeBudError` and its siblings. -/
def encodeMessageTable : Message → List (Field Writer)
  | .budError =>
    [⟨1, "code", .optionalString⟩, ⟨2, "message", .optionalString⟩,
      ⟨3, "retryable", .optionalBool⟩, ⟨4, "details", .stringMap⟩]
  | .terminalEnsureConfig =>
    [⟨1, "shell", .optionalString⟩, ⟨2, "cwd", .optionalString⟩, ⟨3, "env", .stringMap⟩,
      ⟨4, "cols", .optionalUint32⟩, ⟨5, "rows", .optionalUint32⟩]
  | .operationStatus =>
    [⟨1, "operation_id", .optionalString⟩,
      ⟨2, "state", .optionalEnum operationStateProtoValues⟩,
      ⟨3, "error", .optionalMessage .budError⟩, ⟨4, "operation_type", .optionalString⟩,
      ⟨5, "updated_at", .optionalString⟩]
  | .streamStatus =>
    [⟨1, "stream_id", .optionalString⟩, ⟨2, "operation_id", .optionalString⟩,
      ⟨3, "stream_type", .optionalEnum streamTypeProtoValues⟩,
      ⟨4, "state", .optionalEnum streamStateProtoValues⟩,
      ⟨5, "send_offset", .optionalUint64⟩, ⟨6, "receive_offset", .optionalUint64⟩,
      ⟨7, "reset_reason", .optionalEnum streamResetReasonProtoValues⟩,
      ⟨8, "error", .optionalMessage .budError⟩, ⟨9, "updated_at", .optionalString⟩]

/-- `decodeBudError` and its siblings. -/
def decodeMessageTable : Message → List (Field Reader)
  | .budError =>
    [⟨1, "code", .string⟩, ⟨2, "message", .string⟩, ⟨3, "retryable", .bool⟩,
      ⟨4, "details", .mapEntry⟩]
  | .terminalEnsureConfig =>
    [⟨1, "shell", .string⟩, ⟨2, "cwd", .string⟩, ⟨3, "env", .mapEntry⟩, ⟨4, "cols", .number⟩,
      ⟨5, "rows", .number⟩]
  | .operationStatus =>
    [⟨1, "operation_id", .string⟩, ⟨2, "state", .enum operationStateJsonValues "unknown"⟩,
      ⟨3, "error", .message .budError⟩, ⟨4, "operation_type", .string⟩,
      ⟨5, "updated_at", .string⟩]
  | .streamStatus =>
    [⟨1, "stream_id", .string⟩, ⟨2, "operation_id", .string⟩,
      ⟨3, "stream_type", .enum streamTypeJsonValues "terminal_interactive"⟩,
      ⟨4, "state", .enum streamStateJsonValues "unknown"⟩, ⟨5, "send_offset", .safeUint64⟩,
      ⟨6, "receive_offset", .safeUint64⟩,
      ⟨7, "reset_reason", .enum streamResetReasonJsonValues "protocol_error"⟩,
      ⟨8, "error", .message .budError⟩, ⟨9, "updated_at", .string⟩]

/-- `encodeFieldLevelPayload`. -/
def encodeTable : FrameType → List (Field Writer)
  | .error =>
    [⟨1, "code", .optionalString⟩, ⟨2, "message", .optionalString⟩,
      ⟨3, "retryable", .optionalBool⟩, ⟨4, "details", .stringMap⟩]
  | .hello =>
    [⟨1, "name", .optionalString⟩, ⟨2, "os", .optionalString⟩, ⟨3, "arch", .optionalString⟩,
      ⟨4, "version", .optionalString⟩, ⟨5, "installation_id", .optionalString⟩,
      ⟨6, "token", .optionalString⟩, ⟨7, "bud_id", .optionalString⟩,
      ⟨8, "capabilities", .optionalJsonBytes⟩]
  | .helloAck =>
    [⟨1, "session_id", .optionalString⟩, ⟨2, "bud_id", .optionalString⟩,
      ⟨3, "heartbeat_sec", .optionalUint32⟩, ⟨4, "device_secret", .optionalString⟩]
  | .helloChallenge => [⟨1, "nonce", .optionalString⟩]
  | .helloProof => [⟨1, "bud_id", .optionalString⟩, ⟨2, "hmac", .optionalString⟩]
  | .heartbeat | .heartbeatAck => [⟨1, "session_id", .optionalString⟩]
  | .terminalEnsure =>
    [⟨1, "session_id", .optionalString⟩, ⟨2, "config", .optionalMessage .terminalEnsureConfig⟩,
      ⟨3, "resume_from_offset", .optionalUint64⟩]
  | .terminalStatus =>
    [⟨1, "session_id", .optionalString⟩, ⟨2, "state", .optionalString⟩,
      ⟨3, "info", .optionalJsonBytes⟩]
  | .terminalInput =>
    [⟨1, "session_id", .optionalString⟩, ⟨2, "data", .optionalBase64Bytes⟩,
      ⟨4, "input_seq", .optionalUint64⟩]
  | .terminalResize =>
    [⟨1, "session_id", .optionalString⟩, ⟨2, "cols", .optionalUint32⟩,
      ⟨3, "rows", .optionalUint32⟩]
  | .terminalClose => [⟨1, "session_id", .optionalString⟩, ⟨2, "reason", .optionalString⟩]
  | .terminalSend =>
    [⟨1, "session_id", .optionalString⟩, ⟨2, "request_id", .optionalString⟩,
      ⟨3, "text", .optionalString⟩, ⟨4, "submit", .optionalBool⟩, ⟨5, "key", .optionalString⟩,
      ⟨9, "await", .optionalString⟩]
  | .terminalSendResult =>
    [⟨1, "session_id", .optionalString⟩, ⟨2, "request_id", .optionalString⟩,
      ⟨6, "error", .optionalNullableString⟩, ⟨8, "dispatched", .optionalBool⟩,
      ⟨9, "outcome", .optionalJsonBytes⟩]
  | .terminalObserve =>
    [⟨1, "session_id", .optionalString⟩, ⟨2, "request_id", .optionalString⟩,
      ⟨3, "view", .optionalString⟩, ⟨4, "lines", .optionalInt32⟩, ⟨7, "await", .optionalString⟩,
      ⟨8, "quiet_ms", .optionalUint64⟩]
  | .terminalObserveResult =>
    [⟨1, "session_id", .optionalString⟩, ⟨2, "request_id", .optionalString⟩,
      ⟨3, "view", .optionalString⟩, ⟨4, "output", .optionalBase64Bytes⟩,
      ⟨6, "lines_captured", .optionalUint64⟩, ⟨7, "changed", .optionalBool⟩,
      ⟨10, "error", .optionalNullableString⟩, ⟨12, "mode", .optionalString⟩,
      ⟨13, "integration", .optionalString⟩, ⟨14, "alt_screen", .optionalBool⟩,
      ⟨15, "cursor_row", .optionalUint32⟩, ⟨16, "cursor_col", .optionalUint32⟩]
  | .terminalOutput =>
    [⟨1, "session_id", .optionalString⟩, ⟨3, "data", .optionalBase64Bytes⟩,
      ⟨4, "byte_offset", .optionalUint64⟩]
  | .terminalEvent =>
    [⟨1, "session_id", .optionalString⟩, ⟨2, "event", .optionalString⟩,
      ⟨3, "data", .optionalJsonBytes⟩]
  | .reconnectReport =>
    [⟨1, "bud_id", .optionalString⟩, ⟨2, "device_session_id", .optionalString⟩,
      ⟨3, "operations", .repeatedMessages .operationStatus⟩,
      ⟨4, "streams", .repeatedMessages .streamStatus⟩,
      ⟨5, "local_policy_version", .optionalString⟩, ⟨6, "terminal_sessions", .repeatedStrings⟩]
  | .reconciliationDecision =>
    [⟨1, "operations", .repeatedMessages .operationStatus⟩,
      ⟨2, "streams", .repeatedMessages .streamStatus⟩]
  | .dataAttach =>
    [⟨1, "bud_id", .optionalString⟩, ⟨2, "device_session_id", .optionalString⟩,
      ⟨3, "control_transport_session_id", .optionalString⟩, ⟨4, "streams", .repeatedStrings⟩,
      ⟨5, "max_chunk_bytes", .optionalUint32⟩, ⟨6, "initial_credit_bytes", .optionalUint64⟩]
  | .dataAttachAck =>
    [⟨1, "bud_id", .optionalString⟩, ⟨2, "device_session_id", .optionalString⟩,
      ⟨3, "transport_session_id", .optionalString⟩, ⟨4, "streams", .repeatedStrings⟩,
      ⟨5, "max_chunk_bytes", .optionalUint32⟩, ⟨6, "initial_credit_bytes", .optionalUint64⟩]
  | .streamData =>
    [⟨1, "stream_id", .optionalString⟩,
      ⟨2, "stream_type", .optionalEnum streamTypeProtoValues⟩, ⟨3, "offset", .optionalUint64⟩,
      ⟨4, "data", .optionalBase64Bytes⟩, ⟨5, "end_stream", .optionalBool⟩]
  | .streamCredit =>
    [⟨1, "stream_id", .optionalString⟩, ⟨2, "receive_offset", .optionalUint64⟩,
      ⟨3, "credit_bytes", .optionalUint64⟩]
  | .streamReset =>
    [⟨1, "stream_id", .optionalString⟩,
      ⟨2, "reason", .optionalEnum streamResetReasonProtoValues⟩,
      ⟨3, "error", .optionalMessage .budError⟩]
  | .streamClose => [⟨1, "stream_id", .optionalString⟩, ⟨2, "final_offset", .optionalUint64⟩]

/-- `decodeFieldLevelPayload`. -/
def decodeTable : FrameType → List (Field Reader)
  | .error =>
    [⟨1, "code", .string⟩, ⟨2, "message", .string⟩, ⟨3, "retryable", .bool⟩,
      ⟨4, "details", .mapEntry⟩]
  | .hello =>
    [⟨1, "name", .string⟩, ⟨2, "os", .string⟩, ⟨3, "arch", .string⟩, ⟨4, "version", .string⟩,
      ⟨5, "installation_id", .string⟩, ⟨6, "token", .string⟩, ⟨7, "bud_id", .string⟩,
      ⟨8, "capabilities", .json⟩]
  | .helloAck =>
    [⟨1, "session_id", .string⟩, ⟨2, "bud_id", .string⟩, ⟨3, "heartbeat_sec", .number⟩,
      ⟨4, "device_secret", .string⟩]
  | .helloChallenge => [⟨1, "nonce", .string⟩]
  | .helloProof => [⟨1, "bud_id", .string⟩, ⟨2, "hmac", .string⟩]
  | .heartbeat | .heartbeatAck => [⟨1, "session_id", .string⟩]
  | .terminalEnsure =>
    [⟨1, "session_id", .string⟩, ⟨2, "config", .message .terminalEnsureConfig⟩,
      ⟨3, "resume_from_offset", .safeUint64⟩]
  | .terminalStatus => [⟨1, "session_id", .string⟩, ⟨2, "state", .string⟩, ⟨3, "info", .json⟩]
  | .terminalInput =>
    [⟨1, "session_id", .string⟩, ⟨2, "data", .base64⟩, ⟨4, "input_seq", .safeUint64⟩]
  | .terminalResize => [⟨1, "session_id", .string⟩, ⟨2, "cols", .number⟩, ⟨3, "rows", .number⟩]
  | .terminalClose => [⟨1, "session_id", .string⟩, ⟨2, "reason", .string⟩]
  | .terminalSend =>
    [⟨1, "session_id", .string⟩, ⟨2, "request_id", .string⟩, ⟨3, "text", .string⟩,
      ⟨4, "submit", .bool⟩, ⟨5, "key", .string⟩, ⟨9, "await", .string⟩]
  | .terminalSendResult =>
    [⟨1, "session_id", .string⟩, ⟨2, "request_id", .string⟩, ⟨6, "error", .string⟩,
      ⟨8, "dispatched", .bool⟩, ⟨9, "outcome", .json⟩]
  | .terminalObserve =>
    [⟨1, "session_id", .string⟩, ⟨2, "request_id", .string⟩, ⟨3, "view", .string⟩,
      ⟨4, "lines", .int32⟩, ⟨7, "await", .string⟩, ⟨8, "quiet_ms", .safeUint64⟩]
  | .terminalObserveResult =>
    [⟨1, "session_id", .string⟩, ⟨2, "request_id", .string⟩, ⟨3, "view", .string⟩,
      ⟨4, "output", .base64⟩, ⟨6, "lines_captured", .safeUint64⟩, ⟨7, "changed", .bool⟩,
      ⟨10, "error", .string⟩, ⟨12, "mode", .string⟩, ⟨13, "integration", .string⟩,
      ⟨14, "alt_screen", .bool⟩, ⟨15, "cursor_row", .number⟩, ⟨16, "cursor_col", .number⟩]
  | .terminalOutput =>
    [⟨1, "session_id", .string⟩, ⟨3, "data", .base64⟩, ⟨4, "byte_offset", .safeUint64⟩]
  | .terminalEvent => [⟨1, "session_id", .string⟩, ⟨2, "event", .string⟩, ⟨3, "data", .json⟩]
  | .reconnectReport =>
    [⟨1, "bud_id", .string⟩, ⟨2, "device_session_id", .string⟩,
      ⟨3, "operations", .pushMessage .operationStatus⟩,
      ⟨4, "streams", .pushMessage .streamStatus⟩, ⟨5, "local_policy_version", .string⟩,
      ⟨6, "terminal_sessions", .pushString⟩]
  | .reconciliationDecision =>
    [⟨1, "operations", .pushMessage .operationStatus⟩,
      ⟨2, "streams", .pushMessage .streamStatus⟩]
  | .dataAttach =>
    [⟨1, "bud_id", .string⟩, ⟨2, "device_session_id", .string⟩,
      ⟨3, "control_transport_session_id", .string⟩, ⟨4, "streams", .pushString⟩,
      ⟨5, "max_chunk_bytes", .number⟩, ⟨6, "initial_credit_bytes", .safeUint64⟩]
  | .dataAttachAck =>
    [⟨1, "bud_id", .string⟩, ⟨2, "device_session_id", .string⟩,
      ⟨3, "transport_session_id", .string⟩, ⟨4, "streams", .pushString⟩,
      ⟨5, "max_chunk_bytes", .number⟩, ⟨6, "initial_credit_bytes", .safeUint64⟩]
  | .streamData =>
    [⟨1, "stream_id", .string⟩,
      ⟨2, "stream_type", .enum streamTypeJsonValues "terminal_interactive"⟩,
      ⟨3, "offset", .safeUint64⟩, ⟨4, "data", .base64⟩, ⟨5, "end_stream", .bool⟩]
  | .streamCredit =>
    [⟨1, "stream_id", .string⟩, ⟨2, "receive_offset", .safeUint64⟩,
      ⟨3, "credit_bytes", .safeUint64⟩]
  | .streamReset =>
    [⟨1, "stream_id", .string⟩,
      ⟨2, "reason", .enum streamResetReasonJsonValues "protocol_error"⟩,
      ⟨3, "error", .message .budError⟩]
  | .streamClose => [⟨1, "stream_id", .string⟩, ⟨2, "final_offset", .safeUint64⟩]

end Ts

/-! ### The daemon -/

namespace Rs

def payloadFieldForFrameType : List (String × ℕ) :=
  [("error", 101), ("hello", 102), ("hello_ack", 103), ("hello_challenge", 104),
    ("hello_proof", 105), ("heartbeat", 106), ("heartbeat_ack", 107), ("terminal_ensure", 120),
    ("terminal_status", 121), ("terminal_input", 122), ("terminal_resize", 123),
    ("terminal_close", 124), ("terminal_send", 125), ("terminal_send_result", 126),
    ("terminal_observe", 127), ("terminal_observe_result", 128), ("terminal_output", 129),
    ("reconnect_report", 150), ("reconciliation_decision", 151), ("data_attach", 170),
    ("data_attach_ack", 171), ("stream_data", 172), ("stream_credit", 173), ("stream_reset", 174),
    ("stream_close", 175), ("proxy_open", 176), ("proxy_open_result", 177), ("file_open", 178),
    ("file_open_result", 179), ("file_resolve", 180), ("file_resolve_result", 181),
    ("proxy_ws_open", 182), ("proxy_ws_open_result", 183), ("proxy_ws_message", 184),
    ("proxy_ws_close", 185), ("proxy_ws_error", 186), ("browser_command", 190),
    ("browser_result", 191)]

def frameTypeForPayloadField : List (ℕ × String) :=
  [(101, "error"), (102, "hello"), (103, "hello_ack"), (104, "hello_challenge"),
    (105, "hello_proof"), (106, "heartbeat"), (107, "heartbeat_ack"), (120, "terminal_ensure"),
    (121, "terminal_status"), (122, "terminal_input"), (123, "terminal_resize"),
    (124, "terminal_close"), (125, "terminal_send"), (126, "terminal_send_result"),
    (127, "terminal_observe"), (128, "terminal_observe_result"), (129, "terminal_output"),
    (150, "reconnect_report"), (151, "reconciliation_decision"), (170, "data_attach"),
    (171, "data_attach_ack"), (172, "stream_data"), (173, "stream_credit"), (174, "stream_reset"),
    (175, "stream_close"), (176, "proxy_open"), (177, "proxy_open_result"), (178, "file_open"),
    (179, "file_open_result"), (180, "file_resolve"), (181, "file_resolve_result"),
    (182, "proxy_ws_open"), (183, "proxy_ws_open_result"), (184, "proxy_ws_message"),
    (185, "proxy_ws_close"), (186, "proxy_ws_error"), (190, "browser_command"),
    (191, "browser_result")]

def operationStateProto : List (String × ℕ) :=
  [("offered", 1), ("accepted", 2), ("rejected", 3), ("running", 4), ("succeeded", 5),
    ("failed", 6), ("canceled", 7), ("unknown", 8), ("expired", 9)]

/-- All other values are `unknown`. -/
def operationStateJson : List (ℕ × String) :=
  [(1, "offered"), (2, "accepted"), (3, "rejected"), (4, "running"), (5, "succeeded"),
    (6, "failed"), (7, "canceled"), (9, "expired")]

def streamTypeProto : List (String × ℕ) :=
  [("terminal_interactive", 1), ("localhost_http_proxy", 2), ("file_read", 3),
    ("localhost_websocket_proxy", 4), ("local_llm_http", 5)]

/-- All other values are `terminal_interactive`. -/
def streamTypeJson : List (ℕ × String) :=
  [(2, "localhost_http_proxy"), (3, "file_read"), (4, "localhost_websocket_proxy"),
    (5, "local_llm_http")]

def streamStateProto : List (String × ℕ) :=
  [("opening", 1), ("open", 2), ("half_closed_local", 3), ("half_closed_remote", 4), ("closed", 5),
    ("reset", 6), ("unknown", 7), ("expired", 8)]

/-- All other values are `unknown`. -/
def streamStateJson : List (ℕ × String) :=
  [(1, "opening"), (2, "open"), (3, "half_closed_local"), (4, "half_closed_remote"), (5, "closed"),
    (6, "reset"), (8, "expired")]

def streamResetReasonProto : List (String × ℕ) :=
  [("canceled", 1), ("policy_denied", 2), ("transport_lost", 3), ("timeout", 4),
    ("backpressure", 5), ("protocol_error", 6), ("local_error", 7), ("remote_error", 8)]

/-- All other values are `protocol_error`. -/
def streamResetReasonJson : List (ℕ × String) :=
  [(1, "canceled"), (2, "policy_denied"), (3, "transport_lost"), (4, "timeout"),
    (5, "backpressure"), (7, "local_error"), (8, "remote_error")]

/-- `encode_bud_error` and its siblings; the daemon never sends a configuration. -/
def encodeMessageTable : Message → List (Field Writer)
  | .budError =>
    [⟨1, "code", .optionalString⟩, ⟨2, "message", .optionalString⟩,
      ⟨3, "retryable", .optionalBool⟩, ⟨4, "details", .stringMap⟩]
  | .terminalEnsureConfig => []
  | .operationStatus =>
    [⟨1, "operation_id", .optionalString⟩, ⟨2, "state", .optionalEnum operationStateProto⟩,
      ⟨3, "error", .optionalMessage .budError⟩, ⟨4, "operation_type", .optionalString⟩,
      ⟨5, "updated_at", .optionalString⟩]
  | .streamStatus =>
    [⟨1, "stream_id", .optionalString⟩, ⟨2, "operation_id", .optionalString⟩,
      ⟨3, "stream_type", .optionalEnum streamTypeProto⟩,
      ⟨4, "state", .optionalEnum streamStateProto⟩, ⟨5, "send_offset", .optionalUint64⟩,
      ⟨6, "receive_offset", .optionalUint64⟩,
      ⟨7, "reset_reason", .optionalEnum streamResetReasonProto⟩,
      ⟨8, "error", .optionalMessage .budError⟩, ⟨9, "updated_at", .optionalString⟩]

/-- `decode_bud_error` and its siblings. -/
def decodeMessageTable : Message → List (Field Reader)
  | .budError =>
    [⟨1, "code", .string⟩, ⟨2, "message", .string⟩, ⟨3, "retryable", .bool⟩,
      ⟨4, "details", .mapEntry⟩]
  | .terminalEnsureConfig =>
    [⟨1, "shell", .string⟩, ⟨2, "cwd", .string⟩, ⟨3, "env", .mapEntry⟩, ⟨4, "cols", .number⟩,
      ⟨5, "rows", .number⟩]
  | .operationStatus =>
    [⟨1, "operation_id", .string⟩, ⟨2, "state", .enum operationStateJson "unknown"⟩,
      ⟨3, "error", .message .budError⟩, ⟨4, "operation_type", .string⟩,
      ⟨5, "updated_at", .string⟩]
  | .streamStatus =>
    [⟨1, "stream_id", .string⟩, ⟨2, "operation_id", .string⟩,
      ⟨3, "stream_type", .enum streamTypeJson "terminal_interactive"⟩,
      ⟨4, "state", .enum streamStateJson "unknown"⟩, ⟨5, "send_offset", .number⟩,
      ⟨6, "receive_offset", .number⟩,
      ⟨7, "reset_reason", .enum streamResetReasonJson "protocol_error"⟩,
      ⟨8, "error", .message .budError⟩, ⟨9, "updated_at", .string⟩]

/-- `encode_field_level_payload`; it has nothing for terminal frames. -/
def encodeTable : FrameType → Option (List (Field Writer))
  | .error => some
    [⟨1, "code", .optionalString⟩, ⟨2, "message", .optionalString⟩,
      ⟨3, "retryable", .optionalBool⟩, ⟨4, "details", .stringMap⟩]
  | .hello => some
    [⟨1, "name", .optionalString⟩, ⟨2, "os", .optionalString⟩, ⟨3, "arch", .optionalString⟩,
      ⟨4, "version", .optionalString⟩, ⟨5, "installation_id", .optionalString⟩,
      ⟨6, "token", .optionalString⟩, ⟨7, "bud_id", .optionalString⟩,
      ⟨8, "capabilities", .optionalJsonBytes⟩]
  | .helloAck => some
    [⟨1, "session_id", .optionalString⟩, ⟨2, "bud_id", .optionalString⟩,
      ⟨3, "heartbeat_sec", .optionalUint32⟩, ⟨4, "device_secret", .optionalString⟩]
  | .helloChallenge => some [⟨1, "nonce", .optionalString⟩]
  | .helloProof => some [⟨1, "bud_id", .optionalString⟩, ⟨2, "hmac", .optionalString⟩]
  | .heartbeat | .heartbeatAck => some [⟨1, "session_id", .optionalString⟩]
  | .reconnectReport => some
    [⟨1, "bud_id", .optionalString⟩, ⟨2, "device_session_id", .optionalString⟩,
      ⟨3, "operations", .repeatedMessages .operationStatus⟩,
      ⟨4, "streams", .repeatedMessages .streamStatus⟩,
      ⟨5, "local_policy_version", .optionalString⟩, ⟨6, "terminal_sessions", .repeatedStrings⟩]
  | .reconciliationDecision => some
    [⟨1, "operations", .repeatedMessages .operationStatus⟩,
      ⟨2, "streams", .repeatedMessages .streamStatus⟩]
  | .dataAttach => some
    [⟨1, "bud_id", .optionalString⟩, ⟨2, "device_session_id", .optionalString⟩,
      ⟨3, "control_transport_session_id", .optionalString⟩, ⟨4, "streams", .repeatedStrings⟩,
      ⟨5, "max_chunk_bytes", .optionalUint32⟩, ⟨6, "initial_credit_bytes", .optionalUint64⟩]
  | .dataAttachAck => some
    [⟨1, "bud_id", .optionalString⟩, ⟨2, "device_session_id", .optionalString⟩,
      ⟨3, "transport_session_id", .optionalString⟩, ⟨4, "streams", .repeatedStrings⟩,
      ⟨5, "max_chunk_bytes", .optionalUint32⟩, ⟨6, "initial_credit_bytes", .optionalUint64⟩]
  | .streamData => some
    [⟨1, "stream_id", .optionalString⟩, ⟨2, "stream_type", .optionalEnum streamTypeProto⟩,
      ⟨3, "offset", .optionalUint64⟩, ⟨4, "data", .optionalBase64Bytes⟩,
      ⟨5, "end_stream", .optionalBool⟩]
  | .streamCredit => some
    [⟨1, "stream_id", .optionalString⟩, ⟨2, "receive_offset", .optionalUint64⟩,
      ⟨3, "credit_bytes", .optionalUint64⟩]
  | .streamReset => some
    [⟨1, "stream_id", .optionalString⟩, ⟨2, "reason", .optionalEnum streamResetReasonProto⟩,
      ⟨3, "error", .optionalMessage .budError⟩]
  | .streamClose => some
    [⟨1, "stream_id", .optionalString⟩, ⟨2, "final_offset", .optionalUint64⟩]
  | .terminalEnsure | .terminalStatus | .terminalInput | .terminalResize | .terminalClose
  | .terminalSend | .terminalSendResult | .terminalObserve | .terminalObserveResult
  | .terminalOutput | .terminalEvent => none

/-- `is_field_level_frame_type` and `decode_field_level_payload`. -/
def decodeTable : FrameType → Option (List (Field Reader))
  | .error => some
    [⟨1, "code", .string⟩, ⟨2, "message", .string⟩, ⟨3, "retryable", .bool⟩,
      ⟨4, "details", .mapEntry⟩]
  | .hello => some
    [⟨1, "name", .string⟩, ⟨2, "os", .string⟩, ⟨3, "arch", .string⟩, ⟨4, "version", .string⟩,
      ⟨5, "installation_id", .string⟩, ⟨6, "token", .string⟩, ⟨7, "bud_id", .string⟩,
      ⟨8, "capabilities", .json⟩]
  | .helloAck => some
    [⟨1, "session_id", .string⟩, ⟨2, "bud_id", .string⟩, ⟨3, "heartbeat_sec", .number⟩,
      ⟨4, "device_secret", .string⟩]
  | .helloChallenge => some [⟨1, "nonce", .string⟩]
  | .helloProof => some [⟨1, "bud_id", .string⟩, ⟨2, "hmac", .string⟩]
  | .heartbeat | .heartbeatAck => some [⟨1, "session_id", .string⟩]
  | .terminalEnsure => some
    [⟨1, "session_id", .string⟩, ⟨2, "config", .message .terminalEnsureConfig⟩,
      ⟨3, "resume_from_offset", .number⟩]
  | .terminalInput => some
    [⟨1, "session_id", .string⟩, ⟨2, "data", .base64⟩, ⟨4, "input_seq", .number⟩]
  | .terminalResize => some
    [⟨1, "session_id", .string⟩, ⟨2, "cols", .number⟩, ⟨3, "rows", .number⟩]
  | .terminalClose => some [⟨1, "session_id", .string⟩, ⟨2, "reason", .string⟩]
  | .terminalSend => some
    [⟨1, "session_id", .string⟩, ⟨2, "request_id", .string⟩, ⟨3, "text", .string⟩,
      ⟨4, "submit", .bool⟩, ⟨5, "key", .string⟩, ⟨9, "await", .string⟩]
  | .terminalObserve => some
    [⟨1, "session_id", .string⟩, ⟨2, "request_id", .string⟩, ⟨3, "view", .string⟩,
      ⟨4, "lines", .int32⟩, ⟨7, "await", .string⟩, ⟨8, "quiet_ms", .number⟩]
  | .reconnectReport => some
    [⟨1, "bud_id", .string⟩, ⟨2, "device_session_id", .string⟩,
      ⟨3, "operations", .pushMessage .operationStatus⟩,
      ⟨4, "streams", .pushMessage .streamStatus⟩, ⟨5, "local_policy_version", .string⟩,
      ⟨6, "terminal_sessions", .pushString⟩]
  | .reconciliationDecision => some
    [⟨1, "operations", .pushMessage .operationStatus⟩,
      ⟨2, "streams", .pushMessage .streamStatus⟩]
  | .dataAttach => some
    [⟨1, "bud_id", .string⟩, ⟨2, "device_session_id", .string⟩,
      ⟨3, "control_transport_session_id", .string⟩, ⟨4, "streams", .pushString⟩,
      ⟨5, "max_chunk_bytes", .number⟩, ⟨6, "initial_credit_bytes", .number⟩]
  | .dataAttachAck => some
    [⟨1, "bud_id", .string⟩, ⟨2, "device_session_id", .string⟩,
      ⟨3, "transport_session_id", .string⟩, ⟨4, "streams", .pushString⟩,
      ⟨5, "max_chunk_bytes", .number⟩, ⟨6, "initial_credit_bytes", .number⟩]
  | .streamData => some
    [⟨1, "stream_id", .string⟩,
      ⟨2, "stream_type", .enum streamTypeJson "terminal_interactive"⟩, ⟨3, "offset", .number⟩,
      ⟨4, "data", .base64⟩, ⟨5, "end_stream", .bool⟩]
  | .streamCredit => some
    [⟨1, "stream_id", .string⟩, ⟨2, "receive_offset", .number⟩, ⟨3, "credit_bytes", .number⟩]
  | .streamReset => some
    [⟨1, "stream_id", .string⟩, ⟨2, "reason", .enum streamResetReasonJson "protocol_error"⟩,
      ⟨3, "error", .message .budError⟩]
  | .streamClose => some [⟨1, "stream_id", .string⟩, ⟨2, "final_offset", .number⟩]
  | .terminalStatus | .terminalSendResult | .terminalObserveResult | .terminalOutput
  | .terminalEvent => none

end Rs

end Bud.Wire
