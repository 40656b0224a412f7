import BvexLink.Codec.FloatBits
import BvexLink.FetchClient.SendSample

/-!
# BvexLink.FetchClient.RequestSample

The calls of `request_sample.c`. What a result holds before it is written is an argument of its
call, and a call is `none` where the behaviour of C is undefined.

* `typed_requests_iff`: when the typed requests report what a request came to.
* `request_intact_iff`: when a request carries the metric id of its requester.
-/

namespace BvexLink
namespace FetchClient

open Wire Proto3 Codec FloatBits

/-! ## Messages -/

structure Request (S : Type) where
  metric_id : S

structure Response (S : Type) where
  metric_id : S
  has_primitive : Bool
  primitive : Primitive S

def REQUEST_PB_H_MAX_SIZE : Nat := 65
def RESPONSE_PB_H_MAX_SIZE : Nat := 4166

def Request.fields (m : Request Bytes) : List (Nat × WireValue) := singular 1 (.string m.metric_id)

def Request.set (m : Request Bytes) : Nat × WireValue → Option (Request Bytes)
  | (1, v) => (readString sizeofMetricId v).map fun s => { m with metric_id := s }
  | _ => some m

/-- `pb_decode` into an empty `Request`. -/
def Request.decode (datagram : Bytes) : Option (Request Bytes) :=
  (readMessage datagram).bind fun fs => fs.foldlM Request.set ⟨[]⟩

/-! ## The calls -/

/-- An `int`, that of no status where it was not written. -/
abbrev RequestStatus := Int32

def REQUEST_STATUS_OK : RequestStatus := 0
def REQUEST_STATUS_ENCODING_ERROR : RequestStatus := -2
def REQUEST_STATUS_SEND_ERROR : RequestStatus := -3
def REQUEST_STATUS_RECV_ERROR : RequestStatus := -4
def REQUEST_STATUS_DECODING_ERROR : RequestStatus := -5
def REQUEST_STATUS_INVALID_RESPONSE_TYPE : RequestStatus := -6

/-- What is called: `pb_encode` into a buffer of a size, the results of `send` and of `recv` (`none`
for `-1`), `pb_decode` into an empty `Response`, of which the arrays hold strings, and whether there
is memory for `strdup`. -/
structure Externals where
  pbEncode : Nat → Request CharArray → Option Bytes
  send : Int → Bytes → Int
  recv : Int → Nat → Option Bytes
  pbDecode : Bytes → Option (Response CString)
  memory : Bool

/-- `metric_id` is `none` where it is `NULL`. -/
structure Requester where
  socket_fd : Int
  metric_id : Option CString

/-- `make_requester`, with the result of `connected_udp_socket`. -/
def makeRequester (sock : Int) (metric_id : Option CString) : Requester :=
  if sock < 0 then ⟨-1, none⟩ else ⟨sock, metric_id⟩

structure RequestResult where
  err : RequestStatus
  response : Response CString

structure TypedResult (V : Type) where
  err : RequestStatus
  value : V

abbrev RequestIntResult := TypedResult (BitVec 32)
abbrev RequestFloatResult := TypedResult (BitVec 64)
abbrev RequestDoubleResult := TypedResult (BitVec 64)
abbrev RequestStringResult := TypedResult (Option CString)

/-- Undefined for `NULL`, and where the terminator would be written behind the array. -/
def strcpy (dst : CharArray) : Option CString → Option CharArray
  | none => none
  | some src =>
    if src.bytes.length + 1 ≤ dst.bytes.length
    then some ⟨src.bytes ++ 0 :: dst.bytes.drop (src.bytes.length + 1)⟩ else none

section Calls

variable (env : Externals)

/-- The status, and the datagrams handed to `send`. -/
def sendRequest (socket_fd : Int) (message : Request CharArray) : RequestStatus × List Bytes :=
  match env.pbEncode REQUEST_PB_H_MAX_SIZE message with
  | none => (REQUEST_STATUS_ENCODING_ERROR, [])
  | some buffer =>
    if env.send socket_fd buffer = -1 then (REQUEST_STATUS_SEND_ERROR, [buffer])
    else (REQUEST_STATUS_OK, [buffer])

def recvResponse (socket_fd : Int) : Except RequestStatus (Response CString) :=
  match env.recv socket_fd RESPONSE_PB_H_MAX_SIZE with
  | none => .error REQUEST_STATUS_RECV_ERROR
  | some [] => .error REQUEST_STATUS_RECV_ERROR
  | some recv_buffer =>
    match env.pbDecode recv_buffer with
    | none => .error REQUEST_STATUS_DECODING_ERROR
    | some response => .ok response

def request (reqr : Requester) (result : RequestResult) : Option (RequestResult × List Bytes) :=
  (strcpy (.zero sizeofMetricId) reqr.metric_id).map fun metric_id =>
    let (send_err, sent) := sendRequest env reqr.socket_fd ⟨metric_id⟩
    if send_err ≠ REQUEST_STATUS_OK then ({ result with err := send_err }, sent)
    else
      match recvResponse env reqr.socket_fd with
      | .error recv_err => ({ result with err := recv_err }, sent)
      | .ok response =>
        if response.has_primitive then ({ result with response := response }, sent)
        else ({ result with err := REQUEST_STATUS_INVALID_RESPONSE_TYPE }, sent)

/-- The body shared by the typed requests: the member that is asked for, and what is stored. -/
def requestTyped {W V : Type} (member : PrimitiveValue CString → Option W) (store : W → V)
    (reqr : Requester) (request_result : RequestResult) (result : TypedResult V) :
    Option (TypedResult V) :=
  (request env reqr request_result).map fun (request_result, _) =>
    if request_result.err ≠ REQUEST_STATUS_OK then { result with err := request_result.err }
    else
      match request_result.response.primitive.value.bind member with
      | none => { result with err := REQUEST_STATUS_INVALID_RESPONSE_TYPE }
      | some w => { result with value := store w }

def strdup (s : CString) : Option CString := if env.memory then some s else none

def PrimitiveValue.intVal {S : Type} : PrimitiveValue S → Option (BitVec 32)
  | .int_val x => some x
  | _ => none

def PrimitiveValue.floatVal {S : Type} : PrimitiveValue S → Option (BitVec 32)
  | .float_val x => some x
  | _ => none

def PrimitiveValue.doubleVal {S : Type} : PrimitiveValue S → Option (BitVec 64)
  | .double_val x => some x
  | _ => none

def PrimitiveValue.stringVal {S : Type} : PrimitiveValue S → Option S
  | .string_val s => some s
  | _ => none

def requestInt : Requester → RequestResult → RequestIntResult → Option RequestIntResult :=
  requestTyped env PrimitiveValue.intVal id

def requestFloat : Requester → RequestResult → RequestFloatResult → Option RequestFloatResult :=
  requestTyped env PrimitiveValue.floatVal floatToDouble

def requestDouble : Requester → RequestResult → RequestDoubleResult → Option RequestDoubleResult :=
  requestTyped env PrimitiveValue.doubleVal id

def requestString : Requester → RequestResult → RequestStringResult → Option RequestStringResult :=
  requestTyped env PrimitiveValue.stringVal (strdup env)

/-! ## What a request comes to -/

/-- The message of a metric id that fits its array. -/
def messageOf (metric_id : CString) : Request CharArray :=
  ⟨⟨metric_id.bytes ++
    0 :: (CharArray.zero sizeofMetricId).bytes.drop (metric_id.bytes.length + 1)⟩⟩

/-- The message was encoded and sent. -/
def Sent (socket_fd : Int) (message : Request CharArray) : Prop :=
  ∃ buffer, env.pbEncode REQUEST_PB_H_MAX_SIZE message = some buffer ∧
    env.send socket_fd buffer ≠ -1

/-- The message was sent, and this response received and decoded. -/
def Received (socket_fd : Int) (message : Request CharArray) (response : Response CString) : Prop :=
  Sent env socket_fd message ∧ ∃ reply, env.recv socket_fd RESPONSE_PB_H_MAX_SIZE = some reply ∧
    reply ≠ [] ∧ env.pbDecode reply = some response

section Spec

variable {W V : Type} (member : PrimitiveValue CString → Option W)

/-- A primitive of the type that is asked for was decoded, with this value. -/
def Delivers (socket_fd : Int) (message : Request CharArray) (w : W) : Prop :=
  ∃ response, Received env socket_fd message response ∧ response.has_primitive = true ∧
    response.primitive.value.bind member = some w

/-- The code of the first step that failed. -/
inductive Fails (socket_fd : Int) (message : Request CharArray) : RequestStatus → Prop where
  | encode (h : env.pbEncode REQUEST_PB_H_MAX_SIZE message = none) :
    Fails socket_fd message REQUEST_STATUS_ENCODING_ERROR
  | send {buffer : Bytes} (h : env.pbEncode REQUEST_PB_H_MAX_SIZE message = some buffer)
      (hs : env.send socket_fd buffer = -1) : Fails socket_fd message REQUEST_STATUS_SEND_ERROR
  | recv (h : Sent env socket_fd message)
      (hr : env.recv socket_fd RESPONSE_PB_H_MAX_SIZE = none) :
    Fails socket_fd message REQUEST_STATUS_RECV_ERROR
  | closed (h : Sent env socket_fd message)
      (hr : env.recv socket_fd RESPONSE_PB_H_MAX_SIZE = some []) :
    Fails socket_fd message REQUEST_STATUS_RECV_ERROR
  | decode {reply : Bytes} (h : Sent env socket_fd message)
      (hr : env.recv socket_fd RESPONSE_PB_H_MAX_SIZE = some reply) (hne : reply ≠ [])
      (hd : env.pbDecode reply = none) : Fails socket_fd message REQUEST_STATUS_DECODING_ERROR
  | absent {response : Response CString} (h : Received env socket_fd message response)
      (hp : response.has_primitive = false) :
    Fails socket_fd message REQUEST_STATUS_INVALID_RESPONSE_TYPE
  | mismatch {response : Response CString} (h : Received env socket_fd message response)
      (hp : response.has_primitive = true) (hm : response.primitive.value.bind member = none) :
    Fails socket_fd message REQUEST_STATUS_INVALID_RESPONSE_TYPE

/-- `same` says that the value of a result is that of a primitive. -/
structure Reports (same : W → V → Prop) (socket_fd : Int) (message : Request CharArray)
    (result : TypedResult V) : Prop where
  ok : result.err = REQUEST_STATUS_OK ↔ ∃ w, Delivers env member socket_fd message w
  value : ∀ w, Delivers env member socket_fd message w → same w result.value
  error : ∀ e, Fails env member socket_fd message e → result.err = e

/-- The call returns, and reports what the request for the metric id of the requester came to. -/
def ReportsCorrectly (same : W → V → Prop) (reqr : Requester) (call : Option (TypedResult V)) :
    Prop :=
  ∃ metric_id result, reqr.metric_id = some metric_id ∧ call = some result ∧
    Reports env member same reqr.socket_fd (messageOf metric_id) result

/-- The metric id fits, and what the results hold before they are written (`g` and `g'` in `err`) is
no error where they are not written. -/
def ErrsClear (reqr : Requester) (g g' : RequestStatus) : Prop :=
  ∃ metric_id, reqr.metric_id = some metric_id ∧ metric_id.bytes.length < sizeofMetricId ∧
    (∀ w, Delivers env member reqr.socket_fd (messageOf metric_id) w →
      g = REQUEST_STATUS_OK ∧ g' = REQUEST_STATUS_OK) ∧
    ∀ response, Received env reqr.socket_fd (messageOf metric_id) response →
      response.has_primitive = true → response.primitive.value.bind member = none →
        g = REQUEST_STATUS_OK ∨ g = REQUEST_STATUS_INVALID_RESPONSE_TYPE

end Spec

/-- The steps up to the check that the response has a primitive. -/
def exchange (socket_fd : Int) (message : Request CharArray) :
    Except RequestStatus (Response CString) :=
  if (sendRequest env socket_fd message).1 ≠ REQUEST_STATUS_OK
  then .error (sendRequest env socket_fd message).1
  else (recvResponse env socket_fd).bind fun response =>
    if response.has_primitive then .ok response else .error REQUEST_STATUS_INVALID_RESPONSE_TYPE

end Calls

/-! ## Steps -/

section Steps

variable {env : Externals} {socket_fd : Int} {message : Request CharArray}

theorem encodingError_ne : REQUEST_STATUS_ENCODING_ERROR ≠ REQUEST_STATUS_OK := by decide

theorem sendError_ne : REQUEST_STATUS_SEND_ERROR ≠ REQUEST_STATUS_OK := by decide

theorem recvError_ne : REQUEST_STATUS_RECV_ERROR ≠ REQUEST_STATUS_OK := by decide

theorem decodingError_ne : REQUEST_STATUS_DECODING_ERROR ≠ REQUEST_STATUS_OK := by decide

theorem invalidResponseType_ne : REQUEST_STATUS_INVALID_RESPONSE_TYPE ≠ REQUEST_STATUS_OK := by
  decide

theorem sendRequest_ok : (sendRequest env socket_fd message).1 = REQUEST_STATUS_OK ↔
    Sent env socket_fd message := by
  unfold sendRequest Sent
  cases env.pbEncode REQUEST_PB_H_MAX_SIZE message with
  | none => exact iff_of_false encodingError_ne (by simp)
  | some buffer =>
    simp only [Option.some.injEq, exists_eq_left']
    split
    · rename_i h
      exact iff_of_false sendError_ne fun hn => hn h
    · rename_i h
      exact iff_of_true rfl h

theorem recvResponse_ok {response : Response CString} :
    recvResponse env socket_fd = .ok response ↔
      ∃ reply, env.recv socket_fd RESPONSE_PB_H_MAX_SIZE = some reply ∧ reply ≠ [] ∧
        env.pbDecode reply = some response := by
  unfold recvResponse
  cases env.recv socket_fd RESPONSE_PB_H_MAX_SIZE with
  | none => simp
  | some reply =>
    simp only [Option.some.injEq, exists_eq_left']
    cases reply with
    | nil => simp
    | cons b reply =>
      simp only
      cases env.pbDecode (b :: reply) with
      | none => simp
      | some response => simp

theorem exchange_ok {response : Response CString} :
    exchange env socket_fd message = .ok response ↔
      Received env socket_fd message response ∧ response.has_primitive = true := by
  unfold exchange Received
  rw [← sendRequest_ok, ← recvResponse_ok]
  split
  · rename_i h
    exact iff_of_false nofun fun hr => h hr.1.1
  · rename_i h
    have hsent := not_not.mp h
    cases recvResponse env socket_fd with
    | error e => simp [Except.bind]
    | ok response' =>
      simp only [Except.bind, hsent, Except.ok.injEq, true_and]
      split
      · rename_i hp
        rw [Except.ok.injEq]
        exact ⟨fun he => ⟨he, he ▸ hp⟩, fun he => he.1⟩
      · rename_i hp
        refine iff_of_false nofun ?_
        rintro ⟨rfl, hp'⟩
        exact hp hp'

variable {W : Type} {member : PrimitiveValue CString → Option W}

theorem delivers_iff {w : W} : Delivers env member socket_fd message w ↔
    ∃ response, exchange env socket_fd message = .ok response ∧
      response.primitive.value.bind member = some w := by
  simp only [Delivers, exchange_ok, and_assoc]

theorem exchange_sent (h : Sent env socket_fd message) : exchange env socket_fd message =
    (recvResponse env socket_fd).bind fun response =>
      if response.has_primitive then .ok response
      else .error REQUEST_STATUS_INVALID_RESPONSE_TYPE :=
  if_neg (not_not.mpr (sendRequest_ok.mpr h))

theorem sendRequest_error (member : PrimitiveValue CString → Option W)
    (h : ¬ Sent env socket_fd message) :
    Fails env member socket_fd message (sendRequest env socket_fd message).1 := by
  unfold sendRequest
  cases henc : env.pbEncode REQUEST_PB_H_MAX_SIZE message with
  | none => exact .encode henc
  | some buffer =>
    have hs : env.send socket_fd buffer = -1 := by
      by_contra hs
      exact h ⟨buffer, henc, hs⟩
    simp only [if_pos hs]
    exact .send henc hs

theorem recvResponse_error (member : PrimitiveValue CString → Option W) {e : RequestStatus}
    (hsent : Sent env socket_fd message) (h : recvResponse env socket_fd = .error e) :
    e ≠ REQUEST_STATUS_OK ∧ Fails env member socket_fd message e := by
  rw [recvResponse] at h
  cases hr : env.recv socket_fd RESPONSE_PB_H_MAX_SIZE with
  | none =>
    rw [hr] at h
    cases h
    exact ⟨recvError_ne, .recv hsent hr⟩
  | some reply =>
    rw [hr] at h
    cases reply with
    | nil =>
      cases h
      exact ⟨recvError_ne, .closed hsent hr⟩
    | cons b reply =>
      simp only at h
      cases hd : env.pbDecode (b :: reply) with
      | none =>
        rw [hd] at h
        cases h
        exact ⟨decodingError_ne, .decode hsent hr (List.cons_ne_nil _ _) hd⟩
      | some response =>
        rw [hd] at h
        cases h

/-- The errors before the type of the primitive is looked at. -/
theorem exchange_error (member : PrimitiveValue CString → Option W) {e : RequestStatus}
    (h : exchange env socket_fd message = .error e) :
    e ≠ REQUEST_STATUS_OK ∧ Fails env member socket_fd message e := by
  by_cases hsent : Sent env socket_fd message
  · rw [exchange_sent hsent] at h
    cases hr : recvResponse env socket_fd with
    | error e' =>
      rw [hr] at h
      cases h
      exact recvResponse_error member hsent hr
    | ok response =>
      rw [hr] at h
      simp only [Except.bind] at h
      split at h
      · cases h
      · rename_i hp
        cases h
        exact ⟨invalidResponseType_ne,
          .absent ⟨hsent, recvResponse_ok.mp hr⟩ (Bool.not_eq_true _ ▸ hp)⟩
  · have hne : (sendRequest env socket_fd message).1 ≠ REQUEST_STATUS_OK :=
      fun h => hsent (sendRequest_ok.mp h)
    rw [exchange, if_pos hne, Except.error.injEq] at h
    rw [← h]
    exact ⟨hne, sendRequest_error member hsent⟩

theorem fails_iff {e : RequestStatus} : Fails env member socket_fd message e ↔
    exchange env socket_fd message = .error e ∨
      ∃ response, exchange env socket_fd message = .ok response ∧
        response.primitive.value.bind member = none ∧
          e = REQUEST_STATUS_INVALID_RESPONSE_TYPE := by
  constructor
  · intro h
    cases h with
    | encode h =>
      have hs : sendRequest env socket_fd message = (REQUEST_STATUS_ENCODING_ERROR, []) := by
        rw [sendRequest, h]
      left
      rw [exchange, hs, if_pos encodingError_ne]
    | send h hs =>
      left
      rw [exchange, sendRequest, h]
      simp only [if_pos hs, if_pos sendError_ne]
    | recv h hr =>
      left
      rw [exchange_sent h, recvResponse, hr]
      rfl
    | closed h hr =>
      left
      rw [exchange_sent h, recvResponse, hr]
      rfl
    | @decode reply h hr hne hd =>
      left
      rw [exchange_sent h, recvResponse, hr]
      cases reply with
      | nil => exact absurd rfl hne
      | cons b reply =>
        simp only [hd]
        rfl
    | absent h hp =>
      left
      rw [exchange_sent h.1, recvResponse_ok.mpr h.2]
      simp [Except.bind, hp]
    | @mismatch response h hp hm => exact .inr ⟨response, exchange_ok.mpr ⟨h, hp⟩, hm, rfl⟩
  · rintro (h | ⟨response, h, hm, rfl⟩)
    · exact (exchange_error member h).2
    · obtain ⟨hr, hp⟩ := exchange_ok.mp h
      exact .mismatch hr hp hm

/-! What a known exchange settles. -/

section Known

variable {response : Response CString} {e : RequestStatus}

theorem not_delivers_of_error (h : exchange env socket_fd message = .error e) (w : W) :
    ¬ Delivers env member socket_fd message w := by
  rw [delivers_iff]
  simp [h]

theorem delivers_of_ok (h : exchange env socket_fd message = .ok response) {w : W} :
    Delivers env member socket_fd message w ↔ response.primitive.value.bind member = some w := by
  rw [delivers_iff]
  simp [h]

theorem fails_of_error (h : exchange env socket_fd message = .error e) {e' : RequestStatus} :
    Fails env member socket_fd message e' ↔ e = e' := by
  rw [fails_iff]
  simp [h]

theorem fails_of_ok (h : exchange env socket_fd message = .ok response) :
    Fails env member socket_fd message e ↔ response.primitive.value.bind member = none ∧
      e = REQUEST_STATUS_INVALID_RESPONSE_TYPE := by
  rw [fails_iff]
  simp [h]

end Known

end Steps

/-! ## Results -/

section Results

variable {env : Externals} {reqr : Requester} {metric_id : CString}

/-- The copy of a metric id. -/
theorem strcpy_zero (id : CString) : strcpy (.zero sizeofMetricId) (some id) =
    if id.bytes.length < sizeofMetricId then some (messageOf id).metric_id else none := by
  rw [strcpy, messageOf]
  simp only [CharArray.zero, List.length_replicate, Nat.succ_le_iff]

theorem request_eq (hid : reqr.metric_id = some metric_id)
    (hl : metric_id.bytes.length < sizeofMetricId) (result : RequestResult) :
    request env reqr result =
      some (match exchange env reqr.socket_fd (messageOf metric_id) with
        | .error e => { result with err := e }
        | .ok response => { result with response := response },
        (sendRequest env reqr.socket_fd (messageOf metric_id)).2) := by
  rw [request, hid, strcpy_zero, if_pos hl, Option.map_some, exchange]
  show some (if (sendRequest env reqr.socket_fd (messageOf metric_id)).1 ≠ REQUEST_STATUS_OK
    then _ else _) = _
  split
  · rfl
  · cases recvResponse env reqr.socket_fd with
    | error e => rfl
    | ok response =>
      simp only [Except.bind]
      split <;> rfl

theorem request_undefined (h : ∀ id, reqr.metric_id = some id → sizeofMetricId ≤ id.bytes.length)
    (result : RequestResult) : request env reqr result = none := by
  rw [request, Option.map_eq_none_iff]
  cases hid : reqr.metric_id with
  | none => rfl
  | some id => rw [strcpy_zero, if_neg (not_lt.mpr (h id hid))]

variable {W V : Type} {member : PrimitiveValue CString → Option W} {store : W → V}
  {same : W → V → Prop}

theorem requestTyped_eq (hid : reqr.metric_id = some metric_id)
    (hl : metric_id.bytes.length < sizeofMetricId) (request_result : RequestResult)
    (result : TypedResult V) :
    requestTyped env member store reqr request_result result =
      some (match exchange env reqr.socket_fd (messageOf metric_id) with
        | .error e => { result with err := e }
        | .ok response =>
          if request_result.err ≠ REQUEST_STATUS_OK then { result with err := request_result.err }
          else
            match response.primitive.value.bind member with
            | none => { result with err := REQUEST_STATUS_INVALID_RESPONSE_TYPE }
            | some w => { result with value := store w }) := by
  rw [requestTyped, request_eq hid hl, Option.map_some]
  cases h : exchange env reqr.socket_fd (messageOf metric_id) with
  | error e =>
    have hne : e ≠ REQUEST_STATUS_OK := (exchange_error member h).1
    simp only [if_pos hne]
  | ok response => rfl

section Reports

variable {socket_fd : Int} {message : Request CharArray} {result : TypedResult V}
  {response : Response CString}

theorem reports_error {e : RequestStatus} (h : exchange env socket_fd message = .error e) :
    Reports env member same socket_fd message result ↔ result.err = e := by
  have hnone : ∀ w, ¬ Delivers env member socket_fd message w := not_delivers_of_error h
  constructor
  · intro hr
    exact hr.error e ((fails_of_error h).mpr rfl)
  · intro he
    have hne : result.err ≠ REQUEST_STATUS_OK := he ▸ (exchange_error member h).1
    refine ⟨iff_of_false hne fun ⟨w, hw⟩ => hnone w hw, fun w hw => absurd hw (hnone w), ?_⟩
    intro e' he'
    rw [he, (fails_of_error h).mp he']

theorem reports_mismatch (h : exchange env socket_fd message = .ok response)
    (hm : response.primitive.value.bind member = none) :
    Reports env member same socket_fd message result ↔
      result.err = REQUEST_STATUS_INVALID_RESPONSE_TYPE := by
  have hnone : ∀ w, ¬ Delivers env member socket_fd message w := by
    intro w
    rw [delivers_of_ok h, hm]
    exact nofun
  constructor
  · intro hr
    exact hr.error _ ((fails_of_ok h).mpr ⟨hm, rfl⟩)
  · intro he
    have hne : result.err ≠ REQUEST_STATUS_OK := he ▸ invalidResponseType_ne
    refine ⟨iff_of_false hne fun ⟨w, hw⟩ => hnone w hw, fun w hw => absurd hw (hnone w), ?_⟩
    intro e' he'
    rw [he, ((fails_of_ok h).mp he').2]

theorem reports_delivered {w : W} (h : exchange env socket_fd message = .ok response)
    (hm : response.primitive.value.bind member = some w) :
    Reports env member same socket_fd message result ↔
      result.err = REQUEST_STATUS_OK ∧ same w result.value := by
  have hw : Delivers env member socket_fd message w := (delivers_of_ok h).mpr hm
  constructor
  · intro hr
    exact ⟨hr.ok.mpr ⟨w, hw⟩, hr.value w hw⟩
  · rintro ⟨he, hs⟩
    refine ⟨iff_of_true he ⟨w, hw⟩, fun w' hw' => ?_, fun e' he' => ?_⟩
    · rw [delivers_of_ok h, hm] at hw'
      rw [← Option.some.inj hw']
      exact hs
    · rw [fails_of_ok h, hm] at he'
      cases he'.1

end Reports

/-- What the results hold is no error where it is returned. -/
theorem errsClear_iff (hid : reqr.metric_id = some metric_id)
    (hl : metric_id.bytes.length < sizeofMetricId) {g g' : RequestStatus} :
    ErrsClear env member reqr g g' ↔
      ∀ response, exchange env reqr.socket_fd (messageOf metric_id) = .ok response →
        match response.primitive.value.bind member with
        | none => g = REQUEST_STATUS_OK ∨ g = REQUEST_STATUS_INVALID_RESPONSE_TYPE
        | some _ => g = REQUEST_STATUS_OK ∧ g' = REQUEST_STATUS_OK := by
  constructor
  · rintro ⟨id, hid', _, hok, hmis⟩ response hx
    obtain rfl : metric_id = id := Option.some.inj (hid.symm.trans hid')
    split
    · rename_i hm
      obtain ⟨hr, hp⟩ := exchange_ok.mp hx
      exact hmis response hr hp hm
    · rename_i w hm
      exact hok w (delivers_iff.mpr ⟨response, hx, hm⟩)
  · intro h
    refine ⟨metric_id, hid, hl, fun w hw => ?_, fun response hr hp hm => ?_⟩
    · obtain ⟨response, hx, hm⟩ := delivers_iff.mp hw
      have hg := h response hx
      rw [hm] at hg
      exact hg
    · have hg := h response (exchange_ok.mpr ⟨hr, hp⟩)
      rw [hm] at hg
      exact hg

/-- The call reports correctly if and only if what it returns unwritten is no error, and the value
is stored. -/
theorem requestTyped_iff (request_result : RequestResult) (result : TypedResult V) :
    ReportsCorrectly env member same reqr
        (requestTyped env member store reqr request_result result) ↔
      ErrsClear env member reqr request_result.err result.err ∧
        ∀ id w, reqr.metric_id = some id →
          Delivers env member reqr.socket_fd (messageOf id) w → same w (store w) := by
  by_cases hfits : ∃ id, reqr.metric_id = some id ∧ id.bytes.length < sizeofMetricId
  · obtain ⟨id, hid, hl⟩ := hfits
    have hvalue : (∀ id' w, reqr.metric_id = some id' →
        Delivers env member reqr.socket_fd (messageOf id') w → same w (store w)) ↔
          ∀ response, exchange env reqr.socket_fd (messageOf id) = .ok response →
            ∀ w, response.primitive.value.bind member = some w → same w (store w) := by
      constructor
      · intro h response hx w hm
        exact h id w hid (delivers_iff.mpr ⟨response, hx, hm⟩)
      · intro h id' w hid' hw
        obtain rfl : id = id' := Option.some.inj (hid.symm.trans hid')
        obtain ⟨response, hx, hm⟩ := delivers_iff.mp hw
        exact h response hx w hm
    rw [errsClear_iff hid hl, hvalue, ReportsCorrectly, requestTyped_eq hid hl]
    simp only [hid, Option.some.injEq, exists_and_left, exists_eq_left']
    cases hx : exchange env reqr.socket_fd (messageOf id) with
    | error e => simp [reports_error hx]
    | ok response =>
      simp only [Except.ok.injEq, forall_eq']
      cases hm : response.primitive.value.bind member with
      | none =>
        rw [reports_mismatch hx hm]
        by_cases hg : request_result.err = REQUEST_STATUS_OK
        · simp [hg]
        · simp [hg]
      | some w =>
        rw [reports_delivered hx hm]
        by_cases hg : request_result.err = REQUEST_STATUS_OK
        · simp [hg]
        · simp [hg]
  · refine iff_of_false ?_ ?_
    · rintro ⟨id, out, hid, hcall, _⟩
      have hlong : ∀ id, reqr.metric_id = some id → sizeofMetricId ≤ id.bytes.length := by
        intro id hid
        by_contra hl
        exact hfits ⟨id, hid, not_le.mp hl⟩
      rw [requestTyped, request_undefined hlong] at hcall
      cases hcall
    · rintro ⟨⟨id, hid, hl, _⟩, _⟩
      exact hfits ⟨id, hid, hl⟩

variable (env reqr)

/-- A typed request reports what it came to if and only if the `err` that it leaves unwritten is
already right; and `request_string` has to get its copy. -/
theorem typed_requests_iff (request_result : RequestResult) :
    (∀ result, ReportsCorrectly env PrimitiveValue.intVal (fun x v => v = x) reqr
        (requestInt env reqr request_result result) ↔
      ErrsClear env PrimitiveValue.intVal reqr request_result.err result.err) ∧
    (∀ result, ReportsCorrectly env PrimitiveValue.floatVal
        (fun x v => doubleValue v = floatValue x) reqr
        (requestFloat env reqr request_result result) ↔
      ErrsClear env PrimitiveValue.floatVal reqr request_result.err result.err) ∧
    (∀ result, ReportsCorrectly env PrimitiveValue.doubleVal (fun x v => v = x) reqr
        (requestDouble env reqr request_result result) ↔
      ErrsClear env PrimitiveValue.doubleVal reqr request_result.err result.err) ∧
    ∀ result, ReportsCorrectly env PrimitiveValue.stringVal (fun s v => v = some s) reqr
        (requestString env reqr request_result result) ↔
      ErrsClear env PrimitiveValue.stringVal reqr request_result.err result.err ∧
        ∀ id s, reqr.metric_id = some id →
          Delivers env PrimitiveValue.stringVal reqr.socket_fd (messageOf id) s →
            env.memory = true := by
  refine ⟨fun result => ?_, fun result => ?_, fun result => ?_, fun result => ?_⟩
  · refine (requestTyped_iff request_result result).trans (and_iff_left ?_)
    intro id x _ _
    rfl
  · refine (requestTyped_iff request_result result).trans (and_iff_left ?_)
    intro id x _ _
    exact floatToDouble_value x
  · refine (requestTyped_iff request_result result).trans (and_iff_left ?_)
    intro id x _ _
    rfl
  · refine (requestTyped_iff request_result result).trans (and_congr_right fun _ => ?_)
    have hcopy : ∀ s, strdup env s = some s ↔ env.memory = true := by
      intro s
      rw [strdup]
      split
      · rename_i h
        exact iff_of_true rfl h
      · rename_i h
        exact iff_of_false nofun h
    simp only [hcopy]

end Results

/-! ## The metric id -/

/-- `pb_encode` writes the field of the string in the array if it fits the buffer, and fails
otherwise. -/
def WritesRequest (pbEncode : Nat → Request CharArray → Option Bytes) : Prop :=
  ∀ capacity (m : Request CharArray), m.metric_id.Terminated →
    pbEncode capacity m =
      if (message (Request.mk m.metric_id.str).fields).length ≤ capacity
      then some (message (Request.mk m.metric_id.str).fields) else none

/-- `Request_size` bounds a request. -/
theorem Request.length_fields {m : Request Bytes} (h : m.metric_id.length < sizeofMetricId) :
    (message m.fields).length ≤ REQUEST_PB_H_MAX_SIZE := by
  have hid : m.metric_id.length < 64 := h
  have h1 := length_message_singular (by decide : 1 < 16) (.string m.metric_id)
  have h2 : (Scalar.string m.metric_id).toWire.payload.length ≤ 0 + 1 + m.metric_id.length :=
    length_payload_len (by omega)
  show _ ≤ 65
  rw [Request.fields]
  omega

theorem Request.decode_message {m : Request Bytes} (h : m.metric_id.length < sizeofMetricId) :
    Request.decode (message m.fields) = some m := by
  have hvalid : ∀ x ∈ m.fields, ValidField x := by
    intro x hx
    rw [mem_singular hx]
    exact validField_mk (by decide) (lt_trans h (by decide))
  rw [Request.decode, readMessage_message hvalid, Option.bind_some]
  exact foldlM_singular (by simp [Request.set, readString_string h])
    fun hd => by rw [← isDefault_string hd]

/-- The request is rejected and nothing sent, or the copy stays in its array and one datagram is
sent that is decoded to the metric id. -/
def CarriesMetricId (id : CString) (call : Option (RequestResult × List Bytes)) : Prop :=
  ∃ result sent, call = some (result, sent) ∧
    (result.err ≠ REQUEST_STATUS_OK ∧ sent = [] ∨
      ∃ d, sent = [d] ∧ d.length ≤ REQUEST_PB_H_MAX_SIZE ∧ Request.decode d = some ⟨id.bytes⟩)

theorem messageOf_str (id : CString) : (messageOf id).metric_id.str = id.bytes :=
  takeWhile_append_zero id.ok _

/-- A request carries the metric id that `make_requester` accepted if and only if it fits the array
with its terminator. -/
theorem request_intact_iff {env : Externals} (hpb : WritesRequest env.pbEncode) {sock : Int}
    {id : CString} (hsock : 0 ≤ (makeRequester sock (some id)).socket_fd) (result : RequestResult) :
    CarriesMetricId id (request env (makeRequester sock (some id)) result) ↔
      id.bytes.length < sizeofMetricId := by
  have hid : (makeRequester sock (some id)).metric_id = some id := by
    unfold makeRequester at hsock ⊢
    split at hsock
    · exact absurd hsock (by decide)
    · rename_i h
      rw [if_neg h]
  constructor
  · rintro ⟨_, _, hcall, _⟩
    by_contra hl
    rw [request_undefined] at hcall
    · cases hcall
    · intro id' hid'
      rw [hid] at hid'
      cases hid'
      exact not_lt.mp hl
  · intro hl
    rw [request_eq hid hl]
    refine ⟨_, _, rfl, .inr ⟨message (Request.mk id.bytes).fields, ?_, Request.length_fields hl,
      Request.decode_message hl⟩⟩
    have hterm : (messageOf id).metric_id.Terminated := by
      simp [messageOf, CharArray.Terminated]
    have hlen : (message (Request.mk id.bytes).fields).length ≤ REQUEST_PB_H_MAX_SIZE :=
      Request.length_fields hl
    rw [sendRequest, hpb _ _ hterm, messageOf_str, if_pos hlen]
    simp only
    split <;> rfl

/-! ## An instance -/

def encodeRequest (capacity : Nat) (m : Request CharArray) : Option Bytes :=
  if (message (Request.mk m.metric_id.str).fields).length ≤ capacity
  then some (message (Request.mk m.metric_id.str).fields) else none

/-- The response with the `int` 42. -/
def response42 : Response CString := ⟨⟨[], by simp⟩, true, ⟨some (.int_val 42)⟩⟩

/-- A server that answers with the `int` 42. -/
def server42 : Externals where
  pbEncode := encodeRequest
  send _ buffer := buffer.length
  recv _ _ := some [18, 2, 8, 42]
  pbDecode reply := if reply = [18, 2, 8, 42] then some response42 else none
  memory := true

theorem server42_received : Received server42 3 (messageOf alt) response42 := by
  have hl : (message (Request.mk (messageOf alt).metric_id.str).fields).length ≤
      REQUEST_PB_H_MAX_SIZE := by
    rw [messageOf_str]
    exact Request.length_fields (by decide)
  refine ⟨⟨_, if_pos hl, ?_⟩, [18, 2, 8, 42], rfl, List.cons_ne_nil _ _, rfl⟩
  simp only [server42]
  omega

/-- The `int` 42 is received, and the `err` returned that was on the stack. -/
theorem unwritten_err_returned : ¬ ∀ (request_result : RequestResult) (result : RequestIntResult),
    ReportsCorrectly server42 PrimitiveValue.intVal (fun x v => v = x) ⟨3, some alt⟩
      (requestInt server42 ⟨3, some alt⟩ request_result result) := by
  intro h
  obtain ⟨⟨id, hid, _, hok, _⟩, _⟩ := (requestTyped_iff _ _).mp (h ⟨0, response42⟩ ⟨1, 0⟩)
  cases hid
  have hone : (1 : RequestStatus) = REQUEST_STATUS_OK :=
    (hok 42 ⟨response42, server42_received, rfl, rfl⟩).2
  exact absurd hone (by decide)

/-- `"alt"` is carried. -/
theorem alt_requested :
    CarriesMetricId alt (request server42 (makeRequester 3 (some alt)) ⟨0, response42⟩) :=
  (@request_intact_iff server42 (fun _ _ _ => rfl) 3 alt (by decide) ⟨0, response42⟩).mpr
    (by decide)

/-- A metric id of 64 characters. -/
def longId : CString := ⟨List.replicate 64 97, by simp⟩

theorem longId_overflows : ¬ ∀ (id : CString) (result : RequestResult),
    CarriesMetricId id (request server42 (makeRequester 3 (some id)) result) := by
  intro h
  obtain ⟨_, _, hcall, _⟩ := h longId ⟨0, response42⟩
  rw [request_undefined] at hcall
  · cases hcall
  · intro id hid
    cases hid
    simp [longId, sizeofMetricId]

end FetchClient
end BvexLink
