import LearnWords.Lib.Framing
import LearnWords.Lib.Machine
import LearnWords.Response

/-!
# LearnWords.Connection

`telegram::connection`: any number of `async_request` calls on one stream, and
the server at its other end.

A call writes its request in pieces, then reads into a buffer of its own until
the buffer holds a response; what it read beyond that response is dropped with
the buffer.  Any pending call may take the next step, and the server answers
the requests in the order in which they arrive.  `Http` is the part of the
HTTP library the calls use.

The bytes on the stream carry ghost tags, the number of the call that wrote
them or of the response they belong to; `Faithful` says with them what a
connection is for, and it holds in every state of a run in which no call
begins while another one is pending (`faithful_of_run`).  Nothing in the code
arranges that: the long poll is almost always pending when a handler sends a
message (`not_faithful_overlapping`).
-/

namespace LearnWords

open Machine Framing

/-! ## requests -/

/-- `boost::beast::http::verb`, as far as it is used. -/
inductive Verb where
  | post
deriving DecidableEq

/-- `http::request<json_body>`: the fields `async_request` sets. -/
structure Request where
  method : Verb
  target : String
  host : String
  contentType : String
  body : Object

/-- The request of `connection::async_request`. -/
def asyncRequest (token method : String) (json : Object) : Request where
  method := .post
  target := "/bot" ++ token ++ "/" ++ method
  host := "api.telegram.org"
  contentType := "application/json"
  body := json

/-- The HTTP library: the formats of requests and responses, how a request is
serialised, and the JSON body of a response.  The responses of `responses` are
those that `async_read` takes whole; with a body that is no JSON it would stop
in the middle of one. -/
structure Http where
  requests : Framing UInt8
  responses : Framing UInt8
  serialize : Request → requests.Message
  body : List UInt8 → Value

/-! ## calls -/

/-- Why a call completes with an error code. -/
inductive RequestError where
  /-- what was read is not a response -/
  | malformed
  /-- `process_response` raised -/
  | json (e : JsonError)
deriving DecidableEq

/-- Where a call of `async_request` is suspended. -/
inductive CallPhase where
  /-- in `async_write`, with the bytes still to be written -/
  | writing (rest : List UInt8)
  /-- in `async_read`, with what its buffer holds -/
  | reading (buffer : List (Nat × UInt8))
  /-- completed: the bytes taken for its response, and its result -/
  | done (received : List (Nat × UInt8)) (result : Except RequestError ProcessedResult)

/-- A call, with the bytes of its request. -/
structure Call where
  request : List UInt8
  phase : CallPhase

/-- Has the call completed? -/
def Call.finished (c : Call) : Bool :=
  match c.phase with
  | .done _ _ => true
  | _ => false

/-- The bytes a call has written. -/
def Call.written (c : Call) : List UInt8 :=
  match c.phase with
  | .writing rest => c.request.take (c.request.length - rest.length)
  | _ => c.request

/-- A request the server read, and its response. -/
structure Served where
  request : List (Nat × UInt8)
  response : List UInt8

/-- The calls on a connection, its stream in both directions, and the server. -/
structure Connection where
  calls : List Call
  /-- all bytes written to the stream -/
  written : List (Nat × UInt8)
  /-- those the server has not read yet -/
  outbound : List (Nat × UInt8)
  /-- the bytes of responses no call has read yet -/
  inbound : List (Nat × UInt8)
  served : List Served
  /-- the bytes of responses that were dropped with a buffer -/
  lost : List (Nat × UInt8)

/-- A step of a call, or of the server. -/
inductive ConnectionEvent (http : Http) where
  /-- `async_request` is called -/
  | start (method : String) (json : Object)
  /-- call `i` writes `n` bytes -/
  | write (i n : Nat)
  /-- the server reads the next request and responds -/
  | serve (response : http.responses.Message)
  /-- call `i` reads `n` bytes -/
  | read (i n : Nat)

namespace Connection

/-- A connection no call was made on. -/
def make : Connection := ⟨[], [], [], [], [], []⟩

/-- A call that has written all but `rest`. -/
def afterWrite (rest : List UInt8) : CallPhase :=
  if rest = [] then .reading [] else .writing rest

/-- A call whose buffer holds `buffer`, and what it drops. -/
def afterRead (http : Http) (buffer : List (Nat × UInt8)) : CallPhase × List (Nat × UInt8) :=
  match http.responses.scan (untagged buffer) with
  | .incomplete => (.reading buffer, [])
  | .malformed => (.done buffer (.error .malformed), [])
  | .complete n =>
      let response := buffer.take n
      (.done response ((processResponse (http.body (untagged response))).mapError .json),
        buffer.drop n)

/-- One event. -/
def step (http : Http) (token : String) (w : Connection) :
    ConnectionEvent http → Option Connection
  | .start method json =>
      let request := (http.serialize (asyncRequest token method json)).val
      some { w with calls := w.calls ++ [⟨request, .writing request⟩] }
  | .write i n =>
      match w.calls[i]? with
      | some ⟨request, .writing rest⟩ =>
          if 0 < n ∧ n ≤ rest.length then
            some { w with
              calls := w.calls.set i ⟨request, afterWrite (rest.drop n)⟩
              written := w.written ++ tagged i (rest.take n)
              outbound := w.outbound ++ tagged i (rest.take n) }
          else none
      | _ => none
  | .serve response =>
      match http.requests.scan (untagged w.outbound) with
      | .complete n =>
          some { w with
            outbound := w.outbound.drop n
            inbound := w.inbound ++ tagged w.served.length response.val
            served := w.served ++ [⟨w.outbound.take n, response.val⟩] }
      | _ => none
  | .read i n =>
      match w.calls[i]? with
      | some ⟨request, .reading buffer⟩ =>
          if 0 < n ∧ n ≤ w.inbound.length then
            let r := afterRead http (buffer ++ w.inbound.take n)
            some { w with
              calls := w.calls.set i ⟨request, r.1⟩
              inbound := w.inbound.drop n
              lost := w.lost ++ r.2 }
          else none
      | _ => none

/-! ## what an event can do -/

variable {http : Http} {token : String} {w w' : Connection}

theorem step_start {method : String} {json : Object}
    (h : w.step http token (.start method json) = some w') :
    ∃ m : http.requests.Message, w' = { w with calls := w.calls ++ [⟨m.val, .writing m.val⟩] } :=
  ⟨_, (Option.some.inj h).symm⟩

theorem step_write {i n : Nat} (h : w.step http token (.write i n) = some w') :
    ∃ request rest, w.calls[i]? = some ⟨request, .writing rest⟩ ∧ 0 < n ∧ n ≤ rest.length ∧
      w' = { w with
        calls := w.calls.set i ⟨request, afterWrite (rest.drop n)⟩
        written := w.written ++ tagged i (rest.take n)
        outbound := w.outbound ++ tagged i (rest.take n) } := by
  simp only [step] at h
  split at h
  · next request rest hc =>
      split at h
      · next hn => exact ⟨request, rest, hc, hn.1, hn.2, (Option.some.inj h).symm⟩
      · contradiction
  · contradiction

theorem step_serve {response : http.responses.Message}
    (h : w.step http token (.serve response) = some w') :
    ∃ n, http.requests.scan (untagged w.outbound) = .complete n ∧
      w' = { w with
        outbound := w.outbound.drop n
        inbound := w.inbound ++ tagged w.served.length response.val
        served := w.served ++ [⟨w.outbound.take n, response.val⟩] } := by
  simp only [step] at h
  split at h
  · next n hscan => exact ⟨n, hscan, (Option.some.inj h).symm⟩
  · contradiction

theorem step_read {i n : Nat} (h : w.step http token (.read i n) = some w') :
    ∃ request buffer, w.calls[i]? = some ⟨request, .reading buffer⟩ ∧ 0 < n ∧
      n ≤ w.inbound.length ∧
      w' = { w with
        calls := w.calls.set i ⟨request, (afterRead http (buffer ++ w.inbound.take n)).1⟩
        inbound := w.inbound.drop n
        lost := w.lost ++ (afterRead http (buffer ++ w.inbound.take n)).2 } := by
  simp only [step] at h
  split at h
  · next request buffer hc =>
      split at h
      · next hn => exact ⟨request, buffer, hc, hn.1, hn.2, (Option.some.inj h).symm⟩
      · contradiction
  · contradiction

end Connection

/-! ## what a connection is for -/

/-- The bytes of different requests are not mixed: requests follow each other,
and all but the last one are whole. -/
def Unmixed (w : Connection) : Prop :=
  ∃ order : List (Call × Nat), (order.map Prod.snd).Nodup ∧
    (∀ p ∈ order, w.calls[p.2]? = some p.1) ∧
    w.written = order.flatMap (fun p => tagged p.2 p.1.written) ∧
    ∀ p ∈ order.dropLast, p.1.written = p.1.request

/-- What a completed call is owed: the whole response the server sent to its
request, and nothing else. -/
def Owed (http : Http) (served : List Served) (i : Nat) (c : Call)
    (received : List (Nat × UInt8)) (r : ProcessedResult) : Prop :=
  ∃ k entry, served[k]? = some entry ∧ entry.request = tagged i c.request ∧
    received = tagged k entry.response ∧ processResponse (http.body entry.response) = .ok r

/-- Requests are not mixed, calls that complete without an error code get
their own response, and no byte of a response is lost. -/
structure Faithful (http : Http) (w : Connection) : Prop where
  unmixed : Unmixed w
  answered : ∀ i c received r, w.calls[i]? = some c → c.phase = .done received (.ok r) →
    Owed http w.served i c received r
  kept : w.lost = []

/-- No call begins while another one is pending. -/
def Exclusive {http : Http} (w : Connection) : ConnectionEvent http → Prop
  | .start _ _ => ∀ c ∈ w.calls, c.finished = true
  | _ => True

instance {http : Http} (w : Connection) : (e : ConnectionEvent http) → Decidable (Exclusive w e)
  | .start _ _ => inferInstanceAs (Decidable (∀ c ∈ w.calls, c.finished = true))
  | .write _ _ | .serve _ | .read _ _ => isTrue trivial

end LearnWords
