import LearnWords.Bot.Poll
import LearnWords.Connection.Completion
import LearnWords.Connection.Whole

/-!
# LearnWords.Bot.Stream

The bot over the stream that its requests share.

In `LearnWords.Bot` each request has a response of its own.  Here a request is
a call of `telegram::connection`: the long poll and the tasks call
`async_request` on one stream, Telegram answers the next whole request on it,
and whoever's call completes goes on with the response that it has read.  The
calls overlap, and may read each other's responses.

Of the calls on the stream a `Ledger` is kept, in which it is clear which
response belongs to which call; that is enough for `LearnWords.Bot.Simulation`
to relate the two bots.
-/

namespace LearnWords

open Machine Framing

/-! ## the model -/

/-- Telegram at the other end of the stream. -/
structure Telegram where
  http : Http
  token : String
  /-- the method and the parameters it reads in a request -/
  read : List UInt8 → Option (String × Object)
  /-- the code of a response that is not HTTP -/
  malformed : Nat

/-- The error code of a call. -/
def Telegram.errorCode (tg : Telegram) : RequestError → ErrorCode
  | .malformed => .network tg.malformed
  | .json e => .json e

/-- Who awaits a call. -/
inductive Caller where
  | poll
  | task (i : Nat)
deriving DecidableEq

/-- A call of `async_request`; it is pending until its caller goes on. -/
structure Asked where
  caller : Caller
  method : String
  json : Object
  pending : Bool

/-- The bot and the stream. -/
structure Wired where
  /-- the bot, whose `wire` stays idle: the stream takes its place -/
  bot : BotState
  stream : Connection
  /-- the calls on the stream -/
  asked : List Asked
  /-- the network failed -/
  broken : Bool

/-- An event of one of the parties, or of the network. -/
inductive WiredEvent (tg : Telegram) where
  /-- a user writes to the bot -/
  | arrive (u : Update)
  /-- the coroutine goes on after a `co_yield` -/
  | resume
  /-- the handler of `async_resume` is invoked -/
  | onUpdate
  /-- a task makes a call, or its call to the database ends -/
  | task (e : TaskEvent)
  /-- call `i` writes `n` bytes -/
  | write (i n : Nat)
  /-- Telegram answers the next request, one for updates with `n` of them -/
  | serve (n : Nat) (response : tg.http.responses.Message)
  /-- Telegram answers the next request with an error -/
  | refuse (response : tg.http.responses.Message)
  /-- call `i` reads `n` bytes -/
  | read (i n : Nat)
  /-- the network fails: nothing is written or read any more -/
  | cut
  /-- call `i` fails with it -/
  | fail (i code : Nat)
  /-- the program stops, and is started again -/
  | restart

/-- The message a task is about to send. -/
def nextMessage : Fiber DialogOp DialogOp.Res Exn → Option Object
  | .ready (.call (.sendMessage json) _) => some json
  | _ => none

/-- Does a task wait for the response to a message? -/
def awaitsMessage : Fiber DialogOp DialogOp.Res Exn → Bool
  | .waiting (.sendMessage _) _ => true
  | _ => false

/-- The task of an event. -/
def TaskEvent.index : TaskEvent → Nat
  | initiate i | complete i | abort i _ | lose i _ => i

namespace Wired

/-- The program is started. -/
def start (server : Server) (world : World) (earlier : List Object) : Wired where
  bot := .start server world earlier
  stream := .make
  asked := []
  broken := false

/-- `async_request` is called. -/
def call (tg : Telegram) (w : Wired) (caller : Caller) (method : String) (json : Object) : Wired :=
  let request := (tg.http.serialize (asyncRequest tg.token method json)).val
  { w with
    stream := { w.stream with calls := w.stream.calls ++ [⟨request, .writing request⟩] }
    asked := w.asked ++ [⟨caller, method, json, true⟩] }

/-- The coroutine came to `r`. -/
def goOn (tg : Telegram) (w : Wired) (r : LongPolling × PollOutput) : Wired :=
  match r with
  | (poll, .request params) =>
      { w with bot := { w.bot with poll := poll } }.call tg .poll "getUpdates" params
  | r => { w with bot := w.bot.goOn r }

/-- Has Telegram read the request of call `i`? -/
def reached (w : Wired) (i : Nat) : Bool :=
  w.stream.served.any fun e => e.request.any fun b => b.1 = i

/-- The task goes on after its call, which Telegram may have read when it fails. -/
def taskResult (i : Nat) (reached : Bool) : Except ErrorCode ProcessedResult → TaskEvent
  | .ok _ => .complete i
  | .error ec => if reached then .lose i (.systemError ec) else .abort i (.systemError ec)

/-- Call `i` completes, and its caller goes on. -/
def complete (tg : Telegram) (cfg : PollConfig) (mode : SqlMode) (w : Wired) (i : Nat)
    (result : Except ErrorCode ProcessedResult) : Option Wired :=
  match w.asked[i]? with
  | some ⟨caller, method, json, true⟩ =>
      let w := { w with asked := w.asked.set i ⟨caller, method, json, false⟩ }
      match caller with
      | .poll => some (w.goOn tg (w.bot.poll.onResponse cfg result))
      | .task j => (w.bot.step cfg mode (.task (taskResult j (w.reached i) result))).map
          fun bot => { w with bot := bot }
  | _ => none

/-- What Telegram reads next. -/
def next (tg : Telegram) (w : Wired) : Option (String × Object) :=
  match tg.http.requests.scan (untagged w.stream.outbound) with
  | .complete n => tg.read (untagged (w.stream.outbound.take n))
  | _ => none

/-- Telegram's queue after it has answered with `body`, if that is an answer. -/
def answer (tg : Telegram) (w : Wired) (n : Nat) (body : Value) : Option Server :=
  match w.next tg, processResponse body with
  | some ("getUpdates", params), .ok (.ok (.array vs)) =>
      let server := w.bot.server.forget ((ifContains params "offset").bind ifInt64)
      match (ifContains params "limit").bind ifInt64 with
      | some limit =>
          if (n : Int) ≤ limit.toInt ∧ vs = (server.held.take n).map Update.toValue then some server
          else none
      | none => none
  | some ("sendMessage", _), .ok (.ok (.object _)) => some w.bot.server
  | _, _ => none

/-- One event. -/
def step (tg : Telegram) (cfg : PollConfig) (mode : SqlMode) (w : Wired) :
    WiredEvent tg → Option Wired
  | .arrive u => (w.bot.step cfg mode (.arrive u)).map fun bot => { w with bot := bot }
  | .resume =>
      match w.bot.completion with
      | some _ => none
      | none => if w.bot.resumes = 0 then none else (w.bot.poll.resume cfg).map (w.goOn tg)
  | .onUpdate => (w.bot.step cfg mode .onUpdate).map fun bot => { w with bot := bot }
  | .task (.initiate i) =>
      (w.bot.step cfg mode (.task (.initiate i))).map fun bot =>
        match w.bot.tasks.fibers[i]?.bind nextMessage with
        | some json => { w with bot := bot }.call tg (.task i) "sendMessage" json
        | none => { w with bot := bot }
  | .task e =>
      if w.bot.tasks.fibers[e.index]?.any awaitsMessage then none
      else (w.bot.step cfg mode (.task e)).map fun bot => { w with bot := bot }
  | .write i n =>
      if w.broken then none
      else (w.stream.step tg.http tg.token (.write i n)).map fun stream => { w with stream := stream }
  | .serve n response =>
      (w.answer tg n (tg.http.body response.val)).bind fun server =>
        (w.stream.step tg.http tg.token (.serve response)).map fun stream =>
          { w with bot := { w.bot with server := server }, stream := stream }
  | .refuse response =>
      match processResponse (tg.http.body response.val) with
      | .ok (.error _) =>
          (w.stream.step tg.http tg.token (.serve response)).map fun stream => { w with stream := stream }
      | _ => none
  | .read i n =>
      if w.broken then none
      else (w.stream.step tg.http tg.token (.read i n)).bind fun stream =>
        match stream.result i with
        | none => some { w with stream := stream }
        | some result => { w with stream := stream }.complete tg cfg mode i (result.mapError tg.errorCode)
  | .cut => some { w with broken := true }
  | .fail i code =>
      if w.broken then w.complete tg cfg mode i (.error (.network code)) else none
  | .restart => some (start w.bot.server w.bot.tasks.world (w.bot.earlier ++ w.bot.handed))

/-- The call whose request is the next one on the stream. -/
def front (w : Wired) : Option Asked := w.stream.outbound.head?.bind fun b => w.asked[b.1]?

end Wired

variable {tg : Telegram} {cfg : PollConfig} {mode : SqlMode}

/-- No message is torn, and Telegram reads in a request what it was made from. -/
def Intact (w : Wired) : WiredEvent tg → Prop
  | .write i n => Untorn w.stream (.write i n : ConnectionEvent tg.http)
  | .read i n => Untorn w.stream (.read i n : ConnectionEvent tg.http)
  | .serve _ _ => ∀ a ∈ w.front, w.next tg = some (a.method, a.json)
  | _ => True

instance (w : Wired) : (e : WiredEvent tg) → Decidable (Intact w e)
  | .write i n => inferInstanceAs (Decidable (Untorn w.stream (.write i n : ConnectionEvent tg.http)))
  | .read i n => inferInstanceAs (Decidable (Untorn w.stream (.read i n : ConnectionEvent tg.http)))
  | .serve _ _ => inferInstanceAs (Decidable (∀ a ∈ w.front, w.next tg = some (a.method, a.json)))
  | .arrive _ | .resume | .onUpdate | .task _ | .refuse _ | .cut | .fail _ _ | .restart =>
      isTrue trivial

/-! ## the calls on the stream -/

variable {asked : List Asked} {stream stream' : Connection} {order : List Nat} {taken : Nat}
variable {got : List UInt8} {wire : Wire}

/-- The method that a caller calls. -/
def Caller.method : Caller → String
  | poll => "getUpdates"
  | task _ => "sendMessage"

/-- The calls are those on the stream, the requests of which `order` are written
and the first `taken` responses read; and each response is one to its request:
an error, a message, or updates if the poll has asked for them. -/
structure Ledger (tg : Telegram) (asked : List Asked) (stream : Connection) (order : List Nat)
    (taken : Nat) (got : List UInt8) : Prop where
  requests : Requests tg.http stream order
  responses : Responses tg.http stream taken got
  length : asked.length = stream.calls.length
  methods : ∀ a ∈ asked, a.method = a.caller.method
  answers : ∀ (k i : Nat) e a, stream.served[k]? = some e → order[k]? = some i → asked[i]? = some a →
    a.caller = .poll ∨ (∃ err, processResponse (tg.http.body e.response) = .ok (.error err)) ∨
      ∃ o, processResponse (tg.http.body e.response) = .ok (.ok (.object o))

/-- The responses to calls of the poll that are over have been read. -/
def Closed (asked : List Asked) (order : List Nat) (taken : Nat) : Prop :=
  ∀ (i : Nat) a, asked[i]? = some a → a.caller = .poll → a.pending = false →
    ∃ k, k < taken ∧ order[k]? = some i

/-- Call `i` is the pending call of the poll. -/
structure IsPollCall (asked : List Asked) (i : Nat) (json : Object) : Prop where
  made : asked[i]? = some ⟨.poll, "getUpdates", json, true⟩
  sole : ∀ (j : Nat) a, asked[j]? = some a → a.caller = .poll → a.pending = true → j = i

/-- The pending call of the poll, as the wire of the bot shows it. -/
inductive OnWire (tg : Telegram) (asked : List Asked) (served : List Served) (order : List Nat) :
    Wire → Prop
  | idle (h : ∀ a ∈ asked, a.caller = .poll → a.pending = false) : OnWire tg asked served order .idle
  | sent (i : Nat) (json : Object) (hi : IsPollCall asked i json)
      (unserved : i ∉ order.take served.length) : OnWire tg asked served order (.sent json)
  | answered (i k : Nat) (json : Object) (e : Served) (batch : List Update)
      (hi : IsPollCall asked i json) (hk : order[k]? = some i) (he : served[k]? = some e)
      (hbatch : processResponse (tg.http.body e.response) =
        .ok (.ok (.array (batch.map Update.toValue)))) :
      OnWire tg asked served order (.answered batch)
  | refused (i k : Nat) (json : Object) (e : Served) (err : ProtoError) (wire : Wire)
      (hi : IsPollCall asked i json) (hk : order[k]? = some i) (he : served[k]? = some e)
      (herr : processResponse (tg.http.body e.response) = .ok (.error err)) (hwire : wire ≠ .idle) :
      OnWire tg asked served order wire

/-- A pending call of the poll is on the wire. -/
theorem OnWire.isPollCall {served : List Served} {i : Nat} {a : Asked}
    (h : OnWire tg asked served order wire) (hi : asked[i]? = some a) (hcaller : a.caller = .poll)
    (hpending : a.pending = true) : wire ≠ .idle ∧ ∃ json, IsPollCall asked i json := by
  cases h with
  | idle hnone =>
      rw [hnone a (List.mem_of_getElem? hi) hcaller] at hpending
      contradiction
  | sent j json hj =>
      obtain rfl := hj.sole i a hi hcaller hpending
      exact ⟨by simp, json, hj⟩
  | answered j k json e batch hj =>
      obtain rfl := hj.sole i a hi hcaller hpending
      exact ⟨by simp, json, hj⟩
  | refused j k json e err wire hj hk he herr hwire =>
      obtain rfl := hj.sole i a hi hcaller hpending
      exact ⟨hwire, json, hj⟩

/-- The calls of the poll stay what they are. -/
theorem IsPollCall.mono {asked' : List Asked} {i : Nat} {json : Object} (h : IsPollCall asked i json)
    (hi : asked'[i]? = asked[i]?)
    (hsame : ∀ (j : Nat) a, asked'[j]? = some a → a.caller = .poll → a.pending = true →
      asked[j]? = some a) : IsPollCall asked' i json :=
  ⟨hi.trans h.made, fun j a hj hcaller hpending =>
    h.sole j a (hsame j a hj hcaller hpending) hcaller hpending⟩

/-- So what is on the wire stays there. -/
theorem OnWire.mono {asked' : List Asked} {served served' : List Served} {order' : List Nat}
    (h : OnWire tg asked served order wire)
    (hkeep : ∀ (i : Nat) json, asked[i]? = some ⟨.poll, "getUpdates", json, true⟩ →
      asked'[i]? = asked[i]?)
    (hsame : ∀ (j : Nat) a, asked'[j]? = some a → a.caller = .poll → a.pending = true →
      asked[j]? = some a)
    (hserved : ∀ (k : Nat) e, served[k]? = some e → served'[k]? = some e)
    (horder : ∀ k i : Nat, order[k]? = some i → order'[k]? = some i)
    (hunserved : ∀ (i : Nat) json, IsPollCall asked i json → i ∉ order.take served.length →
      i ∉ order'.take served'.length) : OnWire tg asked' served' order' wire := by
  cases h with
  | idle hnone =>
      refine .idle fun a ha hcaller => ?_
      by_contra hpending
      obtain ⟨j, hj⟩ := List.mem_iff_getElem?.mp ha
      have hpending : a.pending = true := by simpa using hpending
      have hold := hsame j a hj hcaller hpending
      rw [hnone a (List.mem_of_getElem? hold) hcaller] at hpending
      contradiction
  | sent i json hi hnot =>
      exact .sent i json (hi.mono (hkeep i json hi.made) hsame) (hunserved i json hi hnot)
  | answered i k json e batch hi hk he hbatch =>
      exact .answered i k json e batch (hi.mono (hkeep i json hi.made) hsame) (horder k i hk)
        (hserved k e he) hbatch
  | refused i k json e err wire hi hk he herr hwire =>
      exact .refused i k json e err wire (hi.mono (hkeep i json hi.made) hsame) (horder k i hk)
        (hserved k e he) herr hwire

/-! ## what an event does to them -/

/-- The call that wrote a request. -/
theorem Ledger.exists_asked (h : Ledger tg asked stream order taken got) {i : Nat} (hi : i ∈ order) :
    ∃ a, asked[i]? = some a := by
  have hlt := h.requests.made i hi
  rw [← h.length] at hlt
  exact ⟨asked[i], List.getElem?_eq_getElem hlt⟩

/-- In the sequence of the requests each call stands once. -/
theorem Ledger.eq_of_getElem? (h : Ledger tg asked stream order taken got) {k k' i : Nat}
    (hk : order[k]? = some i) (hk' : order[k']? = some i) : k = k' :=
  (List.getElem?_inj (List.getElem?_eq_some_iff.mp hk).1 h.requests.nodup).mp (hk.trans hk'.symm)

/-- A call begins. -/
theorem ledger_call (h : Ledger tg asked stream order taken got) (m : tg.http.requests.Message)
    {a : Asked} (ha : a.method = a.caller.method) :
    Ledger tg (asked ++ [a]) { stream with calls := stream.calls ++ [⟨m.val, .writing m.val⟩] } order
      taken got := by
  refine ⟨requests_start h.requests m, responses_start h.responses, ?_, fun a' ha' => ?_,
    fun k i e a' he hi ha' => ?_⟩
  · simp [h.length]
  · rcases List.mem_append.mp ha' with ha' | ha'
    · exact h.methods a' ha'
    · rw [List.mem_singleton.mp ha']
      exact ha
  · obtain ⟨a'', ha''⟩ := h.exists_asked (List.mem_of_getElem? hi)
    rw [List.getElem?_append_left (List.getElem?_eq_some_iff.mp ha'').1] at ha'
    exact h.answers k i e a' he hi ha'

/-- A call is over. -/
theorem Ledger.set (h : Ledger tg asked stream order taken got) {i : Nat} {a a' : Asked}
    (ha : asked[i]? = some a) (hcaller : a'.caller = a.caller) (hmethod : a'.method = a.method) :
    Ledger tg (asked.set i a') stream order taken got := by
  refine ⟨h.requests, h.responses, ?_, fun a'' ha'' => ?_, fun k j e a'' he hj ha'' => ?_⟩
  · rw [List.length_set]
    exact h.length
  · rcases List.mem_or_eq_of_mem_set ha'' with ha'' | rfl
    · exact h.methods a'' ha''
    · rw [hmethod, hcaller]
      exact h.methods a (List.mem_of_getElem? ha)
  · rcases getElem?_set_or ha ha'' with ⟨rfl, rfl⟩ | ⟨-, ha''⟩
    · rw [hcaller]
      exact h.answers k j e a he hj ha
    · exact h.answers k j e a'' he hj ha''

/-- A call writes. -/
theorem ledger_write (h : Ledger tg asked stream order taken got) {i n : Nat}
    (he : Untorn stream (.write i n : ConnectionEvent tg.http))
    (hstep : stream.step tg.http tg.token (.write i n) = some stream') :
    ∃ more, Ledger tg asked stream' (order ++ more) taken got ∧ stream'.served = stream.served := by
  obtain ⟨request, rest, hi, -, -, rfl⟩ := Connection.step_write hstep
  obtain ⟨more, hrequests⟩ := requests_write (n := n) h.requests hi (others_of_zipIdx he)
  refine ⟨more, ⟨hrequests, responses_write h.responses hi rfl rfl rfl rfl, ?_, h.methods,
    fun k j e a hk hj ha => ?_⟩, rfl⟩
  · rw [h.length]
    exact List.length_set.symm
  · have hlt : k < order.length :=
      (List.getElem?_eq_some_iff.mp hk).1.trans_le h.requests.served_le
    rw [List.getElem?_append_left hlt] at hj
    exact h.answers k j e a hk hj ha

/-- Telegram reads the request of a call, and responds. -/
theorem ledger_serve (h : Ledger tg asked stream order taken got) {response : tg.http.responses.Message}
    (hstep : stream.step tg.http tg.token (.serve response) = some stream') :
    ∃ (i : Nat) (a : Asked) (entry : Served), order[stream.served.length]? = some i ∧
      asked[i]? = some a ∧ stream.outbound.head?.bind (fun b => asked[b.1]?) = some a ∧
      entry.response = response.val ∧ stream'.served = stream.served ++ [entry] ∧
      ((a.caller = .poll ∨
          (∃ err, processResponse (tg.http.body response.val) = .ok (.error err)) ∨
          ∃ o, processResponse (tg.http.body response.val) = .ok (.ok (.object o))) →
        Ledger tg asked stream' order taken got) := by
  obtain ⟨n, hscan, rfl⟩ := Connection.step_serve hstep
  obtain ⟨i, hi, htake⟩ := h.requests.next hscan
  obtain ⟨a, ha⟩ := h.exists_asked (List.mem_of_getElem? hi)
  have hlt := h.requests.made i (List.mem_of_getElem? hi)
  have hhead : ∃ b, stream.outbound.head? = some (i, b) := by
    obtain ⟨m, hm⟩ := h.requests.message _ (List.getElem_mem hlt)
    have hrequest : stream.request i = m.val := by
      rw [← hm, request_of (List.getElem?_eq_getElem hlt)]
    obtain ⟨b, bs, hb⟩ := List.exists_cons_of_ne_nil m.ne_nil
    refine ⟨b, ?_⟩
    rw [← List.take_append_drop n stream.outbound, htake, hrequest, hb]
    rfl
  obtain ⟨b, hhead⟩ := hhead
  refine ⟨i, a, _, hi, ha, by rw [hhead]; exact ha, rfl, rfl, fun hanswer => ?_⟩
  refine ⟨requests_serve h.requests hi htake rfl rfl rfl rfl,
    responses_serve h.responses response rfl rfl rfl rfl rfl, h.length, h.methods,
    fun k j e a' hk hj ha' => ?_⟩
  rcases getElem?_concat_or hk with hk | ⟨rfl, hlast⟩
  · exact h.answers k j e a' hk hj ha'
  · rw [hi, Option.some.injEq] at hj
    subst hj
    rw [ha, Option.some.injEq] at ha'
    rw [← ha', ← hlast]
    exact hanswer

/-- A call reads of the next response, and completes with it when it is whole. -/
theorem ledger_read (h : Ledger tg asked stream order taken got) {i n : Nat}
    (he : Untorn stream (.read i n : ConnectionEvent tg.http))
    (hstep : stream.step tg.http tg.token (.read i n) = some stream') :
    stream'.served = stream.served ∧
    ((∃ got', stream'.result i = none ∧ Ledger tg asked stream' order taken got') ∨
      ∃ e, stream.served[taken]? = some e ∧
        stream'.result i = some ((processResponse (tg.http.body e.response)).mapError .json) ∧
        Ledger tg asked stream' order (taken + 1) []) := by
  obtain ⟨request, buffer, hi, hn, hle, rfl⟩ := Connection.step_read hstep
  obtain ⟨hothers, hone⟩ := he
  have hothers := others_of_zipIdx hothers
  have hbuffer : tagged taken got = buffer := h.responses.part.eq_of_others hi hothers
  have hlt := (List.getElem?_eq_some_iff.mp hi).1
  obtain ⟨e, hserved, hcases⟩ := h.responses.afterRead hn hle hone
  rw [hbuffer] at hcases
  refine ⟨rfl, ?_⟩
  rcases hcases with ⟨hin, hafter⟩ | ⟨more, rest, hsplit, hrest, hin, hafter⟩
  · rw [hafter]
    refine .inr ⟨e, hserved, ?_, ?_⟩
    · rw [Connection.result, List.getElem?_set_self hlt]
      rfl
    · exact ⟨requests_read h.requests hi (fun _ h => by cases h) rfl rfl rfl,
        responses_done h.responses hi hothers hserved rfl rfl (List.append_nil _) hin,
        h.length.trans List.length_set.symm, h.methods, h.answers⟩
  · rw [hafter]
    refine .inl ⟨got ++ more, ?_, ?_⟩
    · rw [Connection.result, List.getElem?_set_self hlt]
      rfl
    · exact ⟨requests_read h.requests hi (fun _ h => by cases h) rfl rfl rfl,
        responses_reading h.responses hi hothers hserved hsplit hrest rfl rfl (List.append_nil _) hin,
        h.length.trans List.length_set.symm, h.methods, h.answers⟩

end LearnWords
