import LearnWords.Bot.Stream

/-!
# LearnWords.Bot.Simulation

The bot over the shared stream is the bot of `LearnWords.Bot`, as long as no
message is torn (`botRun_of_run`).

A task takes the response to a poll for one to its message, without looking at
it; a poll that gets the response to a message raises, which the other bot
knows as a request that failed.

Telegram may still read the request of such a poll, and forget updates, when
in the other model the request is gone.  There it would have been served before
it failed; so until Telegram decides there is a run of the other bot for either
case (`Late`).
-/

namespace LearnWords

open Machine Framing

variable {tg : Telegram} {cfg : PollConfig} {mode : SqlMode} {server : Server} {world : World}
variable {asked : List Asked} {stream : Connection} {order : List Nat} {taken : Nat}
variable {got : List UInt8} {wire : Wire}

/-! ## events beside the poll -/

/-- Does the event leave the long poll alone? -/
def BotEvent.isLocal : BotEvent → Bool
  | .arrive _ | .onUpdate | .task _ => true
  | _ => false

/-- Such an event is the same whatever is on the wire. -/
theorem step_local {w w' : BotState} {e : BotEvent} (x : Wire) (he : e.isLocal = true)
    (h : w.step cfg mode e = some w') :
    { w with wire := x }.step cfg mode e = some { w' with wire := x } ∧ w'.poll = w.poll := by
  cases e with
  | arrive u =>
      obtain ⟨hu, rfl⟩ := BotState.step_arrive h
      exact ⟨arrive_possible cfg mode (w := { w with wire := x }) hu, rfl⟩
  | onUpdate =>
      obtain ⟨r, hr, rfl⟩ := BotState.step_onUpdate h
      have hstep := onUpdate_possible cfg mode (w := { w with wire := x }) hr
      cases r <;> exact ⟨hstep, rfl⟩
  | task e =>
      obtain ⟨tasks, htasks, rfl⟩ := BotState.step_task h
      exact ⟨by simp [BotState.step, htasks], rfl⟩
  | resume | serve | receive | fail | refuse | restart => simp [BotEvent.isLocal] at he

/-! ## requests served late -/

/-- Some run of the other bot comes to `b`. -/
abbrev Reached (cfg : PollConfig) (mode : SqlMode) (server : Server) (world : World) :
    BotState → Prop :=
  Reaches (BotState.step cfg mode) (fun _ => True) (.start server world [])

theorem Reached.steady {b : BotState} (h : Reached cfg mode server world b) : Steady cfg b :=
  h.invariant (fun _ _ _ => steady_step) (steady_start server world [])

/-- The bot, if Telegram had served a request with this offset. -/
def BotState.forget (b : BotState) (offset : Option Int64) : BotState :=
  { b with server := b.server.forget offset }

/-- A request for updates has failed, and some run comes to the same state but
for its having been served before. -/
structure Late (cfg : PollConfig) (mode : SqlMode) (server : Server) (world : World)
    (b : BotState) (offset : Option Int64) : Prop where
  known : ∀ o, offset = some o → ∃ v ∈ b.server.updates, v.id + 1 = o
  reached : 0 ≤ cfg.limit.toInt → Reached cfg mode server world (b.forget offset)

/-- What arrives is not below an offset. -/
theorem forget_arrive {s : Server} {u : Update} {offset : Option Int64}
    (known : ∀ o, offset = some o → ∃ v ∈ s.updates, v.id + 1 = o)
    (h : ∀ v ∈ s.updates, v.id < u.id) (h' : ∀ v ∈ (s.forget offset).updates, v.id < u.id) :
    (s.forget offset).arrive u h' = (s.arrive u h).forget offset := by
  cases offset with
  | none => rfl
  | some o =>
      obtain ⟨v, hv, rfl⟩ := known o rfl
      have hnot : ¬ u.id < v.id + 1 := by
        rw [lt_succ_iff v.bounded]
        exact Int64.not_le.mpr (h v hv)
      have hbelow : (s.arrive u h).below (v.id + 1) = s.below (v.id + 1) := by
        rw [Server.below, Server.below, Server.arrive, List.takeWhile_append]
        split
        · next hall =>
            rw [List.takeWhile_cons_of_neg (by simpa using hnot), List.append_nil]
            exact ((List.takeWhile_prefix _).eq_of_length hall).symm
        · rfl
      simp only [Server.forget, Server.arrive, Server.mk.injEq, true_and]
      rw [← hbelow]
      rfl

/-- An event that leaves the poll alone keeps both runs alike. -/
theorem Late.step {b b' : BotState} {e : BotEvent} {offset : Option Int64}
    (h : Late cfg mode server world b offset) (he : e.isLocal = true)
    (hstep : b.step cfg mode e = some b') : Late cfg mode server world b' offset := by
  have hboth : (b.forget offset).step cfg mode e = some (b'.forget offset) →
      (∀ v ∈ b.server.updates, v ∈ b'.server.updates) → Late cfg mode server world b' offset :=
    fun hforget hupdates => ⟨fun o ho => (h.known o ho).imp fun v hv => ⟨hupdates v hv.1, hv.2⟩,
      fun hlimit => (h.reached hlimit).trans (.single trivial hforget)⟩
  cases e with
  | arrive u =>
      obtain ⟨hu, rfl⟩ := BotState.step_arrive hstep
      have hu' : ∀ v ∈ (b.forget offset).server.updates, v.id < u.id := by
        intro v hv
        exact hu v (updates_forget b.server offset ▸ hv)
      refine hboth ?_ fun v hv => List.mem_append_left _ hv
      rw [arrive_possible cfg mode hu']
      simp only [BotState.forget, forget_arrive h.known hu]
  | onUpdate =>
      obtain ⟨r, hr, rfl⟩ := BotState.step_onUpdate hstep
      have hforget := onUpdate_possible cfg mode (w := b.forget offset) hr
      cases r <;> exact hboth hforget fun v hv => hv
  | task e =>
      obtain ⟨tasks, htasks, rfl⟩ := BotState.step_task hstep
      exact hboth (by simp [BotState.step, BotState.forget, htasks]) fun v hv => hv
  | resume | serve | receive | fail | refuse | restart => simp [BotEvent.isLocal] at he

/-- A request that fails could have been served before. -/
theorem late_of_sent {b : BotState} {f : BotEvent} {e : Exn} {json : Object}
    (h : Reached cfg mode server world b) (hwire : b.wire = .sent json)
    (hf : ∀ v : BotState, v.wire ≠ .idle →
      v.step cfg mode f = some (v.goOn (⟨v.poll.offset, .finished⟩, .raises e))) :
    ∃ offset, json = getUpdatesParams cfg offset ∧ Late cfg mode server world
      (b.goOn (⟨b.poll.offset, .finished⟩, .raises e)) offset := by
  obtain ⟨got, left, hp, hst⟩ := h.steady
  cases hst with
  | sent phase spent completion wire live resumes =>
      rw [hwire, Wire.sent.injEq] at wire
      subst wire
      refine ⟨b.poll.offset, rfl, fun o ho => ?_, fun hlimit => ?_⟩
      · rw [hp.offset] at ho
        obtain ⟨v, hv, ho⟩ := Option.map_eq_some_iff.mp ho
        exact ⟨v, List.mem_of_mem_drop (hp.received.subset (List.mem_of_getLast? hv)), ho⟩
      · have hserve := serve_possible cfg mode (n := 0) hwire (limit_getUpdatesParams cfg b.poll.offset)
          (by simpa using hlimit) rfl
        rw [offset_getUpdatesParams] at hserve
        exact (h.trans (.single trivial hserve)).trans (.single trivial (hf _ (by simp)))
  | suspended _ _ wire | answered _ _ _ _ wire | raised _ _ _ _ wire | ended _ _ _ wire =>
      simp [hwire] at wire

/-! ## calls that are over -/

/-- Call `i` of the poll is over, and Telegram has not read its request. -/
structure Gone (asked : List Asked) (served : List Served) (order : List Nat) (i : Nat) (a : Asked) :
    Prop where
  made : asked[i]? = some a
  caller : a.caller = .poll
  ended : a.pending = false
  unserved : i ∉ order.take served.length

/-- There is at most one such call, and Telegram may serve it late. -/
def Leftover (cfg : PollConfig) (mode : SqlMode) (server : Server) (world : World) (b : BotState)
    (asked : List Asked) (served : List Served) (order : List Nat) : Prop :=
  ∀ i a, Gone asked served order i a →
    (∃ offset, a.json = getUpdatesParams cfg offset ∧ Late cfg mode server world b offset) ∧
      ∀ j a', Gone asked served order j a' → j = i

theorem Leftover.mono {b b' : BotState} {asked' : List Asked} {served served' : List Served}
    {order' : List Nat} (h : Leftover cfg mode server world b asked served order)
    (hgone : ∀ i a, Gone asked' served' order' i a → Gone asked served order i a)
    (hlate : ∀ offset, Late cfg mode server world b offset → Late cfg mode server world b' offset) :
    Leftover cfg mode server world b' asked' served' order' := by
  intro i a hi
  obtain ⟨⟨offset, hjson, h⟩, honly⟩ := h i a (hgone i a hi)
  exact ⟨⟨offset, hjson, hlate offset h⟩, fun j a' hj => honly j a' (hgone j a' hj)⟩

/-- The calls in the first part of the sequence. -/
theorem mem_take_of_getElem? {k n i : Nat} (hk : k < n) (hi : order[k]? = some i) : i ∈ order.take n :=
  List.mem_iff_getElem?.mpr ⟨k, by rw [List.getElem?_take_of_lt hk]; exact hi⟩

/-- Each call stands in the sequence once. -/
theorem notMem_take_of_getElem? {n i : Nat} (horder : order.Nodup) (hi : order[n]? = some i) :
    i ∉ order.take n := by
  intro hmem
  obtain ⟨k, hk, hki⟩ := List.mem_take_iff_getElem.mp hmem
  have hlt : k < order.length := by omega
  have hsame := (List.getElem?_inj hlt horder).mp
    ((List.getElem?_eq_some_iff.mpr ⟨hlt, hki⟩).trans hi.symm)
  omega

/-- Where all calls of the poll that are over have read their responses, there
is none. -/
theorem Closed.not_gone {served : List Served} {i : Nat} {a : Asked} (h : Closed asked order taken)
    (hle : taken ≤ served.length) : ¬ Gone asked served order i a := by
  intro hi
  obtain ⟨k, hk, hik⟩ := h i a hi.made hi.caller hi.ended
  exact hi.unserved (mem_take_of_getElem? (hk.trans_le hle) hik)

/-- Telegram reads a request. -/
theorem gone_serve {served : List Served} {entry : Served} {i j : Nat} {a : Asked}
    (h : Gone asked (served ++ [entry]) order j a) (hi : order[served.length]? = some i) :
    Gone asked served order j a ∧ j ≠ i := by
  have hnot := h.unserved
  rw [List.length_append, List.length_singleton, List.take_add_one, hi] at hnot
  refine ⟨⟨h.made, h.caller, h.ended, fun hmem => hnot (List.mem_append_left _ hmem)⟩, ?_⟩
  rintro rfl
  exact hnot (List.mem_append_right _ (by simp))

/-! ## the other bot -/

/-- The bot `b` of the other model is the one on the stream, with the pending
call of the poll on its wire. -/
structure Follows (tg : Telegram) (cfg : PollConfig) (mode : SqlMode) (server : Server)
    (world : World) (w : Wired) (b : BotState) : Prop where
  reached : Reached cfg mode server world b
  bot : b = { w.bot with wire := b.wire }
  calls : ∃ order taken got, Ledger tg w.asked w.stream order taken got ∧
    OnWire tg w.asked w.stream.served order b.wire ∧
    (w.bot.poll.phase ≠ .finished → Closed w.asked order taken) ∧
    Leftover cfg mode server world b w.asked w.stream.served order

theorem Reached.step {b b' : BotState} {e : BotEvent} (h : Reached cfg mode server world b)
    (hstep : b.step cfg mode e = some b') : Reached cfg mode server world b' :=
  h.trans (.single trivial hstep)

/-- The program is started, with a stream of its own. -/
theorem follows_start {earlier : List Object} {server' : Server} {world' : World}
    (h : Reached cfg mode server world (.start server' world' earlier)) :
    Follows tg cfg mode server world (.start server' world' earlier) (.start server' world' earlier) := by
  refine ⟨h, rfl, [], 0, [], ⟨requests_make, responses_make, rfl, ?_, ?_⟩, .idle ?_, fun _ => ?_,
    fun i a hi => ?_⟩
  · simp [Wired.start]
  · simp [Wired.start, Connection.make]
  · simp [Wired.start]
  · simp [Closed, Wired.start]
  · have hmade := hi.made
    simp [Wired.start] at hmade

theorem follows_local {w : Wired} {b bot : BotState} {e : BotEvent}
    (h : Follows tg cfg mode server world w b) (he : e.isLocal = true)
    (hstep : w.bot.step cfg mode e = some bot) :
    ∃ b', Follows tg cfg mode server world { w with bot := bot } b' := by
  obtain ⟨hreached, hb, order, taken, got, hledger, hwire, hclosed, hleft⟩ := h
  obtain ⟨hstep', hpoll⟩ := step_local b.wire he hstep
  rw [← hb] at hstep'
  refine ⟨_, hreached.step hstep', rfl, order, taken, got, hledger, hwire, ?_,
    hleft.mono (fun _ _ hi => hi) fun _ hlate => hlate.step he hstep'⟩
  show bot.poll.phase ≠ .finished → _
  rw [hpoll]
  exact hclosed

/-- With no call of the poll pending, its coroutine goes on, perhaps to its next
call. -/
theorem follows_goOn {w : Wired} {b : BotState} {r : LongPolling × PollOutput}
    (hb : b = { w.bot with wire := b.wire }) (hreached : Reached cfg mode server world (b.goOn r))
    (hledger : Ledger tg w.asked w.stream order taken got)
    (hnone : ∀ a ∈ w.asked, a.caller = .poll → a.pending = false)
    (hclosed : r.1.phase ≠ .finished → Closed w.asked order taken)
    (hleft : Leftover cfg mode server world (b.goOn r) w.asked w.stream.served order) :
    Follows tg cfg mode server world (w.goOn tg r) (b.goOn r) := by
  obtain ⟨poll, output⟩ := r
  cases output with
  | yields update =>
      exact ⟨hreached, by rw [hb]; rfl, order, taken, got, hledger, .idle hnone, hclosed, hleft⟩
  | raises e =>
      exact ⟨hreached, by rw [hb]; rfl, order, taken, got, hledger, .idle hnone, hclosed, hleft⟩
  | request params =>
      have hold : ∀ (j : Nat) a, (w.asked ++ [⟨.poll, "getUpdates", params, true⟩])[j]? = some a →
          w.asked[j]? = some a ∨ (j = w.asked.length ∧ a.pending = true) := by
        intro j a hj
        rcases getElem?_concat_or hj with hj | ⟨rfl, rfl⟩
        · exact .inl hj
        · exact .inr ⟨rfl, rfl⟩
      refine ⟨hreached, by rw [hb]; rfl, order, taken, got, ledger_call hledger _ rfl,
        .sent w.asked.length params ⟨List.getElem?_concat_length, fun j a hj hcaller hpending => ?_⟩
          fun hmem => ?_, fun hphase j a hj hcaller hpending => ?_,
        hleft.mono (fun j a hj => ⟨?_, hj.caller, hj.ended, hj.unserved⟩) fun _ h => h⟩
      · rcases hold j a hj with hj | ⟨rfl, -⟩
        · rw [hnone a (List.mem_of_getElem? hj) hcaller] at hpending
          contradiction
        · rfl
      · have hlt := hledger.requests.made _ (List.mem_of_mem_take hmem)
        rw [hledger.length] at hlt
        exact absurd hlt (Nat.lt_irrefl _)
      · rcases hold j a hj with hj | ⟨-, htrue⟩
        · exact hclosed hphase j a hj hcaller hpending
        · rw [htrue] at hpending
          contradiction
      · rcases hold j a hj.made with hmade | ⟨-, htrue⟩
        · exact hmade
        · rw [hj.ended] at htrue
          contradiction

/-- Where the poll waits for a response its coroutine has not ended. -/
theorem Steady.requesting {b : BotState} (h : Steady cfg b) (hwire : b.wire ≠ .idle) :
    b.poll.phase = .requesting := by
  obtain ⟨got, left, -, hst⟩ := h
  cases hst with
  | sent phase | answered _ phase => exact phase
  | suspended _ _ wire | raised _ _ _ _ wire | ended _ _ _ wire => exact absurd wire hwire

theorem Reached.not_finished {b b' : BotState} (h : Reached cfg mode server world b)
    (hb : b = { b' with wire := b.wire }) (hbusy : b.wire ≠ .idle) : b'.poll.phase ≠ .finished := by
  have hpoll : b.poll = b'.poll := by rw [hb]
  rw [← hpoll, h.steady.requesting hbusy]
  simp

/-! ## a call completes -/

/-- A call of a task is over: those of the poll are what they were. -/
theorem getElem?_set_task {i j t : Nat} {a : Asked} {method : String} {json : Object}
    (hi : asked[i]? = some ⟨.task t, method, json, true⟩)
    (hj : (asked.set i ⟨.task t, method, json, false⟩)[j]? = some a) (hcaller : a.caller = .poll) :
    asked[j]? = some a := by
  rcases getElem?_set_or hi hj with ⟨-, rfl⟩ | ⟨-, hj⟩
  · contradiction
  · exact hj

theorem OnWire.set_task {served : List Served} {i t : Nat} {method : String} {json : Object}
    (h : OnWire tg asked served order wire) (hi : asked[i]? = some ⟨.task t, method, json, true⟩) :
    OnWire tg (asked.set i ⟨.task t, method, json, false⟩) served order wire := by
  refine h.mono (fun j json' hj => ?_) (fun j a hj hcaller _ => getElem?_set_task hi hj hcaller)
    (fun _ _ h => h) (fun _ _ h => h) fun _ _ _ h => h
  have hne : i ≠ j := by
    rintro rfl
    rw [hi] at hj
    simp at hj
  exact List.getElem?_set_ne hne

/-- The request of the pending call of the poll, before Telegram reads it. -/
theorem OnWire.sent_of_unserved {served : List Served} {i : Nat} {json : Object}
    (h : OnWire tg asked served order wire) (hcall : IsPollCall asked i json) (hbusy : wire ≠ .idle)
    (hnot : i ∉ order.take served.length) : wire = .sent json := by
  cases h with
  | idle => exact absurd rfl hbusy
  | sent j json' hj =>
      obtain rfl := hj.sole i _ hcall.made rfl rfl
      have hsame := hcall.made.symm.trans hj.made
      simp only [Option.some.injEq, Asked.mk.injEq, true_and, and_true] at hsame
      rw [hsame]
  | answered j k json' e batch hj hk he | refused j k json' e err wire hj hk he =>
      obtain rfl := hj.sole i _ hcall.made rfl rfl
      exact absurd (mem_take_of_getElem? (List.getElem?_eq_some_iff.mp he).1 hk) hnot

/-- Call `i` of the poll is over: in the other model the request has got its
response or failed, and in the latter case it may be served late. -/
structure Completes (cfg : PollConfig) (mode : SqlMode) (server : Server) (world : World)
    (b : BotState) (served : List Served) (order : List Nat) (taken i : Nat) (json : Object)
    (r : LongPolling × PollOutput) : Prop where
  reached : Reached cfg mode server world (b.goOn r)
  read : r.1.phase ≠ .finished → ∃ k, k < taken ∧ order[k]? = some i
  late : i ∉ order.take served.length →
    ∃ offset, json = getUpdatesParams cfg offset ∧ Late cfg mode server world (b.goOn r) offset

/-- The request fails. -/
theorem completes_raises {b : BotState} {served : List Served} {i : Nat} {json : Object}
    {f : BotEvent} {e : Exn} (h : Reached cfg mode server world b)
    (hwire : OnWire tg asked served order b.wire) (hcall : IsPollCall asked i json)
    (hbusy : b.wire ≠ .idle)
    (hf : ∀ v : BotState, v.wire ≠ .idle →
      v.step cfg mode f = some (v.goOn (⟨v.poll.offset, .finished⟩, .raises e))) :
    Completes cfg mode server world b served order taken i json
      (⟨b.poll.offset, .finished⟩, .raises e) :=
  ⟨h.step (hf b hbusy), fun hphase => absurd rfl hphase,
    fun hnot => late_of_sent h (hwire.sent_of_unserved hcall hbusy hnot) hf⟩

/-- A call completes: its caller goes on, in both models. -/
theorem follows_complete {w w' : Wired} {b : BotState} {i : Nat}
    {result : Except ErrorCode ProcessedResult} (hreached : Reached cfg mode server world b)
    (hb : b = { w.bot with wire := b.wire }) (hledger : Ledger tg w.asked w.stream order taken got)
    (hwire : OnWire tg w.asked w.stream.served order b.wire)
    (hclosed : w.bot.poll.phase ≠ .finished → Closed w.asked order taken)
    (hleft : Leftover cfg mode server world b w.asked w.stream.served order)
    (hstep : w.complete tg cfg mode i result = some w')
    (hpoll : ∀ json, IsPollCall w.asked i json → b.wire ≠ .idle →
      Completes cfg mode server world b w.stream.served order taken i json
        (b.poll.onResponse cfg result)) :
    ∃ b', Follows tg cfg mode server world w' b' := by
  unfold Wired.complete at hstep
  split at hstep
  · next caller method json hi =>
      cases caller with
      | task t =>
          obtain ⟨bot, hbot, rfl⟩ := Option.map_eq_some_iff.mp hstep
          have hfollows : Follows tg cfg mode server world
              { w with asked := w.asked.set i ⟨.task t, method, json, false⟩ } b :=
            ⟨hreached, hb, order, taken, got, hledger.set hi rfl rfl, hwire.set_task hi,
              fun hphase j a hj hcaller hpending =>
                hclosed hphase j a (getElem?_set_task hi hj hcaller) hcaller hpending,
              hleft.mono (fun j a hj =>
                ⟨getElem?_set_task hi hj.made hj.caller, hj.caller, hj.ended, hj.unserved⟩) fun _ h => h⟩
          exact follows_local hfollows rfl hbot
      | poll =>
          obtain rfl := Option.some.inj hstep
          obtain ⟨hbusy, json', hcall⟩ := hwire.isPollCall hi rfl rfl
          obtain rfl : json' = json := by
            have hsame := hcall.made.symm.trans hi
            simp only [Option.some.injEq, Asked.mk.injEq] at hsame
            exact hsame.2.2.1
          obtain ⟨hgoesOn, hread, hlate⟩ := hpoll json' hcall hbusy
          have hphase := hreached.not_finished hb hbusy
          have hsame : b.poll = w.bot.poll := by rw [hb]
          rw [hsame] at hgoesOn hread hlate
          refine ⟨_, follows_goOn (w := { w with asked := _ }) hb hgoesOn (hledger.set hi rfl rfl)
            (fun a ha hcaller => ?_) (fun hnext j a hj hcaller hpending => ?_) fun j a hj => ?_⟩
          · obtain ⟨j, hj⟩ := List.mem_iff_getElem?.mp ha
            rcases getElem?_set_or hi hj with ⟨-, rfl⟩ | ⟨hne, hj⟩
            · rfl
            · by_contra hpending
              exact hne (hcall.sole j a hj hcaller (by simpa using hpending))
          · rcases getElem?_set_or hi hj with ⟨rfl, -⟩ | ⟨-, hj⟩
            · exact hread hnext
            · exact hclosed hphase j a hj hcaller hpending
          · -- all earlier calls of the poll have got their responses
            have honly : ∀ (j : Nat) a, Gone (w.asked.set i ⟨.poll, method, json', false⟩)
                w.stream.served order j a → j = i ∧ a = ⟨.poll, method, json', false⟩ := by
              intro j a hj
              rcases getElem?_set_or hi hj.made with hnew | ⟨-, hold⟩
              · exact hnew
              · exact absurd ⟨hold, hj.caller, hj.ended, hj.unserved⟩
                  ((hclosed hphase).not_gone hledger.responses.taken_le)
            obtain ⟨rfl, rfl⟩ := honly j a hj
            exact ⟨hlate hj.unserved, fun j' a' hj' => (honly j' a' hj').1⟩
  · contradiction

/-- What a call of the poll gets is the response to it, or the bot takes it for
a failure. -/
theorem poll_completes {b : BotState} {i : Nat} {json : Object} {e : Served}
    (hreached : Reached cfg mode server world b) (hledger : Ledger tg asked stream order taken got)
    (hwire : OnWire tg asked stream.served order b.wire) (hclosed : Closed asked order taken)
    (hcall : IsPollCall asked i json) (hbusy : b.wire ≠ .idle)
    (he : stream.served[taken]? = some e) :
    Completes cfg mode server world b stream.served order (taken + 1) i json
      (b.poll.onResponse cfg
        (((processResponse (tg.http.body e.response)).mapError RequestError.json).mapError
          tg.errorCode)) := by
  have hserved := (List.getElem?_eq_some_iff.mp he).1
  obtain ⟨o, ho⟩ : ∃ o, order[taken]? = some o :=
    ⟨_, List.getElem?_eq_getElem (hserved.trans_le hledger.requests.served_le)⟩
  obtain ⟨a, ha⟩ := hledger.exists_asked (List.mem_of_getElem? ho)
  rcases hledger.answers taken o e a he ho ha with hcaller | ⟨err, herr⟩ | ⟨msg, hmsg⟩
  · cases hpending : a.pending with
    | false =>
        -- the response to a call that is over has been read before
        obtain ⟨k, hk, ho'⟩ := hclosed o a ha hcaller hpending
        have hsame := hledger.eq_of_getElem? ho' ho
        omega
    | true =>
        obtain rfl : o = i := hcall.sole o a ha hcaller hpending
        have hread : ∃ k, k < taken + 1 ∧ order[k]? = some o := ⟨taken, Nat.lt_succ_self _, ho⟩
        have hmem := mem_take_of_getElem? hserved ho
        generalize hw : b.wire = wire at hwire hbusy
        cases hwire with
        | idle => exact absurd rfl hbusy
        | sent j json' hj unserved =>
            obtain rfl : o = j := hj.sole o _ hcall.made rfl rfl
            exact absurd hmem unserved
        | answered j k json' e' batch hj hk he' hbatch =>
            obtain rfl : o = j := hj.sole o _ hcall.made rfl rfl
            obtain rfl := hledger.eq_of_getElem? hk ho
            rw [he, Option.some.injEq] at he'
            subst he'
            rw [hbatch]
            exact ⟨hreached.step (receive_possible cfg mode hw), fun _ => hread,
              fun hnot => absurd hmem hnot⟩
        | refused j k json' e' err _ hj hk he' herr =>
            obtain rfl : o = j := hj.sole o _ hcall.made rfl rfl
            obtain rfl := hledger.eq_of_getElem? hk ho
            rw [he, Option.some.injEq] at he'
            subst he'
            rw [herr]
            exact ⟨hreached.step (refuse_possible cfg mode (hw ▸ hbusy)), fun _ => hread,
              fun hnot => absurd hmem hnot⟩
  · rw [herr]
    exact completes_raises hreached hwire hcall hbusy fun _ hv => refuse_possible cfg mode hv
  · rw [hmsg]
    exact completes_raises hreached hwire hcall hbusy fun _ hv =>
      fail_possible cfg mode hv

/-! ## one event -/

/-- What Telegram has taken for a request, if it has answered one. -/
theorem Wired.answer_cases {w : Wired} {n : Nat} {body : Value} {server : Server}
    (h : w.answer tg n body = some server) :
    (∃ params limit, w.next tg = some ("getUpdates", params) ∧
      (ifContains params "limit").bind ifInt64 = some limit ∧ (n : Int) ≤ limit.toInt ∧
      server = w.bot.server.forget ((ifContains params "offset").bind ifInt64) ∧
      processResponse body = .ok (.ok (.array ((server.held.take n).map Update.toValue)))) ∨
    (∃ json o, w.next tg = some ("sendMessage", json) ∧ server = w.bot.server ∧
      processResponse body = .ok (.ok (.object o))) := by
  unfold Wired.answer at h
  split at h
  · next params vs hnext hbody =>
      dsimp only at h
      split at h
      · next limit hlimit =>
          split at h
          · next hcan =>
              obtain rfl := Option.some.inj h
              exact .inl ⟨params, limit, hnext, hlimit, hcan.1, rfl, hcan.2 ▸ hbody⟩
          · contradiction
      · contradiction
  · next json o hnext hbody => exact .inr ⟨json, o, hnext, (Option.some.inj h).symm, hbody⟩
  · contradiction

/-- Where it has read the request of a call, the answer is one to that call. -/
theorem Wired.answer_call {w : Wired} {n : Nat} {body : Value} {queue : Server} {a : Asked}
    (h : w.answer tg n body = some queue) (hnext : w.next tg = some (a.method, a.json))
    (hmethod : a.method = a.caller.method) :
    (∃ limit, a.caller = .poll ∧ (ifContains a.json "limit").bind ifInt64 = some limit ∧
      (n : Int) ≤ limit.toInt ∧
      queue = w.bot.server.forget ((ifContains a.json "offset").bind ifInt64) ∧
      processResponse body = .ok (.ok (.array ((queue.held.take n).map Update.toValue)))) ∨
    (∃ o, a.caller ≠ .poll ∧ queue = w.bot.server ∧ processResponse body = .ok (.ok (.object o))) := by
  rcases Wired.answer_cases h with
    ⟨params, limit, hread, hlimit, hn, hqueue, hbody⟩ | ⟨json, o, hread, hqueue, hbody⟩
  · rw [hnext, Option.some.injEq, Prod.mk.injEq] at hread
    obtain ⟨hupdates, rfl⟩ := hread
    refine .inl ⟨limit, ?_, hlimit, hn, hqueue, hbody⟩
    cases hc : a.caller with
    | poll => rfl
    | task t =>
        rw [hupdates, hc] at hmethod
        simp [Caller.method] at hmethod
  · rw [hnext, Option.some.injEq, Prod.mk.injEq] at hread
    refine .inr ⟨o, fun hc => ?_, hqueue, hbody⟩
    rw [hread.1, hc] at hmethod
    simp [Caller.method] at hmethod

/-- Telegram answers a request that is not the pending one of the poll. -/
theorem OnWire.serve_other {served : List Served} {entry : Served} {i : Nat} {a : Asked}
    (h : OnWire tg asked served order wire) (hi : order[served.length]? = some i)
    (ha : asked[i]? = some a) (hother : a.caller = .poll → a.pending = false) :
    OnWire tg asked (served ++ [entry]) order wire := by
  refine h.mono (fun _ _ _ => rfl) (fun _ _ h _ _ => h) (fun k e hk => ?_) (fun _ _ h => h)
    fun j json hj hnot hmem => ?_
  · rw [List.getElem?_append_left (List.getElem?_eq_some_iff.mp hk).1]
    exact hk
  · rw [List.length_append, List.length_singleton, List.take_add_one, hi] at hmem
    rcases List.mem_append.mp hmem with hmem | hmem
    · exact hnot hmem
    · obtain rfl : j = i := by simpa using hmem
      rw [hj.made, Option.some.injEq] at ha
      subst ha
      exact absurd (hother rfl) (by simp)

/-- Telegram answers the pending call of the poll, which it has not done
before. -/
theorem OnWire.serve_poll {served : List Served} {i : Nat} {a : Asked}
    (h : OnWire tg asked served order wire) (horder : order.Nodup)
    (hi : order[served.length]? = some i) (ha : asked[i]? = some a) (hcaller : a.caller = .poll)
    (hpending : a.pending = true) : wire = .sent a.json ∧ IsPollCall asked i a.json := by
  have hnot : ∀ {k : Nat} {e : Served}, order[k]? = some i → served[k]? ≠ some e := fun hk he =>
    notMem_take_of_getElem? horder hi (mem_take_of_getElem? (List.getElem?_eq_some_iff.mp he).1 hk)
  cases h with
  | idle hnone =>
      rw [hnone a (List.mem_of_getElem? ha) hcaller] at hpending
      contradiction
  | sent j json hj =>
      obtain rfl := hj.sole i a ha hcaller hpending
      have hmade := hj.made
      rw [ha, Option.some.injEq] at hmade
      subst hmade
      exact ⟨rfl, hj⟩
  | answered j k json e batch hj hk he | refused j k json e err _ hj hk he =>
      obtain rfl := hj.sole i a ha hcaller hpending
      exact absurd he (hnot hk)

/-- Telegram answers a request, perhaps one of the poll that is over. -/
theorem follows_serve {w w' : Wired} {b : BotState} {n : Nat} {response : tg.http.responses.Message}
    (h : Follows tg cfg mode server world w b) (he : Intact w (.serve n response))
    (hstep : w.step tg cfg mode (.serve n response) = some w') :
    ∃ b', Follows tg cfg mode server world w' b' := by
  obtain ⟨hreached, hb, order, taken, got, hledger, hwire, hclosed, hleft⟩ := h
  obtain ⟨queue, hanswer, hmap⟩ := Option.bind_eq_some_iff.mp hstep
  obtain ⟨stream, hstream, rfl⟩ := Option.map_eq_some_iff.mp hmap
  obtain ⟨i, a, entry, hi, ha, hfront, hresponse, hserved, hledger'⟩ := ledger_serve hledger hstream
  have hnext := he a hfront
  have hmethod := hledger.methods a (List.mem_of_getElem? ha)
  have hbefore : ∀ j a', Gone w.asked stream.served order j a' →
      Gone w.asked w.stream.served order j a' ∧ j ≠ i := by
    rw [hserved]
    exact fun j a' hj => gone_serve hj hi
  rcases Wired.answer_call hanswer hnext hmethod with
    ⟨limit, hcaller, hlimit, hn, hqueue, hbody⟩ | ⟨o, hcaller, rfl, hbody⟩
  · have hsame : b.server = w.bot.server := by rw [hb]
    rw [← hsame] at hqueue
    cases hpending : a.pending with
    | true =>
        obtain ⟨hsent, hcall⟩ :=
          hwire.serve_poll hledger.requests.nodup hi ha hcaller hpending
        have hphase := hreached.not_finished hb (by rw [hsent]; simp)
        have hserve := serve_possible cfg mode hsent hlimit hn hqueue
        refine ⟨_, hreached.step hserve, by rw [hb], order, taken, got, hledger' (.inl hcaller), ?_,
          hclosed, fun j a' hj => ?_⟩
        · refine .answered i w.stream.served.length a.json entry _ hcall hi ?_ (hresponse ▸ hbody)
          rw [hserved]
          exact List.getElem?_concat_length
        · exact absurd (hbefore j a' hj).1
            ((hclosed hphase).not_gone hledger.responses.taken_le)
    | false =>
        -- the run in which it was served before is the right one now
        have hgone : Gone w.asked w.stream.served order i a :=
          ⟨ha, hcaller, hpending, notMem_take_of_getElem? hledger.requests.nodup hi⟩
        obtain ⟨⟨offset, hjson, hlate⟩, honly⟩ := hleft i a hgone
        rw [hjson, limit_getUpdatesParams, Option.some.injEq] at hlimit
        rw [hjson, offset_getUpdatesParams] at hqueue
        have hpossible : 0 ≤ cfg.limit.toInt := by
          rw [← hlimit, Int32.toInt_toInt64] at hn
          omega
        refine ⟨b.forget offset, hlate.reached hpossible, ?_, order, taken, got,
          hledger' (.inl hcaller), ?_, hclosed, fun j a' hj => ?_⟩
        · rw [BotState.forget, ← hqueue, hb]
        · show OnWire tg w.asked stream.served order b.wire
          rw [hserved]
          exact hwire.serve_other hi ha fun _ => hpending
        · obtain ⟨hj, hne⟩ := hbefore j a' hj
          exact absurd (honly j a' hj) hne
  · refine ⟨b, hreached, hb, order, taken, got, hledger' (.inr (.inr ⟨o, hbody⟩)), ?_, hclosed,
      hleft.mono (fun j a' hj => (hbefore j a' hj).1) fun _ h => h⟩
    show OnWire tg w.asked stream.served order b.wire
    rw [hserved]
    exact hwire.serve_other hi ha fun hc => absurd hc hcaller

/-- Telegram refuses a request. -/
theorem follows_refuse {w w' : Wired} {b : BotState} {response : tg.http.responses.Message}
    (h : Follows tg cfg mode server world w b)
    (hstep : w.step tg cfg mode (.refuse response) = some w') :
    Follows tg cfg mode server world w' b := by
  obtain ⟨hreached, hb, order, taken, got, hledger, hwire, hclosed, hleft⟩ := h
  simp only [Wired.step] at hstep
  split at hstep
  · next err herr =>
      obtain ⟨stream, hstream, rfl⟩ := Option.map_eq_some_iff.mp hstep
      obtain ⟨i, a, entry, hi, ha, -, hresponse, hserved, hledger'⟩ := ledger_serve hledger hstream
      refine ⟨hreached, hb, order, taken, got, hledger' (.inr (.inl ⟨err, herr⟩)), ?_, hclosed,
        hleft.mono (fun j a' hj => ?_) fun _ h => h⟩
      · show OnWire tg w.asked stream.served order b.wire
        rw [hserved]
        by_cases hcall : a.caller = .poll ∧ a.pending = true
        · obtain ⟨hsent, hpoll⟩ := hwire.serve_poll hledger.requests.nodup hi ha hcall.1 hcall.2
          exact .refused i w.stream.served.length a.json entry err b.wire hpoll hi
            List.getElem?_concat_length (hresponse ▸ herr) (by rw [hsent]; simp)
        · refine hwire.serve_other hi ha fun hc => ?_
          by_contra hpending
          exact hcall ⟨hc, by simpa using hpending⟩
      · have hj : Gone w.asked stream.served order j a' := hj
        rw [hserved] at hj
        exact (gone_serve hj hi).1
  · contradiction

/-- A call reads. -/
theorem follows_read {w w' : Wired} {b : BotState} {i n : Nat}
    (h : Follows tg cfg mode server world w b) (he : Intact w (.read i n : WiredEvent tg))
    (hstep : w.step tg cfg mode (.read i n) = some w') :
    ∃ b', Follows tg cfg mode server world w' b' := by
  obtain ⟨hreached, hb, order, taken, got, hledger, hwire, hclosed, hleft⟩ := h
  simp only [Wired.step] at hstep
  split at hstep
  · contradiction
  · obtain ⟨stream, hstream, hresult⟩ := Option.bind_eq_some_iff.mp hstep
    obtain ⟨hserved, hcases⟩ := ledger_read hledger he hstream
    have hwire' : OnWire tg w.asked stream.served order b.wire := hserved ▸ hwire
    have hleft' : Leftover cfg mode server world b w.asked stream.served order := hserved ▸ hleft
    rcases hcases with ⟨got', hnone, hledger'⟩ | ⟨e, hentry, hsome, hledger'⟩
    · rw [hnone] at hresult
      obtain rfl := Option.some.inj hresult
      exact ⟨b, hreached, hb, order, taken, got', hledger', hwire', hclosed, hleft'⟩
    · rw [hsome] at hresult
      have hmore : w.bot.poll.phase ≠ .finished → Closed w.asked order (taken + 1) := by
        intro hphase j a hj hcaller hpending
        obtain ⟨k, hk, hjk⟩ := hclosed hphase j a hj hcaller hpending
        exact ⟨k, Nat.lt_succ_of_lt hk, hjk⟩
      refine follows_complete (w := { w with stream := stream }) hreached hb hledger' hwire' hmore
        hleft' hresult fun json hcall hbusy => ?_
      have hphase := hreached.not_finished hb hbusy
      show Completes cfg mode server world b stream.served order (taken + 1) i json _
      rw [hserved]
      exact poll_completes hreached hledger hwire (hclosed hphase) hcall hbusy hentry

/-- A call writes. -/
theorem follows_write {w w' : Wired} {b : BotState} {i n : Nat}
    (h : Follows tg cfg mode server world w b) (he : Intact w (.write i n : WiredEvent tg))
    (hstep : w.step tg cfg mode (.write i n) = some w') :
    Follows tg cfg mode server world w' b := by
  obtain ⟨hreached, hb, order, taken, got, hledger, hwire, hclosed, hleft⟩ := h
  simp only [Wired.step] at hstep
  split at hstep
  · contradiction
  · obtain ⟨stream, hstream, rfl⟩ := Option.map_eq_some_iff.mp hstep
    obtain ⟨more, hledger', hserved⟩ := ledger_write hledger he hstream
    have hkeep : ∀ k j : Nat, order[k]? = some j → (order ++ more)[k]? = some j := by
      intro k j hk
      rw [List.getElem?_append_left (List.getElem?_eq_some_iff.mp hk).1]
      exact hk
    have htake : (order ++ more).take w.stream.served.length = order.take w.stream.served.length :=
      List.take_append_of_le_length hledger.requests.served_le
    refine ⟨hreached, hb, order ++ more, taken, got, hledger', ?_,
      fun hphase j a hj hcaller hpending => ?_, hleft.mono (fun j a hj => ?_) fun _ h => h⟩
    · show OnWire tg w.asked stream.served (order ++ more) b.wire
      rw [hserved]
      exact hwire.mono (fun _ _ _ => rfl) (fun _ _ h _ _ => h) (fun _ _ h => h) hkeep
        fun _ _ _ hnot => htake ▸ hnot
    · obtain ⟨k, hk, hjk⟩ := hclosed hphase j a hj hcaller hpending
      exact ⟨k, hk, hkeep k j hjk⟩
    · have hj : Gone w.asked stream.served (order ++ more) j a := hj
      rw [hserved] at hj
      exact ⟨hj.made, hj.caller, hj.ended, htake ▸ hj.unserved⟩

/-- A task calls. -/
theorem follows_call {w : Wired} {b : BotState} (t : Nat) (json : Object)
    (h : Follows tg cfg mode server world w b) :
    Follows tg cfg mode server world (w.call tg (.task t) "sendMessage" json) b := by
  obtain ⟨hreached, hb, order, taken, got, hledger, hwire, hclosed, hleft⟩ := h
  have hold : ∀ (j : Nat) a, (w.asked ++ [⟨.task t, "sendMessage", json, true⟩])[j]? = some a →
      a.caller = .poll → w.asked[j]? = some a := by
    intro j a hj hcaller
    rcases getElem?_concat_or hj with hj | ⟨-, rfl⟩
    · exact hj
    · contradiction
  refine ⟨hreached, hb, order, taken, got, ledger_call hledger _ rfl, ?_,
    fun hphase j a hj hcaller hpending => hclosed hphase j a (hold j a hj hcaller) hcaller hpending,
    hleft.mono (fun j a hj => ⟨hold j a hj.made hj.caller, hj.caller, hj.ended, hj.unserved⟩)
      fun _ h => h⟩
  refine hwire.mono (fun j json' hj => ?_) (fun j a hj hcaller _ => hold j a hj hcaller)
    (fun _ _ h => h) (fun _ _ h => h) fun _ _ _ h => h
  exact List.getElem?_append_left (List.getElem?_eq_some_iff.mp hj).1

/-- The coroutine goes on only at a `co_yield`. -/
theorem phase_of_resume {s : LongPolling} {r : LongPolling × PollOutput} (h : s.resume cfg = some r) :
    ∃ rest, s.phase = .suspended rest := by
  unfold LongPolling.resume at h
  split at h
  · next rest hphase => exact ⟨rest, hphase⟩
  · contradiction

/-- The poll goes on after a `co_yield`. -/
theorem follows_resume {w w' : Wired} {b : BotState} (h : Follows tg cfg mode server world w b)
    (hstep : w.step tg cfg mode .resume = some w') :
    ∃ b', Follows tg cfg mode server world w' b' := by
  obtain ⟨hreached, hb, order, taken, got, hledger, hwire, hclosed, -⟩ := h
  simp only [Wired.step] at hstep
  split at hstep
  · contradiction
  · next hcompletion =>
      split at hstep
      · contradiction
      · next hresumes =>
          obtain ⟨r, hr, rfl⟩ := Option.map_eq_some_iff.mp hstep
          obtain ⟨rest, hphase⟩ := phase_of_resume hr
          have hpoll : b.poll = w.bot.poll := by rw [hb]
          have hidle : b.wire = .idle := by
            by_contra hbusy
            have hrequesting := hreached.steady.requesting hbusy
            rw [hpoll, hphase] at hrequesting
            contradiction
          have hclosed := hclosed (by rw [hphase]; simp)
          have hresume := resume_possible cfg mode (w := b) (by rw [hb]; exact hcompletion)
            (by rw [hb]; exact hresumes) (hpoll ▸ hr)
          rw [hidle] at hwire
          refine ⟨_, follows_goOn hb (hreached.step hresume) hledger ?_ (fun _ => hclosed)
            fun j a hj => absurd hj (hclosed.not_gone hledger.responses.taken_le)⟩
          cases hwire with
          | idle hnone => exact hnone
          | refused _ _ _ _ _ _ _ _ _ _ hbusy => exact absurd rfl hbusy

/-- A step of a task, which calls if it is about to send a message. -/
theorem follows_task {w w' : Wired} {b : BotState} {e : TaskEvent}
    (h : Follows tg cfg mode server world w b) (hstep : w.step tg cfg mode (.task e) = some w') :
    ∃ b', Follows tg cfg mode server world w' b' := by
  cases e with
  | initiate i =>
      obtain ⟨bot, hbot, rfl⟩ := Option.map_eq_some_iff.mp hstep
      obtain ⟨b', hfollows⟩ := follows_local h rfl hbot
      refine ⟨b', ?_⟩
      split
      · exact follows_call i _ hfollows
      · exact hfollows
  | complete i | abort i e | lose i e =>
      simp only [Wired.step] at hstep
      split at hstep
      · contradiction
      · obtain ⟨bot, hbot, rfl⟩ := Option.map_eq_some_iff.mp hstep
        exact follows_local h rfl hbot

/-- A call fails with the network. -/
theorem follows_fail {w w' : Wired} {b : BotState} {i code : Nat}
    (h : Follows tg cfg mode server world w b)
    (hstep : w.step tg cfg mode (.fail i code) = some w') :
    ∃ b', Follows tg cfg mode server world w' b' := by
  obtain ⟨hreached, hb, order, taken, got, hledger, hwire, hclosed, hleft⟩ := h
  simp only [Wired.step] at hstep
  split at hstep
  · exact follows_complete hreached hb hledger hwire hclosed hleft hstep fun json hcall hbusy =>
      completes_raises hreached hwire hcall hbusy fun _ hv => fail_possible cfg mode hv
  · contradiction

/-- Whatever happens on the stream, a run of the other bot comes to the same. -/
theorem follows_step {w w' : Wired} {b : BotState} {e : WiredEvent tg}
    (h : Follows tg cfg mode server world w b) (he : Intact w e)
    (hstep : w.step tg cfg mode e = some w') : ∃ b', Follows tg cfg mode server world w' b' := by
  cases e with
  | arrive u =>
      obtain ⟨bot, hbot, rfl⟩ := Option.map_eq_some_iff.mp hstep
      exact follows_local h rfl hbot
  | onUpdate =>
      obtain ⟨bot, hbot, rfl⟩ := Option.map_eq_some_iff.mp hstep
      exact follows_local h rfl hbot
  | resume => exact follows_resume h hstep
  | task e => exact follows_task h hstep
  | write i n => exact ⟨b, follows_write h he hstep⟩
  | serve n response => exact follows_serve h he hstep
  | refuse response => exact ⟨b, follows_refuse h hstep⟩
  | read i n => exact follows_read h he hstep
  | cut =>
      obtain rfl := Option.some.inj hstep
      exact ⟨b, h.reached, h.bot, h.calls⟩
  | fail i code => exact follows_fail h hstep
  | restart =>
      obtain rfl := Option.some.inj hstep
      have hrestart := h.reached.step (e := .restart) rfl
      rw [h.bot] at hrestart
      exact ⟨_, follows_start hrestart⟩

/-! ## runs -/

theorem follows_of_run {es : List (WiredEvent tg)} {w : Wired}
    (h : Run (Wired.step tg cfg mode) Intact (.start server world []) es w) :
    ∃ b, Follows tg cfg mode server world w b :=
  h.invariant (I := fun w => ∃ b, Follows tg cfg mode server world w b)
    (fun _ _ _ ⟨_, hs⟩ he hstep => follows_step hs he hstep) ⟨_, follows_start (.refl _)⟩

/-- **The stream**: as long as no message is torn, the bot is what it is in some
run in which every request has a response of its own, and what that says about
its updates holds over the stream, too. -/
theorem botRun_of_run (tg : Telegram) (cfg : PollConfig) (mode : SqlMode) (server : Server)
    (world : World) (es : List (WiredEvent tg)) (w : Wired)
    (h : Run (Wired.step tg cfg mode) Intact (.start server world []) es w) :
    ∃ fs b, runs (BotState.step cfg mode) (.start server world []) fs = some b ∧
      b = { w.bot with wire := b.wire } ∧ Delivered cfg server.forgotten w.bot := by
  obtain ⟨b, hfollows⟩ := follows_of_run h
  obtain ⟨fs, -, hrun⟩ := hfollows.reached
  obtain ⟨hsteady, hkept⟩ := steady_of_runs hrun
  have hdelivered := hsteady.delivered hkept
  rw [hfollows.bot] at hdelivered
  exact ⟨fs, b, hrun, hfollows.bot, hdelivered.inOrder, hdelivered.once, hdelivered.resumes,
    hdelivered.forgot, hdelivered.kept, hdelivered.repeated⟩

/-- The next request for updates. -/
def nextUpdatesRequest : Bytes := bytesOf ("POST /bot1:a/getUpdates HTTP/1.1\r\n" ++
  "Host: api.telegram.org\r\nContent-Type: application/json\r\nContent-Length: 38\r\n\r\n" ++
  "\x7b\"limit\":100,\"timeout\":100,\"offset\":2\x7d")

/-- The response with `firstUpdate`. -/
def firstUpdateResponse : Bytes := bytesOf ("HTTP/1.1 200 OK\r\nContent-Length: 140\r\n\r\n" ++
  "\x7b\"ok\":true,\"result\":[\x7b\"update_id\":1,\"message\":\x7b\"text\":\"/start\"," ++
  "\"from\":\x7b\"id\":7\x7d," ++
  "\"entities\":[\x7b\"type\":\"bot_command\",\"offset\":0,\"length\":6\x7d]\x7d\x7d]\x7d")

/-- Telegram, for a bot that has got one command. -/
def telegram : Telegram where
  http :=
    { requests := ofMessages [getUpdatesRequest, nextUpdatesRequest, sendMessageRequest]
        (by decide +kernel) (by unfold Unambiguous; decide +kernel)
      responses := ofMessages [firstUpdateResponse, noUpdatesResponse, messageResponse]
        (by decide +kernel) (by unfold Unambiguous; decide +kernel)
      serialize := fun request =>
        if request.target = "/bot1:a/sendMessage" then ⟨sendMessageRequest, by decide +kernel⟩
        else if (ifContains request.body "offset").isSome then ⟨nextUpdatesRequest, by decide +kernel⟩
        else ⟨getUpdatesRequest, by decide +kernel⟩
      body := fun response =>
        if response = messageResponse then okResponse (.object [("message_id", .int64 1)])
        else if response = noUpdatesResponse then okResponse (.array [])
        else okResponse (.array [firstUpdate.toValue]) }
  token := "1:a"
  read request :=
    if request = sendMessageRequest then some ("sendMessage", message 7 "Greetings!")
    else if request = nextUpdatesRequest then
      some ("getUpdates", getUpdatesParams defaultPoll (some 2))
    else some ("getUpdates", getUpdatesParams defaultPoll none)
  malformed := 1

/-- The poll gets the response to a message; only then its request is served,
and the task gets the response. -/
def swapped : List (WiredEvent telegram) :=
  [.arrive firstUpdate, .resume, .write 0 getUpdatesRequest.length,
    .serve 1 ⟨firstUpdateResponse, by decide +kernel⟩, .read 0 firstUpdateResponse.length, .onUpdate,
    .task (.initiate 0), .task (.complete 0), .task (.initiate 0),
    .write 1 sendMessageRequest.length, .resume, .write 2 nextUpdatesRequest.length,
    .serve 0 ⟨messageResponse, by decide +kernel⟩, .read 2 messageResponse.length, .onUpdate,
    .serve 0 ⟨noUpdatesResponse, by decide +kernel⟩, .read 1 noUpdatesResponse.length]

theorem botRun_of_run_swapped : ∃ w fs b,
    runs (Wired.step telegram defaultPoll .strict)
      (.start Server.empty ⟨⟨[], by decide⟩, []⟩ []) swapped = some w ∧
    runs (BotState.step defaultPoll .strict)
      (.start Server.empty ⟨⟨[], by decide⟩, []⟩ []) fs = some b ∧
    b = { w.bot with wire := b.wire } ∧ Delivered defaultPoll Server.empty.forgotten w.bot := by
  have hrun : (runs (guarded (Wired.step telegram defaultPoll .strict) Intact)
      (.start Server.empty ⟨⟨[], by decide⟩, []⟩ []) swapped).isSome = true := by
    decide +kernel
  obtain ⟨w, hw⟩ := Option.isSome_iff_exists.mp hrun
  have hintact := run_of_guarded hw
  obtain ⟨fs, b, hb⟩ := botRun_of_run telegram defaultPoll .strict Server.empty _ swapped w hintact
  exact ⟨w, fs, b, hintact.runs, hb⟩

end LearnWords
