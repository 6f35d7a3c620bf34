import LearnWords.Bot.Simulation

/-!
# LearnWords.Bot.Lockout

What the poll loses when a task reads the response to it.

Each request of the poll waits for a response of its own, and the next request
is sent only after it.  So when a task's call has read that response, all that
is left for the poll is to read a response to a message, or to fail: either ends
it, and until the program is started again no update is handed over any more
(`lockedOut_of_run`).

The argument is about the sequence in which the requests were written: in it
every call stands once, so the next response belongs to none of the calls whose
responses have been read.
-/

namespace LearnWords

open Machine Framing

variable {tg : Telegram} {cfg : PollConfig} {mode : SqlMode} {server : Server} {world : World}
variable {asked : List Asked} {stream : Connection} {order : List Nat} {taken : Nat}
variable {got : List UInt8}

/-- Is the program started again? -/
def WiredEvent.isRestart : WiredEvent tg → Bool
  | .restart => true
  | _ => false

/-- No message is torn, and the program is not started again. -/
def Ongoing (w : Wired) (e : WiredEvent tg) : Prop := Intact w e ∧ e.isRestart = false

instance (w : Wired) (e : WiredEvent tg) : Decidable (Ongoing w e) :=
  inferInstanceAs (Decidable (_ ∧ _))

/-! ## responses that have been read -/

/-- No call of the poll can get the response to it: none is pending, or they
have all been read. -/
def Spent (asked : List Asked) (order : List Nat) (taken : Nat) : Prop :=
  (∀ a ∈ asked, a.caller = .poll → a.pending = false) ∨
    ∀ (i : Nat) a, asked[i]? = some a → a.caller = .poll → ∃ k, k < taken ∧ order[k]? = some i

/-- It stays so while no call of the poll begins. -/
theorem Spent.mono {asked' : List Asked} {order' : List Nat} {taken' : Nat}
    (h : Spent asked order taken)
    (hasked : ∀ (i : Nat) a', asked'[i]? = some a' → a'.caller = .poll →
      ∃ a, asked[i]? = some a ∧ a.caller = .poll ∧ (a.pending = false → a'.pending = false))
    (horder : ∀ k i : Nat, order[k]? = some i → order'[k]? = some i) (htaken : taken ≤ taken') :
    Spent asked' order' taken' := by
  rcases h with hover | hread
  · refine .inl fun a' ha' hcaller => ?_
    obtain ⟨i, hi⟩ := List.mem_iff_getElem?.mp ha'
    obtain ⟨a, ha, hpoll, hpending⟩ := hasked i a' hi hcaller
    exact hpending (hover a (List.mem_of_getElem? ha) hpoll)
  · refine .inr fun i a' hi hcaller => ?_
    obtain ⟨a, ha, hpoll, -⟩ := hasked i a' hi hcaller
    obtain ⟨k, hk, hki⟩ := hread i a ha hpoll
    exact ⟨k, hk.trans_le htaken, horder k i hki⟩

/-- So the next response for a pending call of the poll is an error, or a
message. -/
theorem Spent.response {i : Nat} {a : Asked} {e : Served} (h : Spent asked order taken)
    (hledger : Ledger tg asked stream order taken got) (ha : asked[i]? = some a)
    (hcaller : a.caller = .poll) (hpending : a.pending = true) (he : stream.served[taken]? = some e) :
    (∃ err, processResponse (tg.http.body e.response) = .ok (.error err)) ∨
      ∃ o, processResponse (tg.http.body e.response) = .ok (.ok (.object o)) := by
  have hserved := (List.getElem?_eq_some_iff.mp he).1
  obtain ⟨j, hj⟩ : ∃ j, order[taken]? = some j :=
    ⟨_, List.getElem?_eq_getElem (hserved.trans_le hledger.requests.served_le)⟩
  obtain ⟨a', ha'⟩ := hledger.exists_asked (List.mem_of_getElem? hj)
  rcases hledger.answers taken j e a' he hj ha' with hpoll | hother
  · rcases h with hover | hread
    · rw [hover a (List.mem_of_getElem? ha) hcaller] at hpending
      contradiction
    · -- the response to `j` would have been read before
      obtain ⟨k, hk, hkj⟩ := hread j a' ha' hpoll
      have hsame := hledger.eq_of_getElem? hkj hj
      omega
  · exact hother

/-- The poll yields no update, and no call of it can get the response to it. -/
structure LockedOut (tg : Telegram) (w : Wired) : Prop where
  phase : ∀ rest, w.bot.poll.phase ≠ .suspended rest
  completion : ∀ update, w.bot.completion ≠ some (.ok update)
  calls : ∃ order taken got, Ledger tg w.asked w.stream order taken got ∧ Spent w.asked order taken

/-! ## one event -/

/-- The parts of the bot that matter for it. -/
structure SamePoll (bot bot' : BotState) : Prop where
  poll : bot'.poll = bot.poll
  completion : bot'.completion = bot.completion
  handed : bot'.handed = bot.handed

theorem LockedOut.of_samePoll {w : Wired} {bot : BotState} (h : LockedOut tg w)
    (hsame : SamePoll w.bot bot) :
    LockedOut tg { w with bot := bot } ∧ bot.handed = w.bot.handed :=
  ⟨⟨hsame.poll ▸ h.phase, hsame.completion ▸ h.completion, h.calls⟩, hsame.handed⟩

theorem samePoll_task {bot bot' : BotState} {e : TaskEvent}
    (h : bot.step cfg mode (.task e) = some bot') : SamePoll bot bot' := by
  obtain ⟨tasks, -, rfl⟩ := BotState.step_task h
  exact ⟨rfl, rfl, rfl⟩

/-- A request that the bot takes for a failed one ends the poll. -/
theorem lockedOut_raises {w : Wired} {poll : LongPolling} {e : Exn} (hphase : poll.phase = .finished)
    (hledger : Ledger tg w.asked w.stream order taken got) (hspent : Spent w.asked order taken) :
    LockedOut tg (w.goOn tg (poll, .raises e)) ∧
      (w.goOn tg (poll, .raises e)).bot.handed = w.bot.handed := by
  refine ⟨⟨fun rest h => ?_, fun update h => (by cases h), order, taken, got, hledger, hspent⟩, rfl⟩
  have hrest : poll.phase = .suspended rest := h
  rw [hphase] at hrest
  contradiction

/-- A call completes: one of the poll raises. -/
theorem lockedOut_complete {w w' : Wired} {i : Nat} {result : Except ErrorCode ProcessedResult}
    (h : LockedOut tg w) (hledger : Ledger tg w.asked w.stream order taken got)
    (hspent : Spent w.asked order taken) (hstep : w.complete tg cfg mode i result = some w')
    (hraises : ∀ a, w.asked[i]? = some a → a.caller = .poll → a.pending = true →
      ∃ e, w.bot.poll.onResponse cfg result = (⟨w.bot.poll.offset, .finished⟩, .raises e)) :
    LockedOut tg w' ∧ w'.bot.handed = w.bot.handed := by
  unfold Wired.complete at hstep
  split at hstep
  · next caller method json hi =>
      have hledger' : Ledger tg (w.asked.set i ⟨caller, method, json, false⟩) w.stream order taken got :=
        hledger.set hi rfl rfl
      have hspent' : Spent (w.asked.set i ⟨caller, method, json, false⟩) order taken := by
        refine hspent.mono (fun j a' hj hcaller => ?_) (fun _ _ hk => hk) le_rfl
        rcases getElem?_set_or hi hj with ⟨rfl, rfl⟩ | ⟨-, hj⟩
        · exact ⟨_, hi, hcaller, fun _ => rfl⟩
        · exact ⟨a', hj, hcaller, id⟩
      cases caller with
      | poll =>
          obtain rfl := Option.some.inj hstep
          obtain ⟨e, he⟩ := hraises _ hi rfl rfl
          dsimp only
          rw [he]
          exact lockedOut_raises rfl hledger' hspent'
      | task t =>
          obtain ⟨bot, hbot, rfl⟩ := Option.map_eq_some_iff.mp hstep
          have hset : LockedOut tg { w with asked := w.asked.set i ⟨.task t, method, json, false⟩ } :=
            ⟨h.phase, h.completion, order, taken, got, hledger', hspent'⟩
          exact hset.of_samePoll (samePoll_task hbot)
  · contradiction

/-- A call reads. -/
theorem lockedOut_read {w w' : Wired} {i n : Nat} (h : LockedOut tg w)
    (he : Intact w (.read i n : WiredEvent tg)) (hstep : w.step tg cfg mode (.read i n) = some w') :
    LockedOut tg w' ∧ w'.bot.handed = w.bot.handed := by
  obtain ⟨order, taken, got, hledger, hspent⟩ := h.calls
  simp only [Wired.step] at hstep
  split at hstep
  · contradiction
  · obtain ⟨stream, hstream, hresult⟩ := Option.bind_eq_some_iff.mp hstep
    obtain ⟨-, hcases⟩ := ledger_read hledger he hstream
    rcases hcases with ⟨got', hnone, hledger'⟩ | ⟨e, hentry, hsome, hledger'⟩
    · rw [hnone] at hresult
      obtain rfl := Option.some.inj hresult
      exact ⟨⟨h.phase, h.completion, order, taken, got', hledger', hspent⟩, rfl⟩
    · rw [hsome] at hresult
      have hspent' : Spent w.asked order (taken + 1) :=
        hspent.mono (fun j a hj hcaller => ⟨a, hj, hcaller, id⟩) (fun _ _ hk => hk) (Nat.le_succ _)
      refine lockedOut_complete (w := { w with stream := stream })
        ⟨h.phase, h.completion, order, taken + 1, [], hledger', hspent'⟩ hledger' hspent' hresult
        fun a ha hcaller hpending => ?_
      rcases hspent.response hledger ha hcaller hpending hentry with ⟨err, herr⟩ | ⟨o, ho⟩
      · rw [herr]
        exact ⟨_, rfl⟩
      · rw [ho]
        exact ⟨_, rfl⟩

/-- A call writes. -/
theorem lockedOut_write {w w' : Wired} {i n : Nat} (h : LockedOut tg w)
    (he : Intact w (.write i n : WiredEvent tg)) (hstep : w.step tg cfg mode (.write i n) = some w') :
    LockedOut tg w' ∧ w'.bot.handed = w.bot.handed := by
  obtain ⟨order, taken, got, hledger, hspent⟩ := h.calls
  simp only [Wired.step] at hstep
  split at hstep
  · contradiction
  · obtain ⟨stream, hstream, rfl⟩ := Option.map_eq_some_iff.mp hstep
    obtain ⟨more, hledger', -⟩ := ledger_write hledger he hstream
    refine ⟨⟨h.phase, h.completion, order ++ more, taken, got, hledger', ?_⟩, rfl⟩
    refine hspent.mono (fun j a hj hcaller => ⟨a, hj, hcaller, id⟩) (fun k j hk => ?_) le_rfl
    rw [List.getElem?_append_left (List.getElem?_eq_some_iff.mp hk).1]
    exact hk

/-- Telegram answers a request, or refuses it. -/
theorem lockedOut_serve {w : Wired} {stream : Connection} {response : tg.http.responses.Message}
    (queue : Server) (h : LockedOut tg w)
    (hanswer : ∀ a ∈ w.front, a.method = a.caller.method → a.caller = .poll ∨
      (∃ err, processResponse (tg.http.body response.val) = .ok (.error err)) ∨
        ∃ o, processResponse (tg.http.body response.val) = .ok (.ok (.object o)))
    (hstream : w.stream.step tg.http tg.token (.serve response) = some stream) :
    LockedOut tg { w with bot := { w.bot with server := queue }, stream := stream } := by
  obtain ⟨order, taken, got, hledger, hspent⟩ := h.calls
  obtain ⟨i, a, entry, -, ha, hfront, -, -, hledger'⟩ := ledger_serve hledger hstream
  have hmethod := hledger.methods a (List.mem_of_getElem? ha)
  exact ⟨h.phase, h.completion, order, taken, got, hledger' (hanswer a hfront hmethod), hspent⟩

/-- A task calls. -/
theorem lockedOut_call {w : Wired} (t : Nat) (json : Object) (h : LockedOut tg w) :
    LockedOut tg (w.call tg (.task t) "sendMessage" json) := by
  obtain ⟨order, taken, got, hledger, hspent⟩ := h.calls
  refine ⟨h.phase, h.completion, order, taken, got, ledger_call hledger _ rfl, ?_⟩
  refine hspent.mono (fun j a hj hcaller => ?_) (fun _ _ hk => hk) le_rfl
  rcases getElem?_concat_or hj with hj | ⟨-, rfl⟩
  · exact ⟨a, hj, hcaller, id⟩
  · contradiction

/-- No event hands over an update, or lets the poll get a response to it. -/
theorem lockedOut_step {w w' : Wired} {e : WiredEvent tg} (h : LockedOut tg w) (he : Ongoing w e)
    (hstep : w.step tg cfg mode e = some w') : LockedOut tg w' ∧ w'.bot.handed = w.bot.handed := by
  obtain ⟨he, hgoesOn⟩ := he
  cases e with
  | arrive u =>
      obtain ⟨bot, hbot, rfl⟩ := Option.map_eq_some_iff.mp hstep
      obtain ⟨hu, rfl⟩ := BotState.step_arrive hbot
      exact h.of_samePoll ⟨rfl, rfl, rfl⟩
  | resume =>
      simp only [Wired.step] at hstep
      split at hstep
      · contradiction
      · split at hstep
        · contradiction
        · obtain ⟨r, hr, -⟩ := Option.map_eq_some_iff.mp hstep
          obtain ⟨rest, hphase⟩ := phase_of_resume hr
          exact absurd hphase (h.phase rest)
  | onUpdate =>
      obtain ⟨bot, hbot, rfl⟩ := Option.map_eq_some_iff.mp hstep
      obtain ⟨r, hr, rfl⟩ := BotState.step_onUpdate hbot
      cases r with
      | ok update => exact absurd hr (h.completion update)
      | error e => exact ⟨⟨h.phase, fun update hupdate => (by cases hupdate), h.calls⟩, rfl⟩
  | task e =>
      cases e with
      | initiate i =>
          obtain ⟨bot, hbot, rfl⟩ := Option.map_eq_some_iff.mp hstep
          obtain ⟨hlocked, hhanded⟩ := h.of_samePoll (samePoll_task hbot)
          split
          · exact ⟨lockedOut_call i _ hlocked, hhanded⟩
          · exact ⟨hlocked, hhanded⟩
      | complete i | abort i e | lose i e =>
          simp only [Wired.step] at hstep
          split at hstep
          · contradiction
          · obtain ⟨bot, hbot, rfl⟩ := Option.map_eq_some_iff.mp hstep
            exact h.of_samePoll (samePoll_task hbot)
  | write i n => exact lockedOut_write h he hstep
  | serve n response =>
      obtain ⟨queue, hanswer, hmap⟩ := Option.bind_eq_some_iff.mp hstep
      obtain ⟨stream, hstream, rfl⟩ := Option.map_eq_some_iff.mp hmap
      refine ⟨lockedOut_serve queue h (fun a hfront hmethod => ?_) hstream, rfl⟩
      rcases Wired.answer_call hanswer (he a hfront) hmethod with ⟨_, hpoll, -⟩ | ⟨o, -, -, ho⟩
      · exact .inl hpoll
      · exact .inr (.inr ⟨o, ho⟩)
  | refuse response =>
      simp only [Wired.step] at hstep
      split at hstep
      · next err herr =>
          obtain ⟨stream, hstream, rfl⟩ := Option.map_eq_some_iff.mp hstep
          exact ⟨lockedOut_serve w.bot.server h (fun _ _ _ => .inr (.inl ⟨err, herr⟩)) hstream, rfl⟩
      · contradiction
  | read i n => exact lockedOut_read h he hstep
  | cut =>
      obtain rfl := Option.some.inj hstep
      exact ⟨⟨h.phase, h.completion, h.calls⟩, rfl⟩
  | fail i code =>
      obtain ⟨order, taken, got, hledger, hspent⟩ := h.calls
      simp only [Wired.step] at hstep
      split at hstep
      · exact lockedOut_complete h hledger hspent hstep fun _ _ _ _ => ⟨_, rfl⟩
      · contradiction
  | restart => contradiction

/-! ## runs -/

/-- An update has been yielded only where the coroutine stands at a `co_yield`. -/
theorem Steady.completion_ne {b : BotState} (h : Steady cfg b)
    (hphase : ∀ rest, b.poll.phase ≠ .suspended rest) (update : Object) :
    b.completion ≠ some (.ok update) := by
  obtain ⟨got, left, -, hst⟩ := h
  cases hst with
  | suspended phase => exact absurd phase (hphase _)
  | sent _ _ completion | answered _ _ _ completion | raised _ _ _ completion
  | ended _ _ completion => simp [completion]

/-- With the next response, which is to a call of the poll, no call of it can get
the response to it any more. -/
theorem spent_of_follows {w : Wired} {b : BotState} {j : Nat} {a : Asked}
    (h : Follows tg cfg mode server world w b) (hledger : Ledger tg w.asked w.stream order taken got)
    (hwire : OnWire tg w.asked w.stream.served order b.wire)
    (hclosed : w.bot.poll.phase ≠ .finished → Closed w.asked order taken)
    (hj : order[taken]? = some j) (ha : w.asked[j]? = some a) (hcaller : a.caller = .poll) :
    (∀ rest, w.bot.poll.phase ≠ .suspended rest) ∧ Spent w.asked order (taken + 1) := by
  -- the call is pending, unless the poll has ended
  have hpending : w.bot.poll.phase ≠ .finished → a.pending = true := by
    intro hphase
    by_contra hover
    obtain ⟨k, hk, hkj⟩ := hclosed hphase j a ha hcaller (by simpa using hover)
    have hsame := hledger.eq_of_getElem? hkj hj
    omega
  by_cases hphase : w.bot.poll.phase = .finished
  · have hnone : ∀ a ∈ w.asked, a.caller = .poll → a.pending = false := by
      intro a ha hpoll
      obtain ⟨i, hi⟩ := List.mem_iff_getElem?.mp ha
      by_contra hover
      obtain ⟨hbusy, -⟩ := hwire.isPollCall hi hpoll (by simpa using hover)
      exact h.reached.not_finished h.bot hbusy hphase
    exact ⟨by simp [hphase], .inl hnone⟩
  · obtain ⟨hbusy, json, hcall⟩ := hwire.isPollCall ha hcaller (hpending hphase)
    have hrequesting : w.bot.poll.phase = .requesting := by
      have hsteady := h.reached.steady
      rw [h.bot] at hsteady
      exact hsteady.requesting hbusy
    refine ⟨by simp [hrequesting], .inr fun i a' hi hpoll => ?_⟩
    cases hover : a'.pending with
    | true =>
        obtain rfl := hcall.sole i a' hi hpoll hover
        exact ⟨taken, Nat.lt_succ_self _, hj⟩
    | false =>
        obtain ⟨k, hk, hki⟩ := hclosed hphase i a' hi hpoll hover
        exact ⟨k, Nat.lt_succ_of_lt hk, hki⟩

/-- A task that goes on leaves the stream as it is. -/
theorem stream_complete {w w' : Wired} {i : Nat} {a : Asked} {result : Except ErrorCode ProcessedResult}
    (ha : w.asked[i]? = some a) (hcaller : a.caller ≠ .poll)
    (hstep : w.complete tg cfg mode i result = some w') : w'.stream = w.stream := by
  unfold Wired.complete at hstep
  split at hstep
  · next caller method json hi =>
      rw [ha, Option.some.injEq] at hi
      subst hi
      cases caller with
      | poll => exact absurd rfl hcaller
      | task t =>
          obtain ⟨bot, -, rfl⟩ := Option.map_eq_some_iff.mp hstep
          rfl
  · contradiction

/-- A task's call that gets updates has read the response to the poll. -/
theorem lockedOut_of_read {w w' : Wired} {b : BotState} {i n : Nat} {a : Asked} {vs : List Value}
    (h : Follows tg cfg mode server world w b) (ha : w.asked[i]? = some a) (hcaller : a.caller ≠ .poll)
    (he : Intact w (.read i n : WiredEvent tg)) (hstep : w.step tg cfg mode (.read i n) = some w')
    (hresult : w'.stream.result i = some (.ok (.ok (.array vs)))) :
    LockedOut tg w' ∧ w'.bot.handed = w.bot.handed := by
  obtain ⟨order, taken, got, hledger, hwire, hclosed, -⟩ := h.calls
  simp only [Wired.step] at hstep
  split at hstep
  · contradiction
  · obtain ⟨stream, hstream, hcomplete⟩ := Option.bind_eq_some_iff.mp hstep
    obtain ⟨-, hcases⟩ := ledger_read hledger he hstream
    rcases hcases with ⟨got', hnone, -⟩ | ⟨e, hentry, hsome, hledger'⟩
    · rw [hnone] at hcomplete
      obtain rfl := Option.some.inj hcomplete
      rw [hnone] at hresult
      contradiction
    · rw [hsome] at hcomplete
      have hupdates : processResponse (tg.http.body e.response) = .ok (.ok (.array vs)) := by
        rw [stream_complete (w := { w with stream := stream }) ha hcaller hcomplete, hsome,
          Option.some.injEq] at hresult
        cases hbody : processResponse (tg.http.body e.response) with
        | ok r =>
            rw [hbody] at hresult
            exact congrArg Except.ok (Except.ok.inj hresult)
        | error e =>
            rw [hbody] at hresult
            contradiction
      obtain ⟨j, hj⟩ : ∃ j, order[taken]? = some j :=
        ⟨_, List.getElem?_eq_getElem
          ((List.getElem?_eq_some_iff.mp hentry).1.trans_le hledger.requests.served_le)⟩
      obtain ⟨a', ha'⟩ := hledger.exists_asked (List.mem_of_getElem? hj)
      have hpoll : a'.caller = .poll := by
        rcases hledger.answers taken j e a' hentry hj ha' with hpoll | ⟨err, herr⟩ | ⟨o, ho⟩
        · exact hpoll
        · rw [hupdates] at herr
          simp at herr
        · rw [hupdates] at ho
          simp at ho
      obtain ⟨hphase, hspent⟩ := spent_of_follows h hledger hwire hclosed hj ha' hpoll
      have hcompletion : ∀ update, w.bot.completion ≠ some (.ok update) := by
        have hsteady := h.reached.steady
        rw [h.bot] at hsteady
        exact hsteady.completion_ne hphase
      refine lockedOut_complete (w := { w with stream := stream })
        ⟨hphase, hcompletion, order, taken + 1, [], hledger', hspent⟩ hledger' hspent hcomplete
        fun a'' ha'' hpoll' _ => ?_
      have hsame : w.asked[i]? = some a'' := ha''
      rw [ha, Option.some.injEq] at hsame
      exact absurd (hsame ▸ hpoll') hcaller

/-- **Lockout**: when a task's call has read the response to the poll, no update
is handed over any more until the program is started again. -/
theorem lockedOut_of_run (tg : Telegram) (cfg : PollConfig) (mode : SqlMode) (server : Server)
    (world : World) (es : List (WiredEvent tg)) (w : Wired) (i n : Nat) (a : Asked)
    (vs : List Value) (w' : Wired) (fs : List (WiredEvent tg)) (w'' : Wired)
    (h : Run (Wired.step tg cfg mode) Intact (.start server world []) es w)
    (ha : w.asked[i]? = some a) (hcaller : a.caller ≠ .poll)
    (he : Intact w (.read i n : WiredEvent tg)) (hstep : w.step tg cfg mode (.read i n) = some w')
    (hresult : w'.stream.result i = some (.ok (.ok (.array vs))))
    (hrun : Run (Wired.step tg cfg mode) Ongoing w' fs w'') :
    w''.bot.handed = w.bot.handed := by
  obtain ⟨b, hfollows⟩ := follows_of_run h
  obtain ⟨hlocked, hhanded⟩ := lockedOut_of_read hfollows ha hcaller he hstep hresult
  have hinvariant := hrun.invariant
    (I := fun v => LockedOut tg v ∧ v.bot.handed = w.bot.handed)
    (fun s e t ⟨hs, hsame⟩ hallowed htaken =>
      (lockedOut_step hs hallowed htaken).imp id fun ht => ht.trans hsame) ⟨hlocked, hhanded⟩
  exact hinvariant.2

/-- The responses of `telegram` are whole messages. -/
theorem scan_firstUpdateResponse : telegram.http.responses.scan firstUpdateResponse =
    .complete firstUpdateResponse.length := by
  decide +kernel

theorem scan_noUpdatesResponse : telegram.http.responses.scan noUpdatesResponse =
    .complete noUpdatesResponse.length := by
  decide +kernel

theorem scan_messageResponse : telegram.http.responses.scan messageResponse =
    .complete messageResponse.length := by
  decide +kernel

/-- The poll asks for updates, and a task sends a message; the response to the
poll is the first one. -/
def overtaken : List (WiredEvent telegram) :=
  [.arrive firstUpdate, .resume, .write 0 getUpdatesRequest.length,
    .serve 1 ⟨firstUpdateResponse, scan_firstUpdateResponse⟩, .read 0 firstUpdateResponse.length, .onUpdate,
    .task (.initiate 0), .task (.complete 0), .resume, .write 1 nextUpdatesRequest.length,
    .task (.initiate 0), .write 2 sendMessageRequest.length,
    .serve 0 ⟨noUpdatesResponse, scan_noUpdatesResponse⟩]

/-- The second update arrives, and the poll reads the response to the message. -/
def leftBehind : List (WiredEvent telegram) :=
  [.arrive secondUpdate, .serve 0 ⟨messageResponse, scan_messageResponse⟩,
    .read 1 messageResponse.length, .onUpdate]

theorem lockedOut_of_run_overtaken : ∃ w w' w'',
    Run (Wired.step telegram defaultPoll .strict) Intact
      (.start Server.empty ⟨⟨[], by decide⟩, []⟩ []) overtaken w ∧
    w.step telegram defaultPoll .strict (.read 2 noUpdatesResponse.length) = some w' ∧
    Run (Wired.step telegram defaultPoll .strict) Ongoing w' leftBehind w'' ∧
    w''.bot.handed = w.bot.handed ∧ w''.bot.handed.length < w''.bot.sequence.length := by
  have hrun : ((runs (guarded (Wired.step telegram defaultPoll .strict) Intact)
      (.start Server.empty ⟨⟨[], by decide⟩, []⟩ []) overtaken).bind fun w =>
        (guarded (Wired.step telegram defaultPoll .strict) Intact w
          (.read 2 noUpdatesResponse.length)).bind fun w' =>
          (runs (guarded (Wired.step telegram defaultPoll .strict) Ongoing) w' leftBehind).map
            fun w'' => (w.asked[2]?.map Asked.caller, w'.stream.result 2,
              decide (w''.bot.handed.length < w''.bot.sequence.length))) =
      some (some (.task 0), some (.ok (.ok (.array []))), true) := by
    decide +kernel
  obtain ⟨w, hw, hrun⟩ := Option.bind_eq_some_iff.mp hrun
  obtain ⟨w', hw', hrun⟩ := Option.bind_eq_some_iff.mp hrun
  obtain ⟨w'', hw'', hread⟩ := Option.map_eq_some_iff.mp hrun
  simp only [Prod.mk.injEq, decide_eq_true_eq] at hread
  obtain ⟨hasked, hresult, hbehind⟩ := hread
  obtain ⟨a, ha, hcaller⟩ := Option.map_eq_some_iff.mp hasked
  unfold guarded at hw'
  split at hw'
  · next he =>
      refine ⟨w, w', w'', run_of_guarded hw, hw', run_of_guarded hw'', ?_, hbehind⟩
      exact lockedOut_of_run telegram defaultPoll .strict Server.empty _ overtaken w 2
        noUpdatesResponse.length a [] w' leftBehind w'' (run_of_guarded hw) ha
        (by rw [hcaller]; simp) he hw' hresult (run_of_guarded hw'')
  · cases hw'

end LearnWords
