import LearnWords.Bot.Delivery

/-!
# LearnWords.Bot.Poll

The long poll among the other parties of the bot, each of whose requests gets
the response to it: no call reads another's.  (What becomes of the poll when one
does is in `LearnWords.Bot.Lockout`.)

It does not depend on what becomes of the updates it hands over: a run without
any step of a task has the same polls, requests and deliveries
(`delivery_of_runs`).

And it is never stuck: as long as no request has failed, it can go on, and after
four of its events for each update everything that had arrived is handed over,
however they are interleaved with what else happens (`handsOver_of_runs`).  Each
of them lowers `BotState.toGo`, which no other event raises.
-/

namespace LearnWords

open Machine

variable {cfg : PollConfig} {mode : SqlMode}

/-! ## when an event is possible -/

section Possible

variable (cfg mode) {w : BotState}

theorem arrive_possible {u : Update} (hu : ∀ v ∈ w.server.updates, v.id < u.id) :
    w.step cfg mode (.arrive u) = some { w with server := w.server.arrive u hu } := by
  simp only [BotState.step, dif_pos hu]

theorem resume_possible {r : LongPolling × PollOutput} (hcompletion : w.completion = none)
    (hresumes : w.resumes ≠ 0) (hr : w.poll.resume cfg = some r) :
    w.step cfg mode .resume = some (w.goOn r) := by
  simp only [BotState.step, hcompletion, if_neg hresumes, hr, Option.map_some]

theorem serve_possible {params : Object} {limit : Int64} {n : Nat} {server : Server}
    (hwire : w.wire = .sent params) (hlimit : (ifContains params "limit").bind ifInt64 = some limit)
    (hn : (n : Int) ≤ limit.toInt)
    (hserver : server = w.server.forget ((ifContains params "offset").bind ifInt64)) :
    w.step cfg mode (.serve n) =
      some { w with server := server, wire := .answered (server.held.take n) } := by
  subst hserver
  simp only [BotState.step, hwire, hlimit, if_pos hn]

theorem receive_possible {batch : List Update} (hwire : w.wire = .answered batch) :
    w.step cfg mode .receive = some (w.goOn (w.poll.onResponse cfg
      (requestResult (okResponse (.array (batch.map Update.toValue)))))) := by
  simp only [BotState.step, hwire]

theorem fail_possible {ec : ErrorCode} (hwire : w.wire ≠ .idle) :
    w.step cfg mode (.fail ec) =
      some (w.goOn (⟨w.poll.offset, .finished⟩, .raises (.systemError ec))) := by
  cases hw : w.wire with
  | idle => exact absurd hw hwire
  | sent | answered => simp only [BotState.step, hw, LongPolling.onResponse]

theorem refuse_possible {err : ProtoError} (hwire : w.wire ≠ .idle) :
    w.step cfg mode (.refuse err) =
      some (w.goOn (⟨w.poll.offset, .finished⟩, .raises (.telegram err))) := by
  cases hw : w.wire with
  | idle => exact absurd hw hwire
  | sent | answered => simp only [BotState.step, hw, LongPolling.onResponse]

theorem onUpdate_possible {r : Except Exn Object} (hr : w.completion = some r) :
    w.step cfg mode .onUpdate = some (w.onUpdate r) := by
  simp only [BotState.step, hr, Option.map_some]

end Possible

/-! ## without tasks -/

/-- Is the event a step of a task? -/
def BotEvent.isTask : BotEvent → Bool
  | .task _ => true
  | _ => false

/-- The bot but for its tasks and their world. -/
def BotState.delivery (w : BotState) : BotState := { w with tasks := ⟨⟨⟨[], .nil⟩, []⟩, []⟩ }

/-- The coroutine goes on in the same way, whatever the tasks are. -/
theorem goOn_tasks (w : BotState) (tasks : DialogPool) (r : LongPolling × PollOutput) :
    { w.goOn r with tasks := tasks } = BotState.goOn { w with tasks := tasks } r := by
  obtain ⟨poll, output⟩ := r
  cases output <;> rfl

/-- An event that is not a task's is possible whatever the tasks are, and
changes the rest of the bot in the same way. -/
theorem step_tasks {w v : BotState} {e : BotEvent} (he : e.isTask = false) (tasks : DialogPool)
    (h : w.step cfg mode e = some v) :
    ∃ tasks', BotState.step cfg mode { w with tasks := tasks } e = some { v with tasks := tasks' } := by
  cases e with
  | arrive u =>
      obtain ⟨hu, rfl⟩ := BotState.step_arrive h
      exact ⟨tasks, arrive_possible cfg mode (w := { w with tasks := tasks }) hu⟩
  | resume =>
      obtain ⟨r, hcompletion, hresumes, hr, rfl⟩ := BotState.step_resume h
      refine ⟨tasks, ?_⟩
      rw [goOn_tasks]
      exact resume_possible cfg mode hcompletion hresumes hr
  | serve n =>
      obtain ⟨params, limit, server, hwire, hlimit, hn, hserver, rfl⟩ := BotState.step_serve h
      exact ⟨tasks, serve_possible cfg mode (w := { w with tasks := tasks }) hwire hlimit hn hserver⟩
  | receive =>
      obtain ⟨batch, hwire, rfl⟩ := BotState.step_receive h
      refine ⟨tasks, ?_⟩
      rw [goOn_tasks]
      exact receive_possible cfg mode hwire
  | fail ec =>
      obtain ⟨hwire, rfl⟩ := BotState.step_fail h
      refine ⟨tasks, ?_⟩
      rw [goOn_tasks]
      exact fail_possible cfg mode hwire
  | refuse err =>
      obtain ⟨hwire, rfl⟩ := BotState.step_refuse h
      refine ⟨tasks, ?_⟩
      rw [goOn_tasks]
      exact refuse_possible cfg mode hwire
  | onUpdate =>
      obtain ⟨r, hr, rfl⟩ := BotState.step_onUpdate h
      cases r with
      | error e => exact ⟨tasks, onUpdate_possible cfg mode (w := { w with tasks := tasks }) hr⟩
      | ok update => exact ⟨_, onUpdate_possible cfg mode (w := { w with tasks := tasks }) hr⟩
  | task e => simp [BotEvent.isTask] at he
  | restart =>
      cases h
      exact ⟨⟨tasks.world, []⟩, rfl⟩

/-- Is it an event of the poll, or an answer of Telegram? -/
def BotEvent.isPoll : BotEvent → Bool
  | .resume | .serve _ | .receive | .onUpdate => true
  | _ => false

/-- No request has failed since the program was started. -/
structure BotState.Live (w : BotState) : Prop where
  undelivered : w.failed = false
  unraised : ∀ e, w.completion ≠ some (.error e)

/-- The updates with which Telegram can answer the request on its way. -/
def BotState.offer (w : BotState) : List Update :=
  match w.wire with
  | .sent params => (w.server.forget ((ifContains params "offset").bind ifInt64)).held
  | _ => []

/-- No request fails, and Telegram answers with an update if there is one.  More
may arrive, and the tasks may do what they like. -/
def Eager (w : BotState) : BotEvent → Prop
  | .fail _ | .refuse _ | .restart => False
  | .serve n => w.offer ≠ [] → 0 < n
  | _ => True

instance (w : BotState) (e : BotEvent) : Decidable (Eager w e) := by
  cases e <;> unfold Eager <;> infer_instance

/-- `w'` comes after `w` in one run of the program. -/
structure Onward (w w' : BotState) : Prop where
  updates : w.server.updates <+: w'.server.updates
  began : w'.began = w.began
  earlier : w'.earlier = w.earlier
  handed : w.handed <+: w'.handed

theorem Onward.refl (w : BotState) : Onward w w :=
  ⟨List.prefix_refl _, rfl, rfl, List.prefix_refl _⟩

theorem Onward.trans {w w' w'' : BotState} (h : Onward w w') (h' : Onward w' w'') : Onward w w'' :=
  ⟨h.updates.trans h'.updates, h'.began.trans h.began, h'.earlier.trans h.earlier,
    h.handed.trans h'.handed⟩

theorem Onward.sequence {w w' : BotState} (h : Onward w w') : w.sequence <+: w'.sequence := by
  rw [BotState.sequence, BotState.sequence, h.began]
  exact h.updates.drop _

/-- Every event but a restart leads onward. -/
theorem onward_step {w w' : BotState} {e : BotEvent} (he : e ≠ .restart)
    (h : w.step cfg mode e = some w') : Onward w w' := by
  cases BotState.change_of_step h with
  | arrive u hu => exact ⟨List.prefix_append _ _, rfl, rfl, List.prefix_refl _⟩
  | goOn e r =>
      obtain ⟨poll, output⟩ := r
      cases output <;> exact ⟨List.prefix_refl _, rfl, rfl, List.prefix_refl _⟩
  | serve n offset wire =>
      refine ⟨?_, rfl, rfl, List.prefix_refl _⟩
      rw [updates_forget]
  | onUpdate r hr =>
      cases r with
      | error e => exact ⟨List.prefix_refl _, rfl, rfl, List.prefix_refl _⟩
      | ok update => exact ⟨List.prefix_refl _, rfl, rfl, List.prefix_append _ _⟩
  | task e tasks htasks => exact ⟨List.prefix_refl _, rfl, rfl, List.prefix_refl _⟩
  | restart => exact absurd rfl he

theorem onward_eager {w w' : BotState} {e : BotEvent} (he : Eager w e)
    (h : w.step cfg mode e = some w') : Onward w w' := by
  refine onward_step ?_ h
  rintro rfl
  exact he

/-- How many events of the poll are still to come until the next update is
yielded, if Telegram has one. -/
def BotState.rank (w : BotState) : Nat :=
  match w.poll.phase, w.wire with
  | .suspended rest, _ =>
      if w.completion.isSome then 0 else if rest.isEmpty then 3 else 1
  | _, .answered batch => if batch.isEmpty then 3 else 1
  | _, _ => 2

/-- Going on with some updates, the coroutine yields the first of them, or sends
its next request. -/
theorem rank_advance (w : BotState) (offset : Option Int64) (us : List Update) :
    (w.goOn (LongPolling.advance cfg offset (us.map Update.toValue))).rank =
      if us.isEmpty then 2 else 0 := by
  cases us <;> rfl

theorem live_advance {w : BotState} (hlive : w.failed = false) (hcompletion : w.completion = none)
    (offset : Option Int64) (us : List Update) :
    (w.goOn (LongPolling.advance cfg offset (us.map Update.toValue))).Live := by
  cases us with
  | nil => exact ⟨hlive, by simp [LongPolling.advance, BotState.goOn, hcompletion]⟩
  | cons u us => exact ⟨hlive, by simp [LongPolling.advance, BotState.goOn, Update.toValue]⟩

theorem handed_goOn (w : BotState) (r : LongPolling × PollOutput) : (w.goOn r).handed = w.handed := by
  obtain ⟨poll, output⟩ := r
  cases output <;> rfl

/-- A response takes the coroutine to the updates in it. -/
theorem receive_batch (mode : SqlMode) {w : BotState} {batch : List Update} (hw : Steady cfg w)
    (hwire : w.wire = .answered batch) :
    w.poll.phase = .requesting ∧ ∃ offset, w.step cfg mode .receive =
      some (w.goOn (LongPolling.advance cfg offset (batch.map Update.toValue))) := by
  have hreceive := receive_possible cfg mode hwire
  obtain ⟨got, left, hp, hst⟩ := hw
  cases hst with
  | answered _ phase =>
      have hpoll : w.poll = ⟨nextId got, .requesting⟩ := by rw [← hp.offset, ← phase]
      rw [hpoll, onResponse_batch] at hreceive
      exact ⟨phase, _, hreceive⟩
  | suspended _ _ wire | sent _ _ _ wire | raised _ _ _ _ wire | ended _ _ _ wire =>
      simp [hwire] at wire

/-- When a request is on its way, Telegram can answer it with what has not been
handed over. -/
theorem offer_sent {w : BotState} {params : Object} (hw : Steady cfg w) (hwire : w.wire = .sent params) :
    w.offer = w.sequence.drop w.handed.length ∧ w.poll.phase = .requesting := by
  obtain ⟨got, left, hp, hst⟩ := hw
  cases hst with
  | sent phase spent completion wire live resumes =>
      subst spent
      obtain ⟨-, hlen⟩ := hp.length_handed completion
      have hforget := forgotten_forget hp.received hp.began (hlen ▸ hp.forgot)
      refine ⟨?_, phase⟩
      simp only [BotState.offer, wire]
      rw [offset_getUpdatesParams, hp.offset, Server.held, updates_forget, hforget, BotState.sequence,
        List.drop_drop, hlen]
  | suspended _ _ wire | answered _ _ _ _ wire | raised _ _ _ _ wire | ended _ _ _ wire =>
      simp [hwire] at wire

/-- Where the poll stands while no request has failed, and the event with which
it goes on. -/
theorem exists_poll (cfg : PollConfig) (mode : SqlMode) {w : BotState} (hlimit : 0 < cfg.limit.toInt)
    (hw : Steady cfg w) (hlive : w.Live) :
    ∃ e w', e.isPoll = true ∧ Eager w e ∧ w.step cfg mode e = some w' := by
  obtain ⟨got, left, hp, hst⟩ := id hw
  cases hst with
  | suspended phase completion wire live resumes =>
      rcases completion with hnone | ⟨update, hsome⟩
      · have hresume : w.poll.resume cfg =
            some (LongPolling.advance cfg w.poll.offset (left.map Update.toValue)) := by
          rw [LongPolling.resume, phase]
        have hresumes : w.resumes ≠ 0 := by omega
        exact ⟨.resume, _, rfl, trivial, resume_possible cfg mode hnone hresumes hresume⟩
      · exact ⟨.onUpdate, _, rfl, trivial, onUpdate_possible cfg mode hsome⟩
  | sent phase spent completion wire live resumes =>
      have hserve := serve_possible cfg mode (n := 1) wire
        (limit_getUpdatesParams cfg w.poll.offset) (by rw [Int32.toInt_toInt64]; omega) rfl
      exact ⟨.serve 1, _, rfl, fun _ => Nat.one_pos, hserve⟩
  | answered batch phase spent completion wire =>
      obtain ⟨-, offset, hreceive⟩ := receive_batch mode hw wire
      exact ⟨.receive, _, rfl, trivial, hreceive⟩
  | raised e phase spent completion => exact absurd completion (hlive.unraised e)
  | ended phase spent completion wire dead =>
      rw [hlive.undelivered] at dead
      contradiction

/-! ## towards the updates that have arrived -/

/-- The events of the poll until `target` updates have been handed over: an
update takes four at most. -/
def BotState.toGo (target : Nat) (w : BotState) : Nat := 4 * (target - w.handed.length) + w.rank

theorem rank_le (w : BotState) : w.rank ≤ 3 := by
  unfold BotState.rank
  split
  · split
    · omega
    · split <;> omega
  · split <;> omega
  · omega

/-- What an eager event does while fewer than `target` updates have been handed
over: no request has failed after it either, and if it is the poll's there is
less to go. -/
theorem toGo_step (target : Nat) {w w' : BotState} {e : BotEvent} (hw : Steady cfg w)
    (hlive : w.Live) (he : Eager w e) (h : w.step cfg mode e = some w') :
    w'.Live ∧ (w.handed.length < target → target ≤ w.sequence.length →
      w'.toGo target + (if e.isPoll then 1 else 0) ≤ w.toGo target) := by
  cases e with
  | arrive u =>
      obtain ⟨hu, rfl⟩ := BotState.step_arrive h
      exact ⟨⟨hlive.undelivered, hlive.unraised⟩, fun _ _ => le_rfl⟩
  | task e =>
      obtain ⟨tasks, -, rfl⟩ := BotState.step_task h
      exact ⟨⟨hlive.undelivered, hlive.unraised⟩, fun _ _ => le_rfl⟩
  | fail | refuse | restart => exact he.elim
  | resume =>
      obtain ⟨r, hcompletion, -, hr, rfl⟩ := BotState.step_resume h
      obtain ⟨got, left, hp, hst⟩ := hw
      cases hst with
      | suspended phase _ wire live resumes =>
          rw [LongPolling.resume, phase, Option.some.injEq] at hr
          subst hr
          refine ⟨live_advance live hcompletion _ _, fun _ _ => ?_⟩
          simp only [BotState.toGo, handed_goOn, rank_advance]
          simp only [BotState.rank, phase, hcompletion, BotEvent.isPoll, List.isEmpty_map]
          cases left <;> simp
      | sent phase | answered _ phase | raised _ phase | ended phase =>
          simp [LongPolling.resume, phase] at hr
  | serve n =>
      obtain ⟨params, limit, server, hwire, -, -, rfl, rfl⟩ := BotState.step_serve h
      refine ⟨⟨hlive.undelivered, hlive.unraised⟩, fun hmore htarget => ?_⟩
      obtain ⟨hoffer, hphase⟩ := offer_sent hw hwire
      -- there is something to answer with
      have hne : w.offer ≠ [] := by
        rw [hoffer, Ne, List.drop_eq_nil_iff]
        omega
      have hn : 0 < n := he hne
      have hbatch : ((w.server.forget ((ifContains params "offset").bind ifInt64)).held.take n) ≠ [] := by
        simp only [BotState.offer, hwire] at hne
        rw [Ne, List.take_eq_nil_iff]
        rintro (hzero | hnil)
        · omega
        · exact hne hnil
      simp only [BotState.toGo, BotState.rank, hphase, hwire, BotEvent.isPoll]
      simp [List.isEmpty_iff, hbatch]
  | receive =>
      obtain ⟨batch, hwire, -⟩ := BotState.step_receive h
      obtain ⟨hphase, offset, hreceive⟩ := receive_batch mode hw hwire
      rw [h, Option.some.injEq] at hreceive
      subst hreceive
      obtain ⟨got, left, hp, hst⟩ := hw
      cases hst with
      | answered _ _ _ completion =>
          refine ⟨live_advance hlive.undelivered completion _ _, fun _ _ => ?_⟩
          simp only [BotState.toGo, handed_goOn, rank_advance]
          simp only [BotState.rank, hphase, hwire, BotEvent.isPoll]
          cases batch <;> simp
      | suspended _ _ wire | sent _ _ _ wire | raised _ _ _ _ wire | ended _ _ _ wire =>
          simp [hwire] at wire
  | onUpdate =>
      obtain ⟨r, hr, rfl⟩ := BotState.step_onUpdate h
      cases r with
      | error e => exact absurd hr (hlive.unraised e)
      | ok update =>
          refine ⟨⟨hlive.undelivered, by simp [BotState.onUpdate]⟩, fun hmore _ => ?_⟩
          have hle := rank_le (w.onUpdate (.ok update))
          have hlen : (w.onUpdate (.ok update)).handed.length = w.handed.length + 1 := by
            simp [BotState.onUpdate]
          simp only [BotState.toGo, hlen, BotEvent.isPoll, if_true]
          omega

/-- No request has failed, and `n` events of the poll at most hand over `target`
updates. -/
structure Approaching (cfg : PollConfig) (target : Nat) (w : BotState) (n : Nat) : Prop where
  steady : Steady cfg w
  live : w.Live
  arrived : target ≤ w.sequence.length
  toGo : w.toGo target = n

theorem approaching_step {w w' : BotState} {e : BotEvent} {target n : Nat}
    (h : Approaching cfg target w n) (hmore : ¬ target ≤ w.handed.length) (he : Eager w e)
    (hstep : w.step cfg mode e = some w') :
    ∃ m, Approaching cfg target w' m ∧ m + (if e.isPoll then 1 else 0) ≤ n := by
  obtain ⟨hlive, hle⟩ := toGo_step target h.steady h.live he hstep
  have hon : Onward w w' := onward_eager he hstep
  refine ⟨_, ⟨steady_step h.steady hstep, hlive, h.arrived.trans hon.sequence.length_le, rfl⟩, ?_⟩
  rw [← h.toGo]
  exact hle (Nat.lt_of_not_le hmore) h.arrived

/-- An eager run leads onward, and no request fails in it. -/
theorem onward_of_run {w w' : BotState} {fs : List BotEvent} (hw : Steady cfg w) (hlive : w.Live)
    (h : Run (BotState.step cfg mode) Eager w fs w') : Steady cfg w' ∧ w'.Live ∧ Onward w w' := by
  refine h.invariant (I := fun v => Steady cfg v ∧ v.Live ∧ Onward w v) ?_ ⟨hw, hlive, .refl w⟩
  rintro s e t ⟨hs, hl, hon⟩ he hstep
  exact ⟨steady_step hs hstep, (toGo_step 0 hs hl he hstep).1,
    hon.trans (onward_eager he hstep)⟩

/-- After four events of the poll for each update, everything that had arrived
has been handed over. -/
theorem handed_of_run {w w' : BotState} {fs : List BotEvent} (hw : Steady cfg w) (hlive : w.Live)
    (h : Run (BotState.step cfg mode) Eager w fs w')
    (hcount : 4 * (w.sequence.length - w.handed.length) ≤ fs.countP BotEvent.isPoll) :
    w.sequence.map Update.fields <+: w'.handed := by
  obtain ⟨⟨got, left, hp, -⟩, -, hon⟩ := onward_of_run hw hlive h
  have hlen : w.sequence.length ≤ w'.handed.length := by
    have hstays : ∀ s e t, w.sequence.length ≤ s.handed.length → Eager s e →
        BotState.step cfg mode s e = some t → w.sequence.length ≤ t.handed.length := by
      intro s e t hs he hstep
      exact hs.trans (onward_eager he hstep).handed.length_le
    rcases h.countdown (R := Approaching cfg w.sequence.length) BotEvent.isPoll hstays
        (fun s n e t hs hmore he hstep => .inr (approaching_step hs hmore he hstep))
        ⟨hw, hlive, le_rfl, rfl⟩ with hall | ⟨m, hm, hle⟩
    · exact hall
    · -- otherwise four events at least would be to go
      by_contra hmore
      have htoGo := hm.toGo
      have hrank := rank_le w
      simp only [BotState.toGo] at htoGo hle
      omega
  refine List.prefix_of_prefix_length_le (hon.sequence.map Update.fields) hp.handed_sequence ?_
  rwa [List.length_map]

/-- Two updates that arrived before the first request. -/
def twoArrived : List BotEvent := [.arrive firstUpdate, .arrive secondUpdate, .resume]

/-- They are handed over one by one, the task of the first one begins, and a third
update arrives. -/
def handsOverTwo : List BotEvent :=
  [.serve 1, .receive, .onUpdate, .task (.initiate 0), .resume,
    .arrive (startUpdate 3 (by decide)), .serve 1, .receive, .onUpdate, .resume]

/-- Nothing arrives by an event of the poll. -/
theorem updates_poll {w w' : BotState} {e : BotEvent} (he : e.isPoll = true)
    (h : w.step cfg mode e = some w') : w'.server.updates = w.server.updates := by
  cases BotState.change_of_step h with
  | goOn e r =>
      obtain ⟨poll, output⟩ := r
      cases output <;> rfl
  | serve n offset wire => exact updates_forget _ _
  | onUpdate r hr => cases r <;> rfl
  | arrive | task | restart => simp [BotEvent.isPoll] at he

/-- The poll hands over everything that has arrived without another party but
Telegram. -/
theorem exists_handsOver (mode : SqlMode) {w : BotState} (hlimit : 0 < cfg.limit.toInt)
    (hw : Steady cfg w) (hlive : w.Live) :
    ∃ fs w', Run (BotState.step cfg mode) (fun _ e => BotEvent.isPoll e = true) w fs w' ∧
      w'.server.updates = w.server.updates ∧ w'.handed = w.sequence.map Update.fields := by
  have hlowers : ∀ s n, Approaching cfg w.sequence.length s n → ¬ w.sequence.length ≤ s.handed.length →
      ∃ e t m, (e.isPoll = true ∧ Eager s e) ∧ s.step cfg mode e = some t ∧
        Approaching cfg w.sequence.length t m ∧ m < n := by
    intro s n hs hmore
    obtain ⟨e, t, he, heager, hstep⟩ := exists_poll cfg mode hlimit hs.steady hs.live
    obtain ⟨m, ht, hm⟩ := approaching_step hs hmore heager hstep
    rw [he, if_pos rfl] at hm
    exact ⟨e, t, m, ⟨he, heager⟩, hstep, ht, hm⟩
  obtain ⟨fs, w', _, hrun, ht, hall⟩ := exists_run_of_countdown hlowers ⟨hw, hlive, le_rfl, rfl⟩
  have hupdates : w'.server.updates = w.server.updates :=
    hrun.invariant (I := fun v => v.server.updates = w.server.updates)
      (fun s e t hs he hstep => (updates_poll he.1 hstep).trans hs) rfl
  obtain ⟨-, -, hon⟩ := onward_of_run hw hlive (hrun.imp fun _ _ he => he.2)
  have hsequence : w'.sequence = w.sequence := by
    rw [BotState.sequence, BotState.sequence, hupdates, hon.began]
  obtain ⟨got, left, hp, -⟩ := ht.steady
  refine ⟨fs, w', hrun.imp fun _ _ he => he.1, hupdates, ?_⟩
  rw [← hsequence]
  refine hp.handed_sequence.eq_of_length_le ?_
  rw [List.length_map, hsequence]
  exact hall

end LearnWords
