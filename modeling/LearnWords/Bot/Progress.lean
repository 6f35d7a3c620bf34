import LearnWords.Bot

/-!
# LearnWords.Bot.Progress

The invariant of the bot.

At any time the updates `got` the coroutine received since the program was
started are a part of Telegram's sequence, from the first update not forgotten
then; those of them that are still in the coroutine's hands are `left`
(`Progress`).  Where the coroutine and its request stand is `Standing`.  The
two hold together at the start and after every event (`steady_step`).

The link to Telegram's queue is the offset, one past the last update received:
a request is sent only when every received update was handed over, so what
Telegram forgets when it serves the request was handed over before.
-/

namespace LearnWords

open Machine

variable {cfg : PollConfig} {mode : SqlMode}

/-! ## the offset -/

theorem toInt_succ {b : Int64} (h : b < Int64.maxValue) : (b + 1).toInt = b.toInt + 1 := by
  have hlt := Int64.lt_iff_toInt_lt.mp h
  have hmax : Int64.maxValue.toInt = 2 ^ 63 - 1 := by decide
  have hlow := Int64.le_toInt b
  rw [Int64.toInt_add, Int64.toInt_one]
  exact Int.bmod_eq_of_le (by omega) (by omega)

/-- Below the maximum adding one does not overflow. -/
theorem lt_succ_iff {a b : Int64} (h : b < Int64.maxValue) : a < b + 1 ↔ a ≤ b := by
  rw [Int64.lt_iff_toInt_lt, Int64.le_iff_toInt_le, toInt_succ h]
  omega

/-- One past the id of the last update. -/
def nextId (us : List Update) : Option Int64 := us.getLast?.map fun u => u.id + 1

/-- The coroutine computes the offset from the last update of its batch. -/
theorem nextOffset_map (got us : List Update) :
    LongPolling.nextOffset (nextId got) (us.map Update.toValue) = .ok (nextId (got ++ us)) := by
  cases us using List.reverseRecOn with
  | nil => simp [LongPolling.nextOffset]
  | append_singleton us u =>
      have hlookup : u.fields.lookup "update_id" = some (.int64 u.id) := u.hasId
      have hat : Object.at u.fields "update_id" = .ok (.int64 u.id) := by
        simp only [Object.at, hlookup, orThrow_some]
      have hlast : ((us ++ [u]).map Update.toValue).getLast? = some u.toValue := by simp
      simp only [LongPolling.nextOffset, hlast, Update.toValue, asObject_object]
      simp [nextId, hat, Bind.bind, Except.bind, Pure.pure, Except.pure]

/-- A batch of updates takes the coroutine to its first update, or to the next
request. -/
theorem onResponse_batch (got us : List Update) (phase : PollPhase) :
    LongPolling.onResponse cfg ⟨nextId got, phase⟩
        (requestResult (okResponse (.array (us.map Update.toValue)))) =
      LongPolling.advance cfg (nextId (got ++ us)) (us.map Update.toValue) := by
  have hresult : requestResult (okResponse (.array (us.map Update.toValue))) =
      .ok (.ok (.array (us.map Update.toValue))) := rfl
  simp only [hresult, LongPolling.onResponse, asArray_array, nextOffset_map]

/-- The updates up to `u` are those below the offset past `u`. -/
theorem takeWhile_lt_succ {l pre post : List Update} {u : Update}
    (hsorted : l.Pairwise fun u v => u.id < v.id) (h : l = pre ++ u :: post) :
    (l.takeWhile fun v => v.id < u.id + 1) = pre ++ [u] := by
  rw [h, List.pairwise_append, List.pairwise_cons] at hsorted
  obtain ⟨-, ⟨hpost, -⟩, hpre⟩ := hsorted
  have hbelow : ∀ v ∈ pre ++ [u], decide (v.id < u.id + 1) = true := by
    intro v hv
    rw [decide_eq_true_eq, lt_succ_iff u.bounded]
    rcases List.mem_append.mp hv with hv | hv
    · exact Int64.le_of_lt (hpre v hv u (by simp))
    · rw [List.mem_singleton.mp hv]
      exact Int64.le_refl _
  have habove : (post.takeWhile fun v => decide (v.id < u.id + 1)) = [] := by
    cases post with
    | nil => rfl
    | cons v post =>
        have hlt : u.id < v.id := hpost v (by simp)
        have hnot : ¬ v.id < u.id + 1 := by
          rw [lt_succ_iff u.bounded]
          exact Int64.not_le.mpr hlt
        simp [hnot]
  rw [h, List.append_cons, List.takeWhile_append_of_pos hbelow, habove, List.append_nil]

/-- Served with the offset past the updates received, a request makes Telegram
forget just these. -/
theorem forgotten_forget {s : Server} {began : Nat} {got : List Update}
    (hgot : got <+: s.updates.drop began) (hbegan : began ≤ s.forgotten)
    (hforgot : s.forgotten ≤ began + got.length) :
    (s.forget (nextId got)).forgotten = began + got.length := by
  cases got using List.reverseRecOn with
  | nil =>
      simp only [nextId, List.getLast?_nil, Option.map_none, Server.forget, List.length_nil] at *
      omega
  | append_singleton got u =>
      obtain ⟨post, hpost⟩ := hgot
      have hsplit : s.updates = (s.updates.take began ++ got) ++ u :: post := by
        calc s.updates = s.updates.take began ++ s.updates.drop began :=
              (List.take_append_drop began s.updates).symm
          _ = (s.updates.take began ++ got) ++ u :: post := by
              rw [← hpost]
              simp
      have hbelow := takeWhile_lt_succ s.sorted hsplit
      have hlen : (s.updates.take began).length = began := by
        rw [List.length_take]
        exact Nat.min_eq_left (hbegan.trans s.bound)
      have hnext : nextId (got ++ [u]) = some (u.id + 1) := by simp [nextId]
      rw [hnext]
      simp only [Server.forget, Server.below, hbelow, List.length_append, List.length_singleton,
        hlen] at *
      omega

@[simp] theorem updates_forget (s : Server) (offset : Option Int64) :
    (s.forget offset).updates = s.updates := by
  cases offset <;> rfl

/-! ## the invariant -/

/-- The update the coroutine has yielded and `on_update` has not got yet. -/
def BotState.yielded (w : BotState) : List Object :=
  match w.completion with
  | some (.ok update) => [update]
  | _ => []

/-- The coroutine received the updates `got`, and `left` are still to be
yielded. -/
structure Progress (cfg : PollConfig) (w : BotState) (got left : List Update) : Prop where
  received : got <+: w.sequence
  accounted : w.handed ++ w.yielded ++ left.map Update.fields = got.map Update.fields
  offset : w.poll.offset = nextId got
  began : w.began ≤ w.server.forgotten
  /-- what was forgotten was handed over -/
  forgot : w.server.forgotten ≤ w.began + w.handed.length
  /-- all but the last batch are forgotten -/
  lag : w.began + got.length ≤ w.server.forgotten + cfg.limit.toInt.toNat
  /-- a task was spawned for each update handed over -/
  tasks : List.Forall₂ (fun f p => Fiber.From p f) w.tasks.fibers (w.handed.map processUpdate)

/-- Where the coroutine and its request stand. -/
inductive Standing (cfg : PollConfig) (w : BotState) (got left : List Update) : Prop
  /-- at the start, or at a `co_yield` -/
  | suspended (phase : w.poll.phase = .suspended (left.map Update.toValue))
      (completion : w.completion = none ∨ ∃ update, w.completion = some (.ok update))
      (wire : w.wire = .idle) (live : w.failed = false) (resumes : w.resumes = 1)
  /-- its request is on the way to Telegram -/
  | sent (phase : w.poll.phase = .requesting) (spent : left = []) (completion : w.completion = none)
      (wire : w.wire = .sent (getUpdatesParams cfg w.poll.offset)) (live : w.failed = false)
      (resumes : w.resumes = 1)
  /-- its response is on the way back -/
  | answered (batch : List Update) (phase : w.poll.phase = .requesting) (spent : left = [])
      (completion : w.completion = none) (wire : w.wire = .answered batch)
      (held : batch <+: w.server.held) (size : batch.length ≤ cfg.limit.toInt.toNat)
      (forgot : w.server.forgotten = w.began + got.length) (live : w.failed = false)
      (resumes : w.resumes = 1)
  /-- it raised -/
  | raised (e : Exn) (phase : w.poll.phase = .finished) (spent : left = [])
      (completion : w.completion = some (.error e)) (wire : w.wire = .idle)
      (live : w.failed = false) (resumes : w.resumes = 1)
  /-- the failure was delivered -/
  | ended (phase : w.poll.phase = .finished) (spent : left = []) (completion : w.completion = none)
      (wire : w.wire = .idle) (dead : w.failed = true) (resumes : w.resumes = 0)

/-- The bot is in order. -/
def Steady (cfg : PollConfig) (w : BotState) : Prop :=
  ∃ got left, Progress cfg w got left ∧ Standing cfg w got left

/-- A program just started is. -/
theorem steady_start (server : Server) (world : World) (earlier : List Object) :
    Steady cfg (BotState.start server world earlier) := by
  have hreceived : [] <+: (BotState.start server world earlier).sequence := ⟨_, rfl⟩
  exact ⟨[], [], ⟨hreceived, rfl, rfl, le_rfl, le_rfl, Nat.le_add_right _ _, .nil⟩,
    .suspended rfl (.inl rfl) rfl rfl rfl⟩

/-! ## the coroutine goes on -/

/-- The coroutine has received `got` and goes on with `left`: it yields the
first of them, or sends the next request. -/
theorem steady_advance {w : BotState} {got left : List Update}
    (received : got <+: w.sequence) (accounted : w.handed ++ left.map Update.fields = got.map Update.fields)
    (began : w.began ≤ w.server.forgotten) (forgot : w.server.forgotten ≤ w.began + w.handed.length)
    (lag : w.began + got.length ≤ w.server.forgotten + cfg.limit.toInt.toNat)
    (tasks : List.Forall₂ (fun f p => Fiber.From p f) w.tasks.fibers (w.handed.map processUpdate))
    (hcompletion : w.completion = none) (live : w.failed = false) (resumes : w.resumes = 1) :
    Steady cfg (w.goOn (LongPolling.advance cfg (nextId got) (left.map Update.toValue))) := by
  cases left with
  | nil =>
      refine ⟨got, [], ⟨received, ?_, rfl, began, forgot, lag, tasks⟩,
        .sent rfl rfl hcompletion rfl live resumes⟩
      simpa [BotState.yielded, BotState.goOn, LongPolling.advance, hcompletion] using accounted
  | cons u left =>
      refine ⟨got, left, ⟨received, ?_, rfl, began, forgot, lag, tasks⟩,
        .suspended rfl (.inr ⟨u.fields, rfl⟩) rfl live resumes⟩
      simpa [BotState.yielded, BotState.goOn, LongPolling.advance, Update.toValue] using accounted

/-- A failed request ends the coroutine. -/
theorem steady_raise {w : BotState} {got left : List Update} {poll : LongPolling} {e : Exn}
    (h : Progress cfg w got left) (spent : left = []) (hpoll : poll = ⟨w.poll.offset, .finished⟩)
    (hcompletion : w.completion = none) (live : w.failed = false) (resumes : w.resumes = 1) :
    Steady cfg (w.goOn (poll, .raises e)) := by
  subst hpoll
  refine ⟨got, left, ⟨h.received, ?_, h.offset, h.began, h.forgot, h.lag, h.tasks⟩,
    .raised e rfl spent rfl rfl live resumes⟩
  simpa [BotState.yielded, BotState.goOn, hcompletion] using h.accounted

/-! ## one event -/

/-- With nothing left and nothing yielded, every received update was handed
over. -/
theorem Progress.length_handed {w : BotState} {got : List Update} (h : Progress cfg w got [])
    (hcompletion : w.completion = none) :
    w.handed = got.map Update.fields ∧ w.handed.length = got.length := by
  have heq : w.handed = got.map Update.fields := by
    simpa [BotState.yielded, hcompletion] using h.accounted
  exact ⟨heq, by rw [heq, List.length_map]⟩

/-- Where the coroutine stands does not depend on its tasks, nor on what
arrives at Telegram. -/
theorem Standing.keep {w : BotState} {got left : List Update} {server : Server}
    {tasks : DialogPool} (h : Standing cfg w got left)
    (hforgotten : server.forgotten = w.server.forgotten) (hheld : w.server.held <+: server.held) :
    Standing cfg { w with server := server, tasks := tasks } got left := by
  cases h with
  | suspended phase completion wire live resumes =>
      exact .suspended phase completion wire live resumes
  | sent phase spent completion wire live resumes =>
      exact .sent phase spent completion wire live resumes
  | answered batch phase spent completion wire held size forgot live resumes =>
      exact .answered batch phase spent completion wire (held.trans hheld) size
        (hforgotten.trans forgot) live resumes
  | raised e phase spent completion wire live resumes =>
      exact .raised e phase spent completion wire live resumes
  | ended phase spent completion wire dead resumes =>
      exact .ended phase spent completion wire dead resumes

/-- A user writes to the bot. -/
theorem steady_arrive {w : BotState} {u : Update} (hu : ∀ v ∈ w.server.updates, v.id < u.id)
    (hw : Steady cfg w) : Steady cfg { w with server := w.server.arrive u hu } := by
  obtain ⟨got, left, hp, hst⟩ := hw
  have hbegan : w.began ≤ w.server.updates.length := hp.began.trans w.server.bound
  have hsequence : w.sequence <+: (w.server.updates ++ [u]).drop w.began := by
    rw [List.drop_append_of_le_length hbegan]
    exact List.prefix_append _ _
  have hheld : w.server.held <+: (w.server.arrive u hu).held := by
    simp only [Server.held, Server.arrive]
    rw [List.drop_append_of_le_length w.server.bound]
    exact List.prefix_append _ _
  exact ⟨got, left, ⟨hp.received.trans hsequence, hp.accounted, hp.offset, hp.began, hp.forgot,
    hp.lag, hp.tasks⟩, hst.keep rfl hheld⟩

/-- The coroutine goes on after a `co_yield`. -/
theorem steady_resume {w : BotState} {r : LongPolling × PollOutput} (hw : Steady cfg w)
    (hcompletion : w.completion = none) (hresumes : w.resumes ≠ 0)
    (hr : w.poll.resume cfg = some r) : Steady cfg (w.goOn r) := by
  obtain ⟨got, left, hp, hst⟩ := hw
  cases hst with
  | suspended phase _ wire live resumes =>
      rw [LongPolling.resume, phase, Option.some.injEq] at hr
      subst hr
      rw [hp.offset]
      refine steady_advance hp.received ?_ hp.began hp.forgot hp.lag hp.tasks hcompletion live resumes
      simpa [BotState.yielded, hcompletion] using hp.accounted
  | sent phase | answered _ phase => simp [LongPolling.resume, phase] at hr
  | raised _ _ _ completion => simp [hcompletion] at completion
  | ended _ _ _ _ _ resumes => exact absurd resumes hresumes

/-- Telegram serves the request. -/
theorem steady_serve {w : BotState} {params : Object} {limit : Int64} {n : Nat}
    (hw : Steady cfg w) (hwire : w.wire = .sent params)
    (hlimit : (ifContains params "limit").bind ifInt64 = some limit) (hn : (n : Int) ≤ limit.toInt) :
    Steady cfg { w with
      server := w.server.forget ((ifContains params "offset").bind ifInt64)
      wire := .answered
        ((w.server.forget ((ifContains params "offset").bind ifInt64)).held.take n) } := by
  obtain ⟨got, left, hp, hst⟩ := hw
  cases hst with
  | sent phase spent completion wire live resumes =>
      subst spent
      rw [hwire, Wire.sent.injEq] at wire
      subst wire
      obtain ⟨-, hlen⟩ := hp.length_handed completion
      have hforget := forgotten_forget hp.received hp.began (hlen ▸ hp.forgot)
      rw [offset_getUpdatesParams, hp.offset]
      refine ⟨got, [], ⟨?_, hp.accounted, hp.offset, ?_, ?_, ?_, hp.tasks⟩,
        .answered _ phase rfl completion rfl (List.take_prefix _ _) ?_ hforget live resumes⟩
      · simpa [BotState.sequence] using hp.received
      · simp only [hforget]
        omega
      · simp only [hforget, hlen]
        exact le_rfl
      · simp only [hforget]
        omega
      · rw [limit_getUpdatesParams, Option.some.injEq] at hlimit
        subst hlimit
        rw [Int32.toInt_toInt64] at hn
        rw [List.length_take]
        omega
  | suspended _ _ wire | answered _ _ _ _ wire | raised _ _ _ _ wire | ended _ _ _ wire =>
      simp [hwire] at wire

/-- The response arrives. -/
theorem steady_receive {w : BotState} {batch : List Update} (hw : Steady cfg w)
    (hwire : w.wire = .answered batch) :
    Steady cfg (w.goOn (w.poll.onResponse cfg
      (requestResult (okResponse (.array (batch.map Update.toValue)))))) := by
  obtain ⟨got, left, hp, hst⟩ := hw
  cases hst with
  | answered batch' phase spent completion wire held size forgot live resumes =>
      subst spent
      rw [hwire, Wire.answered.injEq] at wire
      subst wire
      obtain ⟨hhanded, hlen⟩ := hp.length_handed completion
      have hpoll : w.poll = ⟨nextId got, .requesting⟩ := by rw [← hp.offset, ← phase]
      have hreceived : got ++ batch <+: w.sequence := by
        obtain ⟨post, hpost⟩ := hp.received
        have hheld : w.server.held = post := by
          rw [Server.held, forgot, ← List.drop_drop]
          have hdrop : w.server.updates.drop w.began = got ++ post := hpost.symm
          rw [hdrop]
          simp
        rw [hheld] at held
        rw [← hpost]
        exact (List.prefix_append_right_inj _).mpr held
      rw [hpoll, onResponse_batch]
      refine steady_advance hreceived ?_ hp.began ?_ ?_ hp.tasks completion live resumes
      · rw [hhanded, List.map_append]
      · omega
      · rw [List.length_append]
        omega
  | suspended _ _ wire | sent _ _ _ wire | raised _ _ _ _ wire | ended _ _ _ wire =>
      simp [hwire] at wire

/-- A request fails on its way. -/
theorem steady_fail {w : BotState} {e : Exn} (hw : Steady cfg w) (hwire : w.wire ≠ .idle) :
    Steady cfg (w.goOn (⟨w.poll.offset, .finished⟩, .raises e)) := by
  obtain ⟨got, left, hp, hst⟩ := hw
  cases hst with
  | sent _ spent completion _ live resumes =>
      exact steady_raise hp spent rfl completion live resumes
  | answered _ _ spent completion _ _ _ _ live resumes =>
      exact steady_raise hp spent rfl completion live resumes
  | suspended _ _ wire | raised _ _ _ _ wire | ended _ _ _ wire => exact absurd wire hwire

/-- The handler gets an update, or a failure. -/
theorem steady_onUpdate {w : BotState} {r : Except Exn Object} (hw : Steady cfg w)
    (hcompletion : w.completion = some r) : Steady cfg (w.onUpdate r) := by
  obtain ⟨got, left, hp, hst⟩ := hw
  cases hst with
  | suspended phase completion wire live resumes =>
      obtain ⟨update, hupdate⟩ : ∃ update, r = .ok update := by
        rcases completion with hnone | ⟨update, hsome⟩
        · simp [hcompletion] at hnone
        · exact ⟨update, by simpa [hcompletion] using hsome⟩
      subst hupdate
      refine ⟨got, left, ⟨hp.received, ?_, hp.offset, hp.began, ?_, hp.lag, ?_⟩,
        .suspended phase (.inl rfl) wire live ?_⟩
      · simpa [BotState.yielded, BotState.onUpdate, hcompletion] using hp.accounted
      · have hforgot := hp.forgot
        simp only [BotState.onUpdate, List.length_append]
        omega
      · simp only [BotState.onUpdate, List.map_append]
        exact List.rel_append hp.tasks (.cons .start .nil)
      · simp [BotState.onUpdate, resumes]
  | raised e phase spent completion wire live resumes =>
      rw [hcompletion, Option.some.injEq] at completion
      subst completion
      refine ⟨got, left, ⟨hp.received, ?_, hp.offset, hp.began, hp.forgot, hp.lag, hp.tasks⟩,
        .ended phase spent rfl wire rfl ?_⟩
      · simpa [BotState.yielded, BotState.onUpdate, hcompletion] using hp.accounted
      · simp [BotState.onUpdate, resumes]
  | sent _ _ completion | answered _ _ _ completion | ended _ _ completion =>
      simp [hcompletion] at completion

/-- A task makes a step. -/
theorem steady_task {w : BotState} {e : TaskEvent} {tasks : DialogPool} (hw : Steady cfg w)
    (h : Pool.step (handler mode) w.tasks e.toPool = some tasks) :
    Steady cfg { w with tasks := tasks } := by
  obtain ⟨got, left, hp, hst⟩ := hw
  have htasks := Pool.step_from hp.tasks h
  have hnone : e.toPool.spawned = none := by cases e <;> rfl
  rw [hnone, Option.toList_none, List.append_nil] at htasks
  exact ⟨got, left,
    ⟨hp.received, hp.accounted, hp.offset, hp.began, hp.forgot, hp.lag, htasks⟩,
    hst.keep rfl (List.prefix_refl w.server.held)⟩

/-- Every event leaves the bot in order. -/
theorem steady_step {w w' : BotState} {e : BotEvent} (hw : Steady cfg w)
    (h : w.step cfg mode e = some w') : Steady cfg w' := by
  cases e with
  | arrive u =>
      obtain ⟨hu, rfl⟩ := BotState.step_arrive h
      exact steady_arrive hu hw
  | resume =>
      obtain ⟨r, hcompletion, hresumes, hr, rfl⟩ := BotState.step_resume h
      exact steady_resume hw hcompletion hresumes hr
  | serve n =>
      obtain ⟨params, limit, server, hwire, hlimit, hn, rfl, rfl⟩ := BotState.step_serve h
      exact steady_serve hw hwire hlimit hn
  | receive =>
      obtain ⟨batch, hwire, rfl⟩ := BotState.step_receive h
      exact steady_receive hw hwire
  | fail ec =>
      obtain ⟨hwire, rfl⟩ := BotState.step_fail h
      exact steady_fail hw hwire
  | refuse err =>
      obtain ⟨hwire, rfl⟩ := BotState.step_refuse h
      exact steady_fail hw hwire
  | onUpdate =>
      obtain ⟨r, hr, rfl⟩ := BotState.step_onUpdate h
      exact steady_onUpdate hw hr
  | task e =>
      obtain ⟨tasks, htasks, rfl⟩ := BotState.step_task h
      exact steady_task hw htasks
  | restart =>
      cases h
      exact steady_start w.server w.tasks.world _

end LearnWords
