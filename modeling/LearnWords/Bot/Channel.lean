import LearnWords.Bot.Delivery
import LearnWords.Lib.Channel

/-!
# LearnWords.Bot.Channel

What the bot is for: a channel (`LearnWords.Lib.Channel`) from its users to
`user_dialog`.  Telegram's queue holds the items, what it forgot is
acknowledged, `on_update` is the delivery, and a restart goes back to what is
not acknowledged; the window is the limit of a request.

Every run of the bot is one of the channel (`channel_of_runs`).  So the channel's
account holds of it: a restart repeats at most one batch.
-/

namespace LearnWords

open Machine

variable {cfg : PollConfig} {mode : SqlMode}

/-- The largest number of updates that can be handed over and not forgotten. -/
def PollConfig.window (cfg : PollConfig) : Nat := cfg.limit.toInt.toNat

/-- The channel that the bot is. -/
structure Represents (w : BotState) (c : Channel Update cfg.window) : Prop where
  items : c.items = w.server.updates
  acked : c.acked = w.server.forgotten
  cursor : c.cursor = w.began + w.handed.length
  delivered : c.delivered.map Update.fields = w.earlier ++ w.handed

/-- Is it a restart? -/
def BotEvent.isRestart : BotEvent → Bool
  | .restart => true
  | _ => false

/-- What was handed over last is the update at that place of the sequence. -/
theorem Progress.handed_last {w : BotState} {got left : List Update} {handed : List Object}
    {update : Object} (h : Progress cfg w got left) (hhanded : w.handed = handed ++ [update]) :
    ∃ hlt : w.began + handed.length < w.server.updates.length,
      (w.server.updates.get ⟨w.began + handed.length, hlt⟩).fields = update := by
  have hprefix := h.handed_sequence
  rw [hhanded] at hprefix
  have hget : (w.sequence.map Update.fields)[handed.length]? = some update := by
    obtain ⟨post, hpost⟩ := hprefix
    rw [← hpost]
    simp
  rw [List.getElem?_map, BotState.sequence, List.getElem?_drop] at hget
  obtain ⟨u, hu, hfields⟩ := Option.map_eq_some_iff.mp hget
  obtain ⟨hlt, hget⟩ := List.getElem?_eq_some_iff.mp hu
  refine ⟨hlt, ?_⟩
  rw [List.get_eq_getElem, hget, hfields]

theorem Represents.goOn {w : BotState} {c : Channel Update cfg.window} (h : Represents w c)
    (r : LongPolling × PollOutput) : Represents (w.goOn r) c := by
  obtain ⟨poll, output⟩ := r
  cases output <;> exact ⟨h.items, h.acked, h.cursor, h.delivered⟩

theorem forgotten_le_forget (s : Server) (offset : Option Int64) :
    s.forgotten ≤ (s.forget offset).forgotten := by
  cases offset with
  | none => exact le_rfl
  | some o => exact le_max_left _ _

/-- What Telegram forgets when it serves a request is acknowledged. -/
theorem represents_serve {w : BotState} {c : Channel Update cfg.window} {server : Server} {wire : Wire}
    (hc : Represents w c) (hupdates : server.updates = w.server.updates)
    (hle : w.server.forgotten ≤ server.forgotten)
    (hforgot : server.forgotten ≤ w.began + w.handed.length) :
    ∃ es c', runs Channel.step c es = some c' ∧
      Represents { w with server := server, wire := wire } c' ∧ c'.rewinds = c.rewinds := by
  have hcan : c.acked ≤ server.forgotten ∧ server.forgotten ≤ c.cursor := by
    rw [hc.acked, hc.cursor]
    exact ⟨hle, hforgot⟩
  refine ⟨[.ack server.forgotten], { c with
      acked := server.forgotten
      acked_le := hcan.2
      within := c.within.trans (Nat.add_le_add_right hcan.1 _) }, ?_,
    ⟨?_, rfl, hc.cursor, hc.delivered⟩, rfl⟩
  · simp only [runs_cons, Channel.step, dif_pos hcan, Option.bind_some, runs_nil]
  · show c.items = server.updates
    rw [hc.items, hupdates]

/-- What is handed over is delivered. -/
theorem represents_handOver {w w' : BotState} {c : Channel Update cfg.window} {got left : List Update}
    {update : Object} (hc : Represents w c) (hp : Progress cfg w' got left)
    (hserver : w'.server = w.server) (hbegan : w'.began = w.began) (hearlier : w'.earlier = w.earlier)
    (hhanded : w'.handed = w.handed ++ [update]) :
    ∃ es c', runs Channel.step c es = some c' ∧ Represents w' c' ∧ c'.rewinds = c.rewinds := by
  obtain ⟨hlt, hfields⟩ := hp.handed_last hhanded
  have hlag := hp.lag
  have hreceived := hp.handed_received.length_le
  rw [hbegan, hserver] at hlag
  simp only [hhanded, List.length_append, List.length_singleton, List.length_map] at hreceived
  obtain ⟨hitems, hacked, hcursor, hdelivered⟩ := hc
  have hcan : c.cursor < c.items.length ∧ c.cursor < c.acked + cfg.window := by
    rw [hitems, hacked, hcursor, ← hserver, ← hbegan]
    refine ⟨hlt, ?_⟩
    rw [hserver, hbegan, PollConfig.window]
    omega
  have hget : (c.items.get ⟨c.cursor, hcan.1⟩).fields = update := by
    rw [← hfields]
    simp only [List.get_eq_getElem, hitems, hcursor, hserver, hbegan]
  refine ⟨[.deliver], { c with
      cursor := c.cursor + 1
      delivered := c.delivered ++ [c.items.get ⟨c.cursor, hcan.1⟩]
      acked_le := Nat.le_add_right_of_le c.acked_le
      cursor_le := hcan.1
      within := hcan.2 }, ?_, ⟨?_, ?_, ?_, ?_⟩, rfl⟩
  · simp only [runs_cons, Channel.step, dif_pos hcan, Option.bind_some, runs_nil]
  · rw [hserver]
    exact hitems
  · rw [hserver]
    exact hacked
  · show c.cursor + 1 = w'.began + w'.handed.length
    rw [hbegan, hhanded, List.length_append, List.length_singleton, hcursor]
    omega
  · show (c.delivered ++ [c.items.get ⟨c.cursor, hcan.1⟩]).map Update.fields = w'.earlier ++ w'.handed
    rw [List.map_append, hdelivered, List.map_singleton, hget, hearlier, hhanded, List.append_assoc]

/-- Each event of the bot is an event of the channel, or none. -/
theorem channel_step {w w' : BotState} {e : BotEvent} {c : Channel Update cfg.window}
    (hw : Steady cfg w) (hc : Represents w c) (h : w.step cfg mode e = some w') :
    ∃ es c', runs Channel.step c es = some c' ∧ Represents w' c' ∧
      c'.rewinds = c.rewinds + if e.isRestart then 1 else 0 := by
  have hw' : Steady cfg w' := steady_step hw h
  obtain ⟨got', left', hp', -⟩ := hw'
  cases e with
  | arrive u =>
      obtain ⟨hu, rfl⟩ := BotState.step_arrive h
      refine ⟨[.put u], _, rfl, ⟨?_, hc.acked, hc.cursor, hc.delivered⟩, rfl⟩
      show c.items ++ [u] = w.server.updates ++ [u]
      rw [hc.items]
  | resume =>
      obtain ⟨r, -, -, -, rfl⟩ := BotState.step_resume h
      exact ⟨[], c, rfl, hc.goOn r, rfl⟩
  | serve n =>
      obtain ⟨params, limit, server, -, -, -, rfl, rfl⟩ := BotState.step_serve h
      exact represents_serve hc (updates_forget _ _) (forgotten_le_forget _ _) hp'.forgot
  | receive =>
      obtain ⟨batch, -, rfl⟩ := BotState.step_receive h
      exact ⟨[], c, rfl, hc.goOn _, rfl⟩
  | fail ec =>
      obtain ⟨-, rfl⟩ := BotState.step_fail h
      exact ⟨[], c, rfl, hc.goOn _, rfl⟩
  | refuse err =>
      obtain ⟨-, rfl⟩ := BotState.step_refuse h
      exact ⟨[], c, rfl, hc.goOn _, rfl⟩
  | onUpdate =>
      obtain ⟨r, -, rfl⟩ := BotState.step_onUpdate h
      cases r with
      | error ex => exact ⟨[], c, rfl, ⟨hc.items, hc.acked, hc.cursor, hc.delivered⟩, rfl⟩
      | ok update => exact represents_handOver hc hp' rfl rfl rfl rfl
  | task e =>
      obtain ⟨tasks, -, rfl⟩ := BotState.step_task h
      exact ⟨[], c, rfl, ⟨hc.items, hc.acked, hc.cursor, hc.delivered⟩, rfl⟩
  | restart =>
      obtain rfl := Option.some.inj h
      refine ⟨[.rewind], _, rfl, ⟨hc.items, hc.acked, hc.acked, ?_⟩, rfl⟩
      show c.delivered.map Update.fields = (w.earlier ++ w.handed) ++ []
      rw [List.append_nil, hc.delivered]

/-- Step by step the channel follows the bot, and counts its restarts. -/
theorem exists_channel {server : Server} {world : World} {es : List BotEvent} {w : BotState}
    (h : runs (BotState.step cfg mode) (.start server world []) es = some w) :
    ∃ cs, ∃ c : Channel Update cfg.window,
      runs Channel.step (.make server.updates server.forgotten server.bound) cs = some c ∧
        Represents w c ∧ c.rewinds = es.countP BotEvent.isRestart := by
  have hstep : ∀ (s : BotState × Nat) (c : Channel Update cfg.window) e t,
      (Steady cfg s.1 ∧ Represents s.1 c ∧ c.rewinds = s.2) →
      counting (BotState.step cfg mode) BotEvent.isRestart s e = some t →
      ∃ cs c', runs Channel.step c cs = some c' ∧
        (Steady cfg t.1 ∧ Represents t.1 c' ∧ c'.rewinds = t.2) := by
    rintro ⟨w, k⟩ c e t ⟨hw, hc, hk⟩ hst
    obtain ⟨w', hw', rfl⟩ := Option.map_eq_some_iff.mp hst
    obtain ⟨cs, c', hruns, hc', hrewinds⟩ := channel_step hw hc hw'
    exact ⟨cs, c', hruns, steady_step hw hw', hc', hrewinds.trans (by rw [hk])⟩
  have hstart : Represents (BotState.start server world [])
      (.make server.updates server.forgotten server.bound : Channel Update cfg.window) :=
    ⟨rfl, rfl, rfl, rfl⟩
  obtain ⟨cs, c, hruns, -, hc, hrewinds⟩ := runs_refines hstep (runs_counting h 0)
    ⟨steady_start server world [], hstart, rfl⟩
  exact ⟨cs, c, hruns, hc, hrewinds.trans (Nat.zero_add _)⟩

/-- **The channel**: a run of the bot is a run of the channel, in which its
restarts are the interruptions. -/
theorem channel_of_runs (cfg : PollConfig) (mode : SqlMode) (server : Server) (world : World)
    (es : List BotEvent) (w : BotState)
    (h : runs (BotState.step cfg mode) (.start server world []) es = some w) :
    ∃ cs, ∃ c : Channel Update cfg.window,
      runs Channel.step (.make server.updates server.forgotten server.bound) cs = some c ∧
        Represents w c ∧ c.rewinds = es.countP BotEvent.isRestart :=
  exists_channel h

/-- Two updates in a batch, one of them handed over again after a restart. -/
theorem channel_of_runs_interrupted : ∃ w,
    runs (BotState.step defaultPoll .strict) (.start Server.empty ⟨⟨[], by decide⟩, []⟩ [])
      interrupted = some w ∧
    ∃ cs, ∃ c : Channel Update defaultPoll.window,
      runs Channel.step (.make Server.empty.updates Server.empty.forgotten Server.empty.bound) cs =
        some c ∧ Represents w c ∧ c.rewinds = interrupted.countP BotEvent.isRestart := by
  have hrun : (runs (BotState.step defaultPoll .strict)
      (.start Server.empty ⟨⟨[], by decide⟩, []⟩ []) interrupted).isSome = true := by
    decide +kernel
  obtain ⟨w, hw⟩ := Option.isSome_iff_exists.mp hrun
  exact ⟨w, hw, channel_of_runs defaultPoll .strict Server.empty _ interrupted w hw⟩

/-- What was handed over since the first start, when the program was restarted
so many times. -/
structure HandedOver (cfg : PollConfig) (origin restarts : Nat) (w : BotState) : Prop where
  /-- every update up to the last one handed over was, -/
  complete : ∀ u ∈ (w.server.updates.take (w.began + w.handed.length)).drop origin,
    u.fields ∈ w.earlier ++ w.handed
  /-- and a restart repeats no more than the updates of one request -/
  bounded : origin + (w.earlier ++ w.handed).length ≤
    w.began + w.handed.length + cfg.limit.toInt.toNat * restarts

/-- **Repetition**: over any number of restarts, at most so many updates are
handed over more than once as requests of that number have room for. -/
theorem handedOver_of_runs (cfg : PollConfig) (mode : SqlMode) (server : Server) (world : World)
    (es : List BotEvent) (w : BotState)
    (h : runs (BotState.step cfg mode) (.start server world []) es = some w) :
    HandedOver cfg server.forgotten (es.countP BotEvent.isRestart) w := by
  obtain ⟨cs, c, hruns, ⟨hitems, -, hcursor, hdelivered⟩, hrewinds⟩ := exists_channel h
  have haccounts := Channel.accounts_of_runs (Channel.accounts_make _ _ _) hruns
  refine ⟨fun u hu => ?_, ?_⟩
  · rw [← hitems, ← hcursor] at hu
    rw [← hdelivered]
    exact List.mem_map_of_mem (haccounts.complete u hu)
  · have hbounded := haccounts.bounded
    rw [← hdelivered, List.length_map, ← hcursor, ← hrewinds]
    exact hbounded

theorem handedOver_of_runs_interrupted : ∃ w,
    runs (BotState.step defaultPoll .strict) (.start Server.empty ⟨⟨[], by decide⟩, []⟩ [])
      interrupted = some w ∧
    HandedOver defaultPoll Server.empty.forgotten (interrupted.countP BotEvent.isRestart) w := by
  have hrun : (runs (BotState.step defaultPoll .strict)
      (.start Server.empty ⟨⟨[], by decide⟩, []⟩ []) interrupted).isSome = true := by
    decide +kernel
  obtain ⟨w, hw⟩ := Option.isSome_iff_exists.mp hrun
  exact ⟨w, hw, handedOver_of_runs defaultPoll .strict Server.empty _ interrupted w hw⟩

end LearnWords
