import LearnWords.Bot.Progress

/-!
# LearnWords.Bot.Delivery

What the bot's users may rely on: their updates reach `user_dialog` in order,
none is lost, and none is handed over twice while the program runs
(`delivered_of_runs`).

The offset of a request tells Telegram to forget the updates below it.  These
were handed over before (`handed_of_sent`), but nobody waits for their tasks
(`unfinished_of_sent`).
-/

namespace LearnWords

open Machine

variable {cfg : PollConfig} {mode : SqlMode}

/-- The id of an update, as it stands in its JSON object. -/
def updateId (update : Object) : Option Int64 := (ifContains update "update_id").bind ifInt64

/-- Updates are delivered as they should be; `origin` updates were forgotten
when the bot was started for the first time. -/
structure Delivered (cfg : PollConfig) (origin : Nat) (w : BotState) : Prop where
  /-- since the program was started, updates were handed over in the order of
  Telegram's sequence, without gaps -/
  inOrder : w.handed <+: w.sequence.map Update.fields
  /-- and none twice -/
  once : (w.handed.map updateId).Nodup
  /-- one `async_resume` is outstanding, and none after a failure -/
  resumes : w.resumes = if w.failed then 0 else 1
  /-- Telegram forgot only what was handed over -/
  forgot : (w.sequence.take (w.server.forgotten - w.began)).map Update.fields <+: w.handed
  /-- also before the program was started the last time -/
  kept : ∀ u ∈ (w.server.updates.take w.server.forgotten).drop origin,
    u.fields ∈ w.earlier ++ w.handed
  /-- and all but the last batch of it, which is all that a restart repeats -/
  repeated : w.began + w.handed.length ≤ w.server.forgotten + cfg.limit.toInt.toNat

/-! ## what was handed over -/

/-- What was handed over is a part of what was received. -/
theorem Progress.handed_received {w : BotState} {got left : List Update}
    (h : Progress cfg w got left) : w.handed <+: got.map Update.fields :=
  ⟨w.yielded ++ left.map Update.fields, by rw [← h.accounted, List.append_assoc]⟩

theorem Progress.handed_sequence {w : BotState} {got left : List Update}
    (h : Progress cfg w got left) : w.handed <+: w.sequence.map Update.fields :=
  h.handed_received.trans (h.received.map Update.fields)

/-- What Telegram forgot since the program was started was handed over. -/
theorem Progress.forgotten_handed {w : BotState} {got left : List Update}
    (h : Progress cfg w got left) :
    (w.sequence.take (w.server.forgotten - w.began)).map Update.fields <+: w.handed := by
  refine List.prefix_of_prefix_length_le ((List.take_prefix _ _).map Update.fields)
    h.handed_sequence ?_
  have hforgot := h.forgot
  rw [List.length_map, List.length_take]
  omega

@[simp] theorem updateId_fields (u : Update) : updateId u.fields = some u.id := by
  simp [updateId, u.hasId]

/-- Ids increase, so nothing is handed over twice. -/
theorem Progress.nodup_handed {w : BotState} {got left : List Update}
    (h : Progress cfg w got left) : (w.handed.map updateId).Nodup := by
  have hsorted : w.sequence.Pairwise fun u v => u.id < v.id :=
    w.server.sorted.sublist (List.drop_sublist _ _)
  have hdistinct : ((w.sequence.map Update.fields).map updateId).Nodup := by
    rw [List.map_map, List.Nodup, List.pairwise_map]
    refine hsorted.imp fun {u v} hlt => ?_
    simpa using Int64.ne_of_lt hlt
  exact hdistinct.sublist (h.handed_sequence.map updateId).sublist

/-- The outstanding `async_resume`. -/
theorem Standing.resumes_eq {w : BotState} {got left : List Update}
    (h : Standing cfg w got left) : w.resumes = if w.failed then 0 else 1 := by
  cases h with
  | suspended _ _ _ live resumes | sent _ _ _ _ live resumes
  | answered _ _ _ _ _ _ _ _ live resumes | raised _ _ _ _ _ live resumes =>
      simp [live, resumes]
  | ended _ _ _ _ dead resumes => simp [dead, resumes]

/-- What is below the offset past the updates received is one of them. -/
theorem mem_of_lt_nextId {w : BotState} {got : List Update} {o : Int64}
    (hsorted : w.server.updates.Pairwise fun u v => u.id < v.id) (hgot : got <+: w.sequence)
    (ho : nextId got = some o) {u : Update} (hu : u ∈ w.sequence) (hlt : u.id < o) : u ∈ got := by
  obtain ⟨post, hpost⟩ := hgot
  cases got using List.reverseRecOn with
  | nil => simp [nextId] at ho
  | append_singleton got last =>
      simp only [nextId, List.getLast?_concat, Option.map_some, Option.some.injEq] at ho
      subst ho
      rw [lt_succ_iff last.bounded] at hlt
      have hsequence : w.sequence.Pairwise fun u v => u.id < v.id :=
        hsorted.sublist (List.drop_sublist _ _)
      rw [← hpost, List.pairwise_append] at hsequence
      rw [← hpost, List.mem_append] at hu
      rcases hu with hu | hu
      · exact hu
      · -- what was not received yet has a larger id
        have habove : last.id < u.id := hsequence.2.2 last (by simp) u hu
        exact absurd hlt (Int64.not_le.mpr habove)

/-! ## over restarts -/

/-- What was forgotten when the program was started had been handed over
before. -/
structure Kept (origin : Nat) (w : BotState) : Prop where
  le : origin ≤ w.began
  kept : ∀ u ∈ (w.server.updates.take w.began).drop origin, u.fields ∈ w.earlier

/-- Then all that is forgotten was handed over. -/
theorem Kept.all {origin : Nat} {w : BotState} {got left : List Update} (hk : Kept origin w)
    (h : Progress cfg w got left) :
    ∀ u ∈ (w.server.updates.take w.server.forgotten).drop origin,
      u.fields ∈ w.earlier ++ w.handed := by
  intro u hu
  have hsplit : w.server.updates.take w.server.forgotten =
      w.server.updates.take w.began ++ w.sequence.take (w.server.forgotten - w.began) := by
    rw [BotState.sequence, ← List.take_add, Nat.add_sub_cancel' h.began]
  rw [hsplit, List.drop_append, List.mem_append] at hu
  rw [List.mem_append]
  rcases hu with hu | hu
  · exact .inl (hk.kept u hu)
  · have hmem := List.mem_of_mem_drop hu
    exact .inr (h.forgotten_handed.subset (List.mem_map_of_mem hmem))

/-- Once the sequence is handed over, so is all that arrived since the first
start. -/
theorem Kept.complete {origin : Nat} {w : BotState} {handed : List Object} (hk : Kept origin w)
    (h : w.sequence.map Update.fields <+: handed) :
    ∀ u ∈ w.server.updates.drop origin, u.fields ∈ w.earlier ++ handed := by
  intro u hu
  have hle : origin + (w.began - origin) = w.began := Nat.add_sub_of_le hk.le
  have hsplit : w.server.updates.drop origin =
      (w.server.updates.take w.began).drop origin ++ w.sequence := by
    have happend := List.drop_take_append_drop w.server.updates origin (w.began - origin)
    rw [hle] at happend
    rw [BotState.sequence, List.drop_take, happend]
  rw [hsplit, List.mem_append] at hu
  rw [List.mem_append]
  rcases hu with hu | hu
  · exact .inl (hk.kept u hu)
  · exact .inr (h.subset (List.mem_map_of_mem hu))

/-- Every event keeps it so: only a restart begins a new account, and adds what
was handed over to what was before. -/
theorem kept_step {origin : Nat} {w w' : BotState} {e : BotEvent} (hw : Steady cfg w)
    (hk : Kept origin w) (h : w.step cfg mode e = some w') : Kept origin w' := by
  obtain ⟨got, left, hp, -⟩ := hw
  cases BotState.change_of_step h with
  | arrive u hu =>
      refine ⟨hk.le, fun v hv => hk.kept v ?_⟩
      simp only [Server.arrive] at hv
      rwa [List.take_append_of_le_length (hp.began.trans w.server.bound)] at hv
  | goOn e r =>
      obtain ⟨hserver, hbegan, hearlier, -⟩ := BotState.goOn_frame w r
      refine ⟨hbegan ▸ hk.le, ?_⟩
      rw [hserver, hbegan, hearlier]
      exact hk.kept
  | serve n offset wire =>
      refine ⟨hk.le, ?_⟩
      simp only [updates_forget]
      exact hk.kept
  | onUpdate r hr => cases r <;> exact ⟨hk.le, hk.kept⟩
  | task e tasks htasks => exact ⟨hk.le, hk.kept⟩
  | restart => exact ⟨hk.le.trans hp.began, hk.all hp⟩

/-! ## runs -/

/-- A run of the bot from its first start, interrupted by restarts. -/
theorem steady_of_runs {server : Server} {world : World} {es : List BotEvent} {w : BotState}
    (h : runs (BotState.step cfg mode) (.start server world []) es = some w) :
    Steady cfg w ∧ Kept server.forgotten w := by
  have hstart : Kept server.forgotten (BotState.start server world []) :=
    ⟨le_rfl, fun u hu => by simp [BotState.start] at hu⟩
  exact runs_invariant (I := fun w => Steady cfg w ∧ Kept server.forgotten w)
    (fun _ _ _ hw hstep => ⟨steady_step hw.1 hstep, kept_step hw.1 hw.2 hstep⟩) h
    ⟨steady_start server world [], hstart⟩

/-- A bot in order delivers as it should. -/
theorem Steady.delivered {origin : Nat} {w : BotState} (hw : Steady cfg w) (hk : Kept origin w) :
    Delivered cfg origin w := by
  obtain ⟨got, left, hp, hst⟩ := hw
  have hlen : w.handed.length ≤ got.length := by
    have hle := hp.handed_received.length_le
    rwa [List.length_map] at hle
  have hlag := hp.lag
  exact ⟨hp.handed_sequence, hp.nodup_handed, hst.resumes_eq, hp.forgotten_handed, hk.all hp,
    by omega⟩

/-- **Delivery**: whatever arrives, however it is batched, whatever fails and
whenever the program is restarted, updates are handed over in order, without
loss, and without duplicates between two starts. -/
theorem delivered_of_runs (cfg : PollConfig) (mode : SqlMode) (server : Server) (world : World)
    (es : List BotEvent) (w : BotState)
    (h : runs (BotState.step cfg mode) (.start server world []) es = some w) :
    Delivered cfg server.forgotten w := by
  obtain ⟨hsteady, hkept⟩ := steady_of_runs h
  exact hsteady.delivered hkept

/-- `service::tg` polls with a timeout of 100 seconds, in batches of at most 100
updates, without a selection. -/
def defaultPoll : PollConfig := ⟨100, 100, fun _ => false⟩

/-- A queue nothing has arrived in. -/
def Server.empty : Server := ⟨[], 0, .nil, le_rfl⟩

/-- The command `/start` of user 7, as an update. -/
def startUpdate (id : Int64) (h : id < Int64.maxValue) : Update := ⟨id, startCommand id 7, rfl, h⟩

def firstUpdate : Update := startUpdate 1 (by decide)

def secondUpdate : Update := startUpdate 2 (by decide)

/-- Two updates in a batch, one of whose tasks fails, and a third one that a
restart interrupts. -/
def interrupted : List BotEvent :=
  [.arrive firstUpdate, .arrive secondUpdate, .resume, .serve 2,
    .receive, .onUpdate, .resume, .onUpdate, .task (.initiate 0),
    .task (.abort 0 (.systemError (.network 1))), .resume, .arrive (startUpdate 4 (by decide)),
    .serve 1, .receive, .restart, .resume, .serve 1, .receive, .onUpdate]

theorem delivered_interrupted :
    ∃ w, runs (BotState.step defaultPoll .strict)
        (.start Server.empty ⟨⟨[], by decide⟩, []⟩ []) interrupted = some w ∧
      Delivered defaultPoll Server.empty.forgotten w := by
  have hrun : (runs (BotState.step defaultPoll .strict)
      (.start Server.empty ⟨⟨[], by decide⟩, []⟩ []) interrupted).isSome = true := by
    decide +kernel
  obtain ⟨w, hw⟩ := Option.isSome_iff_exists.mp hrun
  exact ⟨w, hw, delivered_of_runs defaultPoll .strict Server.empty _ interrupted w hw⟩

/-- **Acknowledgement**: when a request with the offset `o` is on its way,
every update below `o` that was not forgotten when the program was started has
been handed over, and a task was spawned for it. -/
theorem handed_of_sent (cfg : PollConfig) (mode : SqlMode) (server : Server) (world : World)
    (es : List BotEvent) (w : BotState) (params : Object) (o : Int64)
    (h : runs (BotState.step cfg mode) (.start server world []) es = some w)
    (hwire : w.wire = .sent params) (ho : (ifContains params "offset").bind ifInt64 = some o) :
    ∀ u ∈ w.sequence, u.id < o → ∃ (i : Nat) (f : Fiber _ _ _), w.handed[i]? = some u.fields ∧
      w.tasks.fibers[i]? = some f ∧ Fiber.From (processUpdate u.fields) f := by
  obtain ⟨⟨got, left, hp, hst⟩, -⟩ := steady_of_runs h
  cases hst with
  | suspended _ _ wire | answered _ _ _ _ wire | raised _ _ _ _ wire | ended _ _ _ wire =>
      simp [hwire] at wire
  | sent phase spent completion wire live resumes =>
      subst spent
      rw [hwire, Wire.sent.injEq] at wire
      rw [wire, offset_getUpdatesParams, hp.offset] at ho
      intro u hu hlt
      have hmem : u ∈ got := mem_of_lt_nextId w.server.sorted hp.received ho hu hlt
      obtain ⟨i, hi, hget⟩ := List.getElem_of_mem hmem
      have hhanded : w.handed[i]? = some u.fields := by
        rw [(hp.length_handed completion).1, List.getElem?_map, List.getElem?_eq_getElem hi, hget]
        rfl
      have hspawned : (w.handed.map processUpdate)[i]? = some (processUpdate u.fields) := by
        rw [List.getElem?_map, hhanded]
        rfl
      obtain ⟨f, hf, hfrom, -⟩ := Pool.forall₂_set hp.tasks.flip hspawned
      exact ⟨i, f, hhanded, hf, hfrom⟩

/-- One update, handed over; the next request is on its way. -/
def acknowledged : List BotEvent :=
  [.arrive firstUpdate, .resume, .serve 1, .receive, .onUpdate, .resume]

/-- The request after the update acknowledges it, while its task has not even
read the user's state. -/
theorem unfinished_of_sent : ¬ ∀ cfg mode server world es w params o,
    runs (BotState.step cfg mode) (.start server world []) es = some w →
    w.wire = .sent params → (ifContains params "offset").bind ifInt64 = some o →
    ∀ u ∈ w.sequence, u.id < o → ∀ (i : Nat) (f : Fiber _ _ _), w.handed[i]? = some u.fields →
      w.tasks.fibers[i]? = some f → f.finished = true := by
  intro hall
  have hmem := List.mem_singleton_self firstUpdate
  have hfinished := hall defaultPoll .strict Server.empty ⟨⟨[], by decide⟩, []⟩ acknowledged _ _ 2
    rfl rfl rfl firstUpdate hmem (by decide) 0
    (.ready (processUpdate (startCommand 1 7))) rfl rfl
  exact absurd hfinished (by decide)

/-- The task of the acknowledged update, when the next request is sent. -/
theorem handed_of_sent_one : ∃ (w : BotState) (params : Object),
    runs (BotState.step defaultPoll .strict)
      (.start Server.empty ⟨⟨[], by decide⟩, []⟩ []) acknowledged = some w ∧
    w.wire = .sent params ∧ (ifContains params "offset").bind ifInt64 = some 2 ∧
    ∀ u ∈ w.sequence, u.id < 2 → ∃ (i : Nat) (f : Fiber _ _ _), w.handed[i]? = some u.fields ∧
      w.tasks.fibers[i]? = some f ∧ Fiber.From (processUpdate u.fields) f :=
  ⟨_, _, rfl, rfl, rfl, handed_of_sent defaultPoll .strict Server.empty ⟨⟨[], by decide⟩, []⟩
    acknowledged _ _ 2 rfl rfl rfl⟩

end LearnWords
