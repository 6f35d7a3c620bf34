import LearnWords.LongPolling

/-!
# LearnWords.Bot

The bot at work: Telegram's queue of updates, the long poll that fetches them,
`user_dialog::on_update`, to which they are handed over, and the
`process_update` tasks it spawns.

`BotState.step` is one event of one of these parties; they take turns in any order.
Telegram forgets the updates below the offset of a request when it serves it.
The program may stop at any time and be started again: what is in flight is
gone then, and so are the tasks, while Telegram's queue and the database stay.
-/

namespace LearnWords

open Machine

/-! ## Telegram's queue -/

/-- An update; its other fields are arbitrary. -/
structure Update where
  id : Int64
  fields : Object
  hasId : ifContains fields "update_id" = some (.int64 id)
  bounded : id < Int64.maxValue

/-- The updates that ever arrived, of which the first `forgotten` are gone. -/
structure Server where
  updates : List Update
  forgotten : Nat
  sorted : updates.Pairwise fun u v => u.id < v.id
  bound : forgotten ≤ updates.length

namespace Server

/-- The updates still there. -/
def held (s : Server) : List Update := s.updates.drop s.forgotten

/-- A new update arrives, with a larger id. -/
def arrive (s : Server) (u : Update) (h : ∀ v ∈ s.updates, v.id < u.id) : Server where
  updates := s.updates ++ [u]
  forgotten := s.forgotten
  sorted := by
    rw [List.pairwise_append]
    exact ⟨s.sorted, List.pairwise_singleton _ _, fun v hv w hw => by
      rw [List.mem_singleton.mp hw]; exact h v hv⟩
  bound := by
    rw [List.length_append]
    exact Nat.le_add_right_of_le s.bound

/-- The updates with an id below `o`. -/
def below (s : Server) (o : Int64) : List Update := s.updates.takeWhile fun u => u.id < o

/-- Forget the updates below the offset of a request. -/
def forget (s : Server) : Option Int64 → Server
  | none => s
  | some o => { s with
      forgotten := max s.forgotten (s.below o).length
      bound := max_le s.bound (List.takeWhile_sublist _).length_le }

end Server

/-! ## the bot -/

/-- A request of the long poll on its way. -/
inductive Wire where
  | idle
  /-- not served yet -/
  | sent (params : Object)
  /-- served, with these updates -/
  | answered (batch : List Update)

/-- The parties of the bot. -/
structure BotState where
  server : Server
  wire : Wire
  poll : LongPolling
  /-- what the outstanding `async_resume` is about to complete with -/
  completion : Option (Except Exn Object)
  /-- how many `async_resume` are outstanding -/
  resumes : Nat
  /-- a failure was delivered -/
  failed : Bool
  /-- the updates handed over to `on_update` since the program was started -/
  handed : List Object
  /-- how many updates were forgotten when it was started -/
  began : Nat
  /-- the updates handed over before it was started -/
  earlier : List Object
  /-- the tasks over the database -/
  tasks : DialogPool

/-- A step of a `process_update` task. -/
inductive TaskEvent where
  | initiate (i : Nat)
  | complete (i : Nat)
  | abort (i : Nat) (e : Exn)
  | lose (i : Nat) (e : Exn)

/-- An event of one of the parties. -/
inductive BotEvent where
  /-- a user writes to the bot -/
  | arrive (u : Update)
  /-- the coroutine goes on after a `co_yield` -/
  | resume
  /-- Telegram serves the request with `n` updates -/
  | serve (n : Nat)
  /-- the response arrives, and the coroutine goes on -/
  | receive
  /-- the request fails -/
  | fail (ec : ErrorCode)
  /-- Telegram answers with an error -/
  | refuse (err : ProtoError)
  /-- the handler of `async_resume` is invoked -/
  | onUpdate
  | task (e : TaskEvent)
  /-- the program stops, and is started again -/
  | restart

/-- The event of the pool of tasks. -/
def TaskEvent.toPool : TaskEvent → PoolEvent DialogOp DialogOp.Res Exn
  | initiate i => .initiate i
  | complete i => .complete i
  | abort i e => .abort i e
  | lose i e => .lose i e

/-- The body of a response to a successful request. -/
def okResponse (result : Value) : Value := .object [("ok", .bool true), ("result", result)]

/-- The result of a request whose response has the body `v`. -/
def requestResult (v : Value) : Except ErrorCode ProcessedResult :=
  (processResponse v).mapError .json

/-- An update as it stands in a response. -/
def Update.toValue (u : Update) : Value := .object u.fields

namespace BotState

/-- The program is started: `user_dialog::async_init` asks for the first
update. -/
def start (server : Server) (world : World) (earlier : List Object) : BotState where
  server := server
  wire := .idle
  poll := .make
  completion := none
  resumes := 1
  failed := false
  handed := []
  began := server.forgotten
  earlier := earlier
  tasks := ⟨world, []⟩

/-- The coroutine came to `r`. -/
def goOn (w : BotState) (r : LongPolling × PollOutput) : BotState :=
  match r with
  | (poll, .request params) => { w with poll := poll, wire := .sent params }
  | (poll, .yields update) => { w with poll := poll, wire := .idle, completion := some (.ok update) }
  | (poll, .raises e) => { w with poll := poll, wire := .idle, completion := some (.error e) }

/-- `user_dialog::on_update`. -/
def onUpdate (w : BotState) : Except Exn Object → BotState
  | .error _ => { w with completion := none, resumes := w.resumes - 1, failed := true }
  | .ok update => { w with
      completion := none
      -- this one has completed, and the next one begins
      resumes := w.resumes - 1 + 1
      handed := w.handed ++ [update]
      tasks := { w.tasks with fibers := w.tasks.fibers ++ [.ready (processUpdate update)] } }

/-- One event. -/
def step (cfg : PollConfig) (mode : SqlMode) (w : BotState) : BotEvent → Option BotState
  | .arrive u =>
      if h : ∀ v ∈ w.server.updates, v.id < u.id then
        some { w with server := w.server.arrive u h }
      else none
  | .resume =>
      match w.completion with
      | some _ => none
      | none => if w.resumes = 0 then none else (w.poll.resume cfg).map w.goOn
  | .serve n =>
      match w.wire with
      | .sent params =>
          let server := w.server.forget ((ifContains params "offset").bind ifInt64)
          match (ifContains params "limit").bind ifInt64 with
          | some limit =>
              if (n : Int) ≤ limit.toInt then
                some { w with server := server, wire := .answered (server.held.take n) }
              else none
          | none => none
      | _ => none
  | .receive =>
      match w.wire with
      | .answered batch =>
          some (w.goOn (w.poll.onResponse cfg
            (requestResult (okResponse (.array (batch.map Update.toValue))))))
      | _ => none
  | .fail ec =>
      match w.wire with
      | .idle => none
      | _ => some (w.goOn (w.poll.onResponse cfg (.error ec)))
  | .refuse err =>
      match w.wire with
      | .idle => none
      | _ => some (w.goOn (w.poll.onResponse cfg (.ok (.error err))))
  | .onUpdate => w.completion.map w.onUpdate
  | .task e =>
      (Pool.step (handler mode) w.tasks e.toPool).map fun tasks => { w with tasks := tasks }
  | .restart => some (start w.server w.tasks.world (w.earlier ++ w.handed))

/-- The server's sequence from the first update not forgotten when the program
was started. -/
def sequence (w : BotState) : List Update := w.server.updates.drop w.began

/-! ## what an event can do -/

variable {cfg : PollConfig} {mode : SqlMode} {w w' : BotState}

theorem step_arrive {u : Update} (h : w.step cfg mode (.arrive u) = some w') :
    ∃ hu : ∀ v ∈ w.server.updates, v.id < u.id, w' = { w with server := w.server.arrive u hu } := by
  simp only [step] at h
  split at h
  · next hu => exact ⟨hu, (Option.some.inj h).symm⟩
  · contradiction

theorem step_resume (h : w.step cfg mode .resume = some w') :
    ∃ r, w.completion = none ∧ w.resumes ≠ 0 ∧ w.poll.resume cfg = some r ∧ w' = w.goOn r := by
  simp only [step] at h
  split at h
  · contradiction
  · next hcompletion =>
      split at h
      · contradiction
      · next hresumes =>
          obtain ⟨r, hr, hw'⟩ := Option.map_eq_some_iff.mp h
          exact ⟨r, hcompletion, hresumes, hr, hw'.symm⟩

theorem step_serve {n : Nat} (h : w.step cfg mode (.serve n) = some w') :
    ∃ params limit server, w.wire = .sent params ∧
      (ifContains params "limit").bind ifInt64 = some limit ∧ (n : Int) ≤ limit.toInt ∧
      server = w.server.forget ((ifContains params "offset").bind ifInt64) ∧
      w' = { w with server := server, wire := .answered (server.held.take n) } := by
  simp only [step] at h
  split at h
  · next params hwire =>
      split at h
      · next limit hlimit =>
          split at h
          · next hn => exact ⟨params, limit, _, hwire, hlimit, hn, rfl, (Option.some.inj h).symm⟩
          · contradiction
      · contradiction
  · contradiction

theorem step_receive (h : w.step cfg mode .receive = some w') :
    ∃ batch, w.wire = .answered batch ∧ w' = w.goOn (w.poll.onResponse cfg
      (requestResult (okResponse (.array (batch.map Update.toValue))))) := by
  simp only [step] at h
  split at h
  · next batch hwire => exact ⟨batch, hwire, (Option.some.inj h).symm⟩
  · contradiction

theorem step_fail {ec : ErrorCode} (h : w.step cfg mode (.fail ec) = some w') :
    w.wire ≠ .idle ∧ w' = w.goOn (⟨w.poll.offset, .finished⟩, .raises (.systemError ec)) := by
  simp only [step] at h
  split at h
  · contradiction
  · next hwire => exact ⟨hwire, (Option.some.inj h).symm⟩

theorem step_refuse {err : ProtoError} (h : w.step cfg mode (.refuse err) = some w') :
    w.wire ≠ .idle ∧ w' = w.goOn (⟨w.poll.offset, .finished⟩, .raises (.telegram err)) := by
  simp only [step] at h
  split at h
  · contradiction
  · next hwire => exact ⟨hwire, (Option.some.inj h).symm⟩

theorem step_onUpdate (h : w.step cfg mode .onUpdate = some w') :
    ∃ r, w.completion = some r ∧ w' = w.onUpdate r := by
  obtain ⟨r, hr, hw'⟩ := Option.map_eq_some_iff.mp h
  exact ⟨r, hr, hw'.symm⟩

theorem step_task {e : TaskEvent} (h : w.step cfg mode (.task e) = some w') :
    ∃ tasks, Pool.step (handler mode) w.tasks e.toPool = some tasks ∧
      w' = { w with tasks := tasks } := by
  obtain ⟨tasks, htasks, hw'⟩ := Option.map_eq_some_iff.mp h
  exact ⟨tasks, htasks, hw'.symm⟩

/-- The parts of the bot an event changes. -/
inductive Change (mode : SqlMode) (w : BotState) : BotEvent → BotState → Prop
  | arrive (u : Update) (hu : ∀ v ∈ w.server.updates, v.id < u.id) :
      Change mode w (.arrive u) { w with server := w.server.arrive u hu }
  | goOn (e : BotEvent) (r : LongPolling × PollOutput) : Change mode w e (w.goOn r)
  | serve (n : Nat) (offset : Option Int64) (wire : Wire) :
      Change mode w (.serve n) { w with server := w.server.forget offset, wire := wire }
  | onUpdate (r : Except Exn Object) (hr : w.completion = some r) :
      Change mode w .onUpdate (w.onUpdate r)
  | task (e : TaskEvent) (tasks : DialogPool)
      (h : Pool.step (handler mode) w.tasks e.toPool = some tasks) :
      Change mode w (.task e) { w with tasks := tasks }
  | restart : Change mode w .restart (start w.server w.tasks.world (w.earlier ++ w.handed))

theorem change_of_step {e : BotEvent} (h : w.step cfg mode e = some w') : Change mode w e w' := by
  cases e with
  | arrive u =>
      obtain ⟨hu, rfl⟩ := step_arrive h
      exact .arrive u hu
  | resume =>
      obtain ⟨r, -, -, -, rfl⟩ := step_resume h
      exact .goOn _ r
  | serve n =>
      obtain ⟨params, limit, server, -, -, -, rfl, rfl⟩ := step_serve h
      exact .serve n _ _
  | receive =>
      obtain ⟨batch, -, rfl⟩ := step_receive h
      exact .goOn _ _
  | fail ec =>
      obtain ⟨-, rfl⟩ := step_fail h
      exact .goOn _ _
  | refuse err =>
      obtain ⟨-, rfl⟩ := step_refuse h
      exact .goOn _ _
  | onUpdate =>
      obtain ⟨r, hr, rfl⟩ := step_onUpdate h
      exact .onUpdate r hr
  | task e =>
      obtain ⟨tasks, htasks, rfl⟩ := step_task h
      exact .task e tasks htasks
  | restart =>
      cases h
      exact .restart

/-- The coroutine touches neither Telegram's queue, nor what was handed over,
nor the tasks. -/
theorem goOn_frame (w : BotState) (r : LongPolling × PollOutput) :
    (w.goOn r).server = w.server ∧ (w.goOn r).began = w.began ∧
      (w.goOn r).earlier = w.earlier ∧ (w.goOn r).tasks = w.tasks := by
  obtain ⟨poll, output⟩ := r
  cases output <;> exact ⟨rfl, rfl, rfl, rfl⟩

end BotState

end LearnWords
