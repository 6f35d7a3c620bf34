import LearnWords.Bot.Poll
import LearnWords.Bot.Replies
import LearnWords.Lib.Quiescence
import LearnWords.Lib.Sole

/-!
# LearnWords.Bot.Answers

Who is answered.

The task of a command answers it in its last call.  So of the updates handed
over since the program was started, those commands have been answered whose
tasks have returned (`Written`), each once.

And nobody has to wait in vain: from every state in which no request has failed
the bot, whose requests get their own responses, can hand over whatever has
arrived and bring all tasks to their ends.
No call fails on the way but a `set_state` that the database refuses, so every
command is answered whose user's byte is usable, unless its task had failed
before (`answers_of_runs`).
-/

namespace LearnWords

open Machine DialogState

variable {cfg : PollConfig} {mode : SqlMode}

/-! ## what the tasks have written -/

/-- The task of update `i` has written the message `ms[i]`, if any. -/
structure Written (t : Table) (before : List Object) (w : BotState) (ms : List (Option Object)) :
    Prop where
  /-- besides there are only answers to updates handed over before the program
  was started -/
  messages : ∃ old past messages, List.Forall₂ (Answers t) old past ∧ past.Subperm w.earlier ∧
    w.tasks.world.sent = before ++ messages ∧ messages.Perm (old ++ ms.reduceOption)
  length : ms.length = w.handed.length
  answers : ∀ (i : Nat) json update, ms[i]? = some (some json) → w.handed[i]? = some update →
    Answers t json update
  /-- the task of a command has answered it if it has returned -/
  returned : ∀ (i : Nat) update u, w.handed[i]? = some update → CommandOf u update →
    w.tasks.fibers[i]? = some (.ready (.ret ())) → ∃ json, ms[i]? = some (some json)

theorem InAccount.exists_written {t : Table} {before : List Object} {w : BotState}
    (h : InAccount t before w) : ∃ ms, Written t before w ms := by
  obtain ⟨qs, hfollows, haccount⟩ := h
  refine ⟨qs.map Tasked.written, haccount.written, ?_, fun i json update hi hu => ?_,
    fun i update u hu hcommand hf => ?_⟩
  · rw [← haccount.updates, List.length_map, List.length_map]
  · rw [List.getElem?_map] at hi
    obtain ⟨q, hq, hjson⟩ := Option.map_eq_some_iff.mp hi
    have hanswers := haccount.answers q (List.mem_of_getElem? hq) json hjson
    rwa [haccount.update_eq hq hu] at hanswers
  · obtain ⟨q, hq, hfollow, -⟩ := Pool.forall₂_set hfollows hf
    cases hfollow with
    | ready hp => cases hp with
      | ret hreturns =>
          have hsome := hreturns u (haccount.update_eq hq hu ▸ hcommand)
          obtain ⟨json, hjson⟩ := Option.isSome_iff_exists.mp hsome
          exact ⟨json, by rw [List.getElem?_map, hq, Option.map_some, hjson]⟩

/-! ## a task comes to its end -/

/-- Nothing arrives, no request fails, and no call but one the database
refuses. -/
def Calm (mode : SqlMode) (w : BotState) : BotEvent → Prop
  | .task e => Pool.Calm (handler mode) w.tasks e.toPool
  | e => e.isPoll = true

/-- A calm run of the tasks is one of the bot. -/
theorem calm_of_pool (cfg : PollConfig) {w : BotState} {tasks : DialogPool}
    {es : List (PoolEvent DialogOp DialogOp.Res Exn)}
    (h : Run (Pool.step (handler mode)) (Pool.Calm (handler mode)) w.tasks es tasks) :
    ∃ fs, Run (BotState.step cfg mode) (Calm mode) w fs { w with tasks := tasks } := by
  induction h with
  | start => exact ⟨[], .start⟩
  | @next es t u e before allowed taken ih =>
      obtain ⟨fs, hfs⟩ := ih
      obtain ⟨e', rfl⟩ : ∃ e' : TaskEvent, e'.toPool = e := by
        cases e with
        | spawn p | lose i e => exact allowed.elim
        | initiate i => exact ⟨.initiate i, rfl⟩
        | complete i => exact ⟨.complete i, rfl⟩
        | abort i e => exact ⟨.abort i e, rfl⟩
      have hstep : BotState.step cfg mode { w with tasks := t } (.task e') =
          some { w with tasks := u } := by
        simp only [BotState.step, taken, Option.map_some]
      have hcalm : Calm mode { w with tasks := t } (.task e') := allowed
      exact ⟨_, .next hfs hcalm hstep⟩

/-- A command of a user whose byte is usable. -/
def Answerable (t : Table) (update : Object) : Prop :=
  ∃ u, CommandOf u update ∧ u ≠ 0 ∧ decode (t.stateOf u) ≠ .error

/-- The database refuses none of its calls. -/
theorem exec_of_follows {t : Table} {q : Tasked} {p : Dialog Unit} {w : World}
    (h : p.Follows (taskProtocol t) q) (hanswerable : Answerable t q.update)
    (hrows : KeepsRows t w.table) : ∃ w', p.exec (handler mode) w = some (.ok (), w') := by
  induction h generalizing w with
  | ret hreturns a => exact ⟨w, rfl⟩
  | raise hraises e =>
      obtain ⟨u, hcommand, -⟩ := hanswerable
      exact absurd hcommand (hraises u)
  | call allowed goesOn ih =>
      cases allowed with
      | getState _ u =>
          rw [Coro.exec, handler_getState, Option.bind_some]
          exact ih _ (hrows.readableByte u) hanswerable hrows
      | setState hcommand hraw herror =>
          obtain ⟨u, hcommand', hne, husable⟩ := hanswerable
          obtain rfl := hcommand.eq hcommand'
          exact absurd (hraw hne ▸ herror) husable
      | sendMessage hanswers =>
          rw [Coro.exec, handler_sendMessage, Option.bind_some]
          exact ih () trivial hanswerable hrows

/-- Task `i` comes to its end, and returns if it is that of such a command and
has not failed. -/
theorem exists_end (cfg : PollConfig) {t : Table} {before : List Object} {w : BotState} {i : Nat}
    {f : Fiber DialogOp DialogOp.Res Exn} (hw : InAccount t before w)
    (hi : w.tasks.fibers[i]? = some f) :
    ∃ fs tasks q, Run (BotState.step cfg mode) (Calm mode) w fs { w with tasks := tasks } ∧
      tasks.fibers = w.tasks.fibers.set i (.ready q) ∧ q.finished = true ∧
      ∀ update, w.handed[i]? = some update → Answerable t update →
        (∀ e, f ≠ .ready (.raise e)) → q = .ret () := by
  have hend : Pool.RunsToEnd (handler mode) w.tasks i f.rest :=
    Pool.runsToEnd (.systemError (.sql .outOfRange)) hi
  obtain ⟨es, world, q, hrun, hq, hexec⟩ := hend
  obtain ⟨fs, hfs⟩ := calm_of_pool cfg hrun
  refine ⟨fs, _, q, hfs, rfl, hq, fun update hu hanswerable hraise => ?_⟩
  obtain ⟨qs, hfollows, haccount⟩ := hw
  obtain ⟨q', hq', hf, -⟩ := Pool.forall₂_set hfollows hi
  rw [← haccount.update_eq hq' hu] at hanswerable
  have hrest : Coro.Follows (taskProtocol t) q' f.rest := by
    cases hf with
    | ready hp => exact hp
    | waiting allowed goesOn => exact .call allowed goesOn
    | aborted => exact absurd rfl (hraise _)
  obtain ⟨w', hexec'⟩ := exec_of_follows hrest hanswerable haccount.rows
  exact (hexec _ _ hexec').1

/-! ## all tasks come to their ends -/

/-- The account is kept in a calm run, too. -/
theorem InAccount.run {t : Table} {before : List Object} {w w' : BotState} {es : List BotEvent}
    (hw : InAccount t before w) (h : Run (BotState.step cfg mode) (Calm mode) w es w') :
    InAccount t before w' :=
  h.invariant (fun _ _ _ hs _ hstep => inAccount_step hs hstep) hw

/-- Every update handed over has its task. -/
theorem InAccount.length_eq {t : Table} {before : List Object} {w : BotState}
    (h : InAccount t before w) : w.tasks.fibers.length = w.handed.length := by
  obtain ⟨qs, hfollows, haccount⟩ := h
  rw [← haccount.updates, List.length_map, hfollows.length_eq]

/-- The fiber `f` is what task `i` of the bot has become in the end. -/
structure EndsAs (t : Table) (w : BotState) (i : Nat) (f : Fiber DialogOp DialogOp.Res Exn) :
    Prop where
  finished : f.finished = true
  returned : ∀ update, w.handed[i]? = some update → Answerable t update →
    (∀ e, w.tasks.fibers[i]? ≠ some (.ready (.raise e))) → f = .ready (.ret ())

/-- One after the other, the first `n` tasks come to their ends. -/
theorem exists_ends (cfg : PollConfig) (mode : SqlMode) {t : Table} {before : List Object}
    {w : BotState} (hw : InAccount t before w) (n : Nat) :
    ∃ fs tasks, Run (BotState.step cfg mode) (Calm mode) w fs { w with tasks := tasks } ∧
      tasks.fibers.length = w.tasks.fibers.length ∧
      (∀ i, n ≤ i → tasks.fibers[i]? = w.tasks.fibers[i]?) ∧
      ∀ i f, i < n → tasks.fibers[i]? = some f → EndsAs t w i f := by
  induction n with
  | zero =>
      refine ⟨[], w.tasks, .start, rfl, fun _ _ => rfl, fun i f hi => ?_⟩
      exact absurd hi (Nat.not_lt_zero i)
  | succ n ih =>
      obtain ⟨fs, tasks, hrun, hlen, hlater, hends⟩ := ih
      cases hn : tasks.fibers[n]? with
      | none =>
          refine ⟨fs, tasks, hrun, hlen, fun i hi => hlater i (Nat.le_of_succ_le hi),
            fun i f hi hf => hends i f ?_ hf⟩
          have hlt := (List.getElem?_eq_some_iff.mp hf).1
          have hle := List.getElem?_eq_none_iff.mp hn
          omega
      | some f =>
          obtain ⟨gs, tasks', q, hrun', hfibers, hq, hreturns⟩ :=
            exists_end cfg (hw.run hrun) hn
          refine ⟨fs ++ gs, tasks', hrun.trans hrun', ?_, fun i hi => ?_, fun i f' hi hf' => ?_⟩
          · rw [hfibers, List.length_set]
            exact hlen
          · rw [hfibers, List.getElem?_set_ne (by omega)]
            exact hlater i (Nat.le_of_succ_le hi)
          · rw [hfibers] at hf'
            rcases getElem?_set_or hn hf' with ⟨rfl, rfl⟩ | ⟨hne, hf'⟩
            · refine ⟨hq, fun update hu hanswerable hraise => ?_⟩
              have hsame := hlater i le_rfl
              rw [hn] at hsame
              rw [hreturns update hu hanswerable fun e hf => hraise e (by rw [← hsame, hf])]
            · exact hends i f' (by omega) hf'

/-! ## everyone is answered -/

/-- Tasks were only added, those of the updates that were handed over. -/
def AddsTasks (w w' : BotState) : Prop :=
  ∃ new, w'.handed = w.handed ++ new ∧
    w'.tasks.fibers = w.tasks.fibers ++ new.map fun update => .ready (processUpdate update)

theorem AddsTasks.refl (w : BotState) : AddsTasks w w :=
  ⟨[], (List.append_nil _).symm, (List.append_nil _).symm⟩

theorem AddsTasks.trans {w v w' : BotState} (h : AddsTasks w v) (h' : AddsTasks v w') :
    AddsTasks w w' := by
  obtain ⟨new, hhanded, hfibers⟩ := h
  obtain ⟨new', hhanded', hfibers'⟩ := h'
  refine ⟨new ++ new', ?_, ?_⟩
  · rw [hhanded', hhanded, List.append_assoc]
  · rw [hfibers', hfibers, List.map_append, List.append_assoc]

/-- An event of the poll adds at most one. -/
theorem addsTasks_step {w w' : BotState} {e : BotEvent} (he : e.isPoll = true)
    (h : w.step cfg mode e = some w') : AddsTasks w w' := by
  cases BotState.change_of_step h with
  | goOn e r =>
      obtain ⟨poll, output⟩ := r
      cases output <;> exact .refl w
  | serve => exact .refl w
  | onUpdate r hr =>
      cases r with
      | error e => exact .refl w
      | ok update => exact ⟨[update], rfl, rfl⟩
  | arrive | task | restart => simp [BotEvent.isPoll] at he

/-- A task that was added has not raised, if it is that of a command. -/
theorem AddsTasks.raised {w w' : BotState} {i : Nat} {update : Object} {u : UInt64} {e : Exn}
    (h : AddsTasks w w') (hlen : w.tasks.fibers.length = w.handed.length)
    (hi : w'.handed[i]? = some update) (hcommand : CommandOf u update)
    (he : w'.tasks.fibers[i]? = some (.ready (.raise e))) :
    w.tasks.fibers[i]? = some (.ready (.raise e)) := by
  obtain ⟨new, hhanded, hfibers⟩ := h
  by_cases hlt : i < w.tasks.fibers.length
  · rwa [hfibers, List.getElem?_append_left hlt] at he
  · rw [hhanded, List.getElem?_append_right (by omega)] at hi
    rw [hfibers, List.getElem?_append_right (by omega), hlen, List.getElem?_map, hi,
      Option.map_some, Option.some.injEq] at he
    obtain ⟨cmd, hcmd⟩ := hcommand
    rw [hcmd, processCommand_eq] at he
    exact absurd (Fiber.ready.inj he) nofun

/-- Two commands of user 7, the first one of which is in the middle of its task. -/
def begun : List BotEvent :=
  [.arrive firstUpdate, .arrive secondUpdate, .resume, .serve 2, .receive, .onUpdate,
    .task (.initiate 0)]

end LearnWords
