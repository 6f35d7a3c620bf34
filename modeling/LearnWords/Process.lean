import LearnWords.Application
import LearnWords.Bot.Delivery
import LearnWords.Inventory

/-!
# LearnWords.Process

The whole program among the parties it talks to: `main`, the event loop in
which the services come up one after the other and the bot then works, and the
program being killed and started again.

`Running` is what a program has in its event loop.  An event of the inventory
calls services and posts handlers; what it does is read off the entries it adds
to the inventory's log (`Running.onInventory`).  `Process.step` is one event of
the program, of the operating system or of one of the other parties.

What Telegram and the database keep outlives the program.
-/

namespace LearnWords

open Machine Coro

/-! ## the event loop -/

/-- A handler that was posted. -/
inductive Handler where
  /-- the one a service was given, with which the `initializer` goes on -/
  | initDone (ep : Option StartError)
  /-- `application::on_init` -/
  | onInit (ep : Option StartError)

/-- A program in its event loop. -/
structure Running where
  params : ConnectParams
  inventory : Inventory StartError
  /-- what the service that is being initialized has spawned -/
  coroutine : Option (Start Unit)
  posted : List Handler
  /-- `async_resume` was called -/
  polling : Bool
  /-- how often `inventory::reload` was called -/
  reloads : Nat

namespace Running

/-- One of the things the `async_init` of a service does. -/
def act (r : Running) : InitAction → Running
  | .asyncConnect => { r with coroutine := some (rethrow asyncConnect) }
  | .connectDatabase => { r with coroutine := some (initializeDb r.params) }
  | .asyncResume => { r with polling := true }
  | .postCallback => { r with posted := r.posted ++ [.initDone none] }

/-- The `async_init` of the service at an address. -/
def initActions (r : Running) (a : Nat) : List InitAction :=
  ((r.inventory.services.get? (some a)).bind fun n => n.val.asyncInit).getD []

/-- Do what the inventory did. -/
def perform (r : Running) : Entry StartError → Running
  | .asyncInit a => (r.initActions a).foldl act r
  | .initPosted ep => { r with posted := r.posted ++ [.onInit ep] }
  | _ => r

/-- An event of the inventory, with what it does to the services. -/
def onInventory (r : Running) (e : InventoryEvent StartError) : Option Running :=
  (r.inventory.step e).map fun inventory =>
    (inventory.log.drop r.inventory.log.length).foldl perform { r with inventory := inventory }

/-- `application::run` calls `async_init` and enters the loop. -/
def enter (params : ConnectParams) : Option Running :=
  onInventory ⟨params, .make makeInventory, none, [], false, 0⟩ .asyncInit

/-- `application::on_init`, without an exception. -/
def onInit (r : Running) : Option Running :=
  { r with reloads := r.reloads + 1 }.onInventory .reload

/-- Is there anything the loop waits for? -/
def hasWork (r : Running) (bot : BotState) : Bool :=
  r.coroutine.isSome || !r.posted.isEmpty ||
    r.polling && (bot.resumes != 0 || bot.tasks.fibers.any fun f => !f.finished)

end Running

/-! ## the process -/

/-- The program. -/
inductive Program where
  /-- not started yet, or killed -/
  | absent
  | ended (e : Ending)
  | running (r : Running)

/-- The program and the parties it talks to. -/
structure Process where
  backend : Backend
  bot : BotState
  program : Program

/-- What `async_get_state` can read from a column that is not the program's. -/
inductive Misread where
  /-- a number above 255 -/
  | notUint8
  /-- no unsigned number at all -/
  | notUint64

/-- It throws then. -/
def Misread.thrown (lib : Platform) : Misread → Thrown
  | notUint8 => .code ⟨.inconsistentDb, "\x60state\x60 is not uint8"⟩
  | notUint64 => .std lib.badFieldAccess

/-- What happens. -/
inductive ProcessEvent where
  /-- `main` is called -/
  | start (env : Environment) (order : EvaluationOrder)
  | kill
  /-- a call of the start-up ends -/
  | reply (r : Reply StartError)
  /-- the coroutine a service spawned has ended, and its handler is invoked -/
  | completed
  /-- the handler that was posted first is invoked -/
  | posted
  /-- an event of the bot, or of Telegram -/
  | bot (e : BotEvent)
  /-- task `i` reads a state that is not a byte -/
  | misread (i : Nat) (m : Misread)
  /-- nothing is left to do, and the loop ends -/
  | idle

/-- Does the event need the program? -/
def BotEvent.ofProgram : BotEvent → Bool
  | .arrive _ | .serve _ => false
  | _ => true

namespace Process

/-- A new program: it has no connections, and begins with no task and no request. -/
def launch (lib : Platform) (p : Process) (env : Environment) (order : EvaluationOrder) :
    Option Process :=
  let q : Process := { p with
    backend := p.backend.disconnect
    bot := .start p.bot.server p.bot.tasks.world (p.bot.earlier ++ p.bot.handed) }
  match startUp lib env order with
  | .error e => some { q with program := .ended e }
  | .ok params => (Running.enter params).map fun r => { q with program := .running r }

/-- An exception leaves the event loop. -/
def leave (p : Process) (ex : Thrown) : Process := { p with program := .ended (.ofThrown ex) }

/-- The handler that was posted first. -/
def invoke (lib : Platform) (p : Process) (r : Running) : Handler → Option Process
  | .initDone ep =>
      (r.onInventory (.initDone 0 ep)).map fun r' => { p with program := .running r' }
  | .onInit none => r.onInit.map fun r' => { p with program := .running r' }
  | .onInit (some e) => some (p.leave (.std (lib.startWhat e)))

/-- An event of the bot; what the poll raises, `on_update` throws. -/
def botStep (lib : Platform) (mode : SqlMode) (p : Process) (e : BotEvent) : Option Process :=
  (p.bot.step defaultPoll mode e).map fun bot =>
    match e, p.bot.completion with
    | .onUpdate, some (.error ex) => { p with bot := bot }.leave (.std (ex.what lib))
    | _, _ => { p with bot := bot }

/-- Does task `i` wait for a state that need not be a byte? -/
def misreads (p : Process) (i : Nat) : Bool :=
  match p.bot.tasks.fibers[i]? with
  | some (.waiting (.getState _) _) => !p.backend.mysql.statesAreBytes
  | _ => false

/-- One event. -/
def step (lib : Platform) (mode : SqlMode) (p : Process) (e : ProcessEvent) : Option Process :=
  match p.program, e with
  | .running _, .start _ _ => none
  | _, .start env order => p.launch lib env order
  | .running _, .kill => some { p with program := .absent }
  | .running r, .reply reply =>
      r.coroutine.bind fun coro =>
        (callStep Backend.serve (coro, p.backend) reply).map fun x =>
          { p with backend := x.2, program := .running { r with coroutine := some x.1 } }
  | .running r, .completed =>
      match r.coroutine with
      | some (.ret _) =>
          ({ r with coroutine := none }.onInventory (.initDone 0 none)).map fun r' =>
            { p with program := .running r' }
      | some (.raise e) =>
          ({ r with coroutine := none }.onInventory (.initDone 0 (some e))).map fun r' =>
            { p with program := .running r' }
      | _ => none
  | .running r, .posted =>
      match r.posted with
      | [] => none
      | h :: hs => p.invoke lib { r with posted := hs } h
  | .running r, .idle =>
      if r.hasWork p.bot then none else some { p with program := .ended (.exits .ok none) }
  | _, .bot .restart => none
  | .running r, .bot e => if !e.ofProgram || r.polling then p.botStep lib mode e else none
  | _, .bot e => if e.ofProgram then none else p.botStep lib mode e
  -- the exception is not the task's: it is thrown by the coroutine of the call
  | .running _, .misread i m => if p.misreads i then some (p.leave (m.thrown lib)) else none
  | _, _ => none

/-- What an event can do. -/
inductive Change (lib : Platform) (mode : SqlMode) (p : Process) : ProcessEvent → Process → Prop
  | start {env : Environment} {order : EvaluationOrder} {p' : Process}
      (stopped : ∀ r, p.program ≠ .running r) (launched : p.launch lib env order = some p') :
      Change lib mode p (.start env order) p'
  | kill {r : Running} (program : p.program = .running r) :
      Change lib mode p .kill { p with program := .absent }
  | reply {r : Running} {coro : Start Unit} {reply : Reply StartError} {x : Start Unit × Backend}
      (program : p.program = .running r) (coroutine : r.coroutine = some coro)
      (ended : callStep Backend.serve (coro, p.backend) reply = some x) :
      Change lib mode p (.reply reply)
        { p with backend := x.2, program := .running { r with coroutine := some x.1 } }
  | returned {r r' : Running} (program : p.program = .running r)
      (coroutine : r.coroutine = some (.ret ()))
      (invoked : { r with coroutine := none }.onInventory (.initDone 0 none) = some r') :
      Change lib mode p .completed { p with program := .running r' }
  | raised {r r' : Running} {e : StartError} (program : p.program = .running r)
      (coroutine : r.coroutine = some (.raise e))
      (invoked : { r with coroutine := none }.onInventory (.initDone 0 (some e)) = some r') :
      Change lib mode p .completed { p with program := .running r' }
  | posted {r : Running} {h : Handler} {hs : List Handler} {p' : Process}
      (program : p.program = .running r) (posted : r.posted = h :: hs)
      (invoked : p.invoke lib { r with posted := hs } h = some p') : Change lib mode p .posted p'
  | idle {r : Running} (program : p.program = .running r) (nothing : r.hasWork p.bot = false) :
      Change lib mode p .idle { p with program := .ended (.exits .ok none) }
  | bot {e : BotEvent} {p' : Process} (notRestart : e ≠ .restart)
      (polling : e.ofProgram = true → ∃ r, p.program = .running r ∧ r.polling = true)
      (stepped : p.botStep lib mode e = some p') : Change lib mode p (.bot e) p'
  | misread {r : Running} {i : Nat} {m : Misread} (program : p.program = .running r)
      (misreads : p.misreads i = true) : Change lib mode p (.misread i m) (p.leave (m.thrown lib))

variable {lib : Platform} {mode : SqlMode} {p p' : Process}

theorem change_of_step {e : ProcessEvent} (h : p.step lib mode e = some p') :
    Change lib mode p e p' := by
  cases e with
  | start env order =>
      cases hprogram : p.program with
      | running r => simp [step, hprogram] at h
      | absent | ended => exact .start (by simp [hprogram]) (by simpa [step, hprogram] using h)
  | kill =>
      cases hprogram : p.program with
      | running r =>
          simp only [step, hprogram, Option.some.injEq] at h
          exact h ▸ .kill hprogram
      | absent | ended => simp [step, hprogram] at h
  | reply reply =>
      cases hprogram : p.program with
      | running r =>
          simp only [step, hprogram] at h
          obtain ⟨coro, hcoro, hmap⟩ := Option.bind_eq_some_iff.mp h
          obtain ⟨x, hx, rfl⟩ := Option.map_eq_some_iff.mp hmap
          exact .reply hprogram hcoro hx
      | absent | ended => simp [step, hprogram] at h
  | completed =>
      cases hprogram : p.program with
      | running r =>
          simp only [step, hprogram] at h
          split at h
          · next hcoro =>
              obtain ⟨r', hr', rfl⟩ := Option.map_eq_some_iff.mp h
              exact .returned hprogram hcoro hr'
          · next hcoro =>
              obtain ⟨r', hr', rfl⟩ := Option.map_eq_some_iff.mp h
              exact .raised hprogram hcoro hr'
          · contradiction
      | absent | ended => simp [step, hprogram] at h
  | posted =>
      cases hprogram : p.program with
      | running r =>
          simp only [step, hprogram] at h
          split at h
          · contradiction
          · next hposted => exact .posted hprogram hposted h
      | absent | ended => simp [step, hprogram] at h
  | idle =>
      cases hprogram : p.program with
      | running r =>
          simp only [step, hprogram] at h
          split at h
          · contradiction
          · next hwork =>
              cases h
              exact .idle hprogram (by simpa using hwork)
      | absent | ended => simp [step, hprogram] at h
  | bot e =>
      have hne : e ≠ .restart := by
        rintro rfl
        cases hprogram : p.program <;> simp [step, hprogram] at h
      cases hprogram : p.program with
      | running r =>
          have hstep : (if !e.ofProgram || r.polling then p.botStep lib mode e else none) =
              some p' := by
            cases e <;> simp_all [step]
          split at hstep
          · next hguard =>
              refine .bot hne (fun he => ⟨r, hprogram, ?_⟩) hstep
              simpa [he] using hguard
          · contradiction
      | absent | ended =>
          have hstep : (if e.ofProgram then none else p.botStep lib mode e) = some p' := by
            cases e <;> simp_all [step]
          split at hstep
          · contradiction
          · next hguard => exact .bot hne (fun he => absurd he hguard) hstep
  | misread i m =>
      cases hprogram : p.program with
      | running r =>
          simp only [step, hprogram] at h
          split at h
          · next hmisreads =>
              obtain rfl := Option.some.inj h
              exact .misread hprogram hmisreads
          · contradiction
      | absent | ended => simp [step, hprogram] at h

/-- An event of the bot changes nothing else, unless the poll's failure is
delivered. -/
theorem botStep_cases {e : BotEvent} (h : p.botStep lib mode e = some p') :
    p.bot.step defaultPoll mode e = some p'.bot ∧ p'.backend = p.backend ∧
      ((∃ ex, e = .onUpdate ∧ p.bot.completion = some (.error ex) ∧
          p'.program = .ended (.ofThrown (.std (ex.what lib)))) ∨
        ((∀ ex, e = .onUpdate → p.bot.completion ≠ some (.error ex)) ∧
          p'.program = p.program)) := by
  obtain ⟨bot, hbot, rfl⟩ := Option.map_eq_some_iff.mp h
  split
  · next ex hcompletion =>
      exact ⟨hbot, rfl, .inl ⟨ex, rfl, hcompletion, rfl⟩⟩
  · next hnot =>
      exact ⟨hbot, rfl, .inr ⟨fun ex he hcompletion => hnot ex he hcompletion, rfl⟩⟩

end Process

/-! ## the inventory of the application -/

/-- The inventory, its initializer standing at `begin_` and waiting for a
service. -/
def inventoryAt (begin_ : Iterator) (waiting : Option Nat) (log : List (Entry StartError)) :
    Inventory StartError :=
  ⟨makeInventory, .init, [⟨begin_, none, waiting⟩], [], log, false⟩

namespace Running

variable {r : Running} {begin_ : Iterator} {log : List (Entry StartError)}

theorem onInventory_eq {e : InventoryEvent StartError} {inventory : Inventory StartError}
    {entries : List (Entry StartError)} (h : r.inventory.step e = some inventory)
    (hlog : inventory.log = r.inventory.log ++ entries) :
    r.onInventory e = some (entries.foldl perform { r with inventory := inventory }) := by
  rw [onInventory, h, Option.map_some, hlog, List.drop_left]

/-- Entering the loop initializes `service::tg`. -/
theorem enter_eq (params : ConnectParams) : enter params =
    some ⟨params, inventoryAt (some 1) (some 0) [.asyncInit 0], some (rethrow asyncConnect), [],
      false, 0⟩ := rfl

/-- `service::db` is initialized when `service::tg` has been. -/
theorem initDone_tg (h : r.inventory = inventoryAt (some 1) (some 0) log) :
    r.onInventory (.initDone 0 none) = some { r with
      inventory := inventoryAt (some 2) (some 1) (log ++ [.initDone 0 none, .asyncInit 1])
      coroutine := some (initializeDb r.params) } := by
  have hstep : r.inventory.step (.initDone 0 none) =
      some (inventoryAt (some 2) (some 1) (log ++ [.initDone 0 none] ++ [.asyncInit 1])) := by
    rw [h]
    rfl
  rw [List.append_assoc] at hstep
  rw [onInventory_eq hstep (by rw [h]; rfl)]
  rfl

/-- `service::user_dialog` is initialized when `service::db` has been. -/
theorem initDone_db (h : r.inventory = inventoryAt (some 2) (some 1) log) :
    r.onInventory (.initDone 0 none) = some { r with
      inventory := inventoryAt none (some 2) (log ++ [.initDone 1 none, .asyncInit 2])
      polling := true
      posted := r.posted ++ [.initDone none] } := by
  have hstep : r.inventory.step (.initDone 0 none) =
      some (inventoryAt none (some 2) (log ++ [.initDone 1 none] ++ [.asyncInit 2])) := by
    rw [h]
    rfl
  rw [List.append_assoc] at hstep
  rw [onInventory_eq hstep (by rw [h]; rfl)]
  rfl

/-- `on_init` is posted when `service::user_dialog` has been initialized. -/
theorem initDone_userDialog (h : r.inventory = inventoryAt none (some 2) log) :
    r.onInventory (.initDone 0 none) = some { r with
      inventory := inventoryAt none none (log ++ [.initDone 2 none, .initPosted none])
      posted := r.posted ++ [.onInit none] } := by
  have hstep : r.inventory.step (.initDone 0 none) =
      some (inventoryAt none none (log ++ [.initDone 2 none] ++ [.initPosted none])) := by
    rw [h]
    rfl
  rw [List.append_assoc] at hstep
  rw [onInventory_eq hstep (by rw [h]; rfl)]
  rfl

/-- `on_init` is posted with the failure of a service that fails. -/
theorem initDone_error {a : Nat} (h : r.inventory = inventoryAt begin_ (some a) log)
    (ep : StartError) :
    r.onInventory (.initDone 0 (some ep)) = some { r with
      inventory := inventoryAt begin_ none (log ++ [.initDone a (some ep), .initPosted (some ep)])
      posted := r.posted ++ [.onInit (some ep)] } := by
  have hstep : r.inventory.step (.initDone 0 (some ep)) = some (inventoryAt begin_ none
      (log ++ [.initDone a (some ep)] ++ [.initPosted (some ep)])) := by
    rw [h]
    rfl
  rw [List.append_assoc] at hstep
  rw [onInventory_eq hstep (by rw [h]; rfl)]
  rfl

/-- No service of the application is reloadable. -/
theorem onInit_eq {waiting : Option Nat} (h : r.inventory = inventoryAt begin_ waiting log) :
    r.onInit = some { r with reloads := r.reloads + 1 } := by
  have hstep : r.inventory.step .reload = some r.inventory := by
    rw [h]
    show some (inventoryAt begin_ waiting (log ++ [])) = _
    rw [List.append_nil]
  rw [onInit, onInventory_eq (r := { r with reloads := r.reloads + 1 }) hstep
    (List.append_nil _).symm]
  rfl

end Running

end LearnWords
