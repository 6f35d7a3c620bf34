import LearnWords.Lib.Script
import LearnWords.Json
import LearnWords.Catalog

/-!
# LearnWords.Services

How the services of the application come up: `connection::async_connect`, which
`service::tg` starts, and `initialize_db`, which `service::db` starts and which
ends with `database::async_init`.

Each is a script (`Coro.Script`).  The calls that fail are caught inside
`async_connect` and `async_init`, become an error code, and are raised again
where the completion is awaited (`Coro.rethrow_settle`).
-/

namespace LearnWords

open Machine

/-- What `async_resolve` finds. -/
abbrev Endpoints := List String

/-- `boost::mysql::any_address`; the code does not fill in a host and a port. -/
inductive MysqlAddress where
  | unixPath (path : Bytes)
  | hostAndPort
deriving DecidableEq

/-- `boost::mysql::ssl_mode`. -/
inductive SslMode where
  | disable
  | enable
  | require
deriving DecidableEq

/-- `boost::mysql::connect_params`. -/
structure ConnectParams where
  serverAddress : MysqlAddress
  username : Bytes
  password : Bytes
  ssl : SslMode
deriving DecidableEq

/-- The calls that are awaited while the services come up. -/
inductive StartOp where
  | resolve (host service : String)
  | connect (endpoints : Endpoints)
  | handshake
  | connectMysql (params : ConnectParams)
  | execute (q : SetupQuery)
  | prepare (q : PreparedQuery)

/-- What a call yields when it succeeds. -/
abbrev StartOp.Val : StartOp → Type
  | resolve _ _ => Endpoints
  | prepare _ => PreparedQuery
  | _ => Unit

/-- Why a call fails. -/
inductive StartError where
  | network (code : Nat)
  | mysql (e : MysqlError)
deriving DecidableEq

/-- `boost::asio::awaitable` over these calls. -/
abbrev Start (α : Type) := Coro.Fallible StartOp StartOp.Val StartError α

open Coro

/-- Await a call. -/
abbrev awaitStart (op : StartOp) : Start op.Val := attempt op

/-- `connection::async_connect`. -/
def asyncConnect : Start (Option StartError) :=
  settle do
    let endpoints ← awaitStart (.resolve "api.telegram.org" "443")
    awaitStart (.connect endpoints)
    awaitStart .handshake

/-- `database::async_init`. -/
def asyncInitDatabase : Start (Option StartError) :=
  settle do
    awaitStart (.execute .createDb)
    awaitStart (.execute .useDb)
    awaitStart (.execute .createSentences)
    awaitStart (.execute .createSettings)
    awaitStart (.execute .createUserData)
    let _getState ← awaitStart (.prepare .getState)
    let _setState ← awaitStart (.prepare .setState)
    let _addSentence ← awaitStart (.prepare .addSentence)
    return ()

/-- `initialize_db`. -/
def initializeDb (params : ConnectParams) : Start Unit := do
  awaitStart (.connectMysql params)
  rethrow asyncInitDatabase

/-! ## the servers -/

/-- The stream to Telegram. -/
inductive StreamState where
  | closed
  | connected
  | secured
deriving DecidableEq

/-- The parties that answer the calls. -/
structure Backend where
  endpoints : Endpoints
  stream : StreamState
  mysql : Mysql

namespace Backend

/-- A server refuses a statement. -/
def refuse {α : Type} (x : Except MysqlError α) : Except StartError α := x.mapError .mysql

/-- What a call is answered, and the parties after it. -/
def serve (b : Backend) : (op : StartOp) → Except StartError (op.Val × Backend)
  | .resolve _ _ => .ok (b.endpoints, b)
  | .connect _ => .ok ((), { b with stream := .connected })
  | .handshake =>
      match b.stream with
      | .closed => .error (.network 0)
      | _ => .ok ((), { b with stream := .secured })
  | .connectMysql _ => .ok ((), { b with mysql := b.mysql.connect })
  | .execute q => (refuse (b.mysql.execute q)).map fun m => ((), { b with mysql := m })
  | .prepare q => (refuse (b.mysql.prepare q)).map fun m => (q, { b with mysql := m })

/-- The connections of a program that stopped are gone. -/
def disconnect (b : Backend) : Backend :=
  { b with stream := .closed, mysql := b.mysql.disconnect }

end Backend

/-- A statement is served by the MySQL server. -/
theorem of_serve_execute {b b' : Backend} {q : SetupQuery} {v : Unit}
    (h : b.serve (.execute q) = .ok (v, b')) :
    ∃ m, b.mysql.execute q = .ok m ∧ b' = { b with mysql := m } := by
  cases hm : b.mysql.execute q with
  | error e => simp [Backend.serve, Backend.refuse, hm, Except.mapError, Except.map] at h
  | ok m =>
      simp only [Backend.serve, Backend.refuse, hm, Except.mapError, Except.map, Except.ok.injEq,
        Prod.mk.injEq] at h
      exact ⟨m, rfl, h.2.symm⟩

theorem of_serve_prepare {b b' : Backend} {q v : PreparedQuery}
    (h : b.serve (.prepare q) = .ok (v, b')) :
    ∃ m, b.mysql.prepare q = .ok m ∧ b' = { b with mysql := m } := by
  cases hm : b.mysql.prepare q with
  | error e => simp [Backend.serve, Backend.refuse, hm, Except.mapError, Except.map] at h
  | ok m =>
      simp only [Backend.serve, Backend.refuse, hm, Except.mapError, Except.map, Except.ok.injEq,
        Prod.mk.injEq] at h
      exact ⟨m, rfl, h.2.symm⟩

/-! ## the scripts -/

/-- The kinds of calls. -/
inductive StartKind where
  | resolve
  | connect
  | handshake
  | connectMysql
  | execute (q : SetupQuery)
  | prepare (q : PreparedQuery)
deriving DecidableEq

/-- The kind of a call. -/
def StartOp.kind : StartOp → StartKind
  | resolve _ _ => .resolve
  | connect _ => .connect
  | handshake => .handshake
  | connectMysql _ => .connectMysql
  | execute q => .execute q
  | prepare q => .prepare q

/-- The calls of `async_connect`. -/
def connectScript : List StartKind := [.resolve, .connect, .handshake]

/-- The calls of `async_init`. -/
def initScript : List StartKind :=
  [.execute .createDb, .execute .useDb, .execute .createSentences, .execute .createSettings,
    .execute .createUserData, .prepare .getState, .prepare .setState, .prepare .addSentence]

theorem script_asyncConnect : Script StartOp.kind connectScript (rethrow asyncConnect) := by
  rw [asyncConnect, rethrow_settle]
  exact .attempt_bind rfl fun _ => .attempt_bind rfl fun _ => script_attempt rfl

theorem script_initializeDb (params : ConnectParams) :
    Script StartOp.kind (.connectMysql :: initScript) (initializeDb params) := by
  rw [initializeDb, asyncInitDatabase, rethrow_settle]
  refine .attempt_bind rfl fun _ => .attempt_bind rfl fun _ => .attempt_bind rfl fun _ => .attempt_bind rfl fun _ =>
    .attempt_bind rfl fun _ => .attempt_bind rfl fun _ => .attempt_bind rfl fun _ => .attempt_bind rfl fun _ =>
      .attempt_bind rfl fun _ => .ret ()

/-! ## what a call needs, and what it makes -/

/-- The facts that calls depend on. -/
inductive StartFact where
  | connected
  | secured
  | db (f : DbFact)
deriving DecidableEq

/-- A fact holds of the parties. -/
def Backend.Has (b : Backend) : StartFact → Prop
  | .connected => b.stream ≠ .closed
  | .secured => b.stream = .secured
  | .db f => b.mysql.Has f

/-- What a call needs, what it makes, and what it does away with: a new
connection begins without encryption, and a new session has nothing selected or
prepared. -/
def startEffects : Effects StartKind StartFact where
  needs
    | .resolve | .connect | .connectMysql => []
    | .handshake => [.connected]
    | .execute q => q.needs.map .db
    | .prepare q => q.needs.map .db
  makes
    | .resolve => []
    | .connect => [.connected]
    | .handshake => [.secured]
    | .connectMysql => [.db .connected]
    | .execute q => q.makes.map .db
    | .prepare q => [.db (.prepared q)]
  breaks
    | .connect, .secured => true
    | .connectMysql, .db .selected => true
    | .connectMysql, .db (.prepared _) => true
    | _, _ => false

/-- What the servers answer has these effects. -/
theorem keeps : startEffects.Keeps Backend.serve StartOp.kind Backend.Has := by
  intro b op v b' h
  cases op with
  | resolve host service =>
      cases h
      exact ⟨fun f hf _ => hf, fun f hf => absurd hf List.not_mem_nil⟩
  | connect endpoints =>
      cases h
      refine ⟨fun f hf hbreaks => ?_, fun f hf => ?_⟩
      · cases f with
        | connected => simp [Backend.Has]
        | secured => simp [startEffects, StartOp.kind] at hbreaks
        | db f => exact hf
      · obtain rfl := List.mem_singleton.mp hf
        simp [Backend.Has]
  | handshake =>
      have hb' : b' = { b with stream := .secured } := by
        simp only [Backend.serve] at h
        split at h
        · contradiction
        · cases h
          rfl
      subst hb'
      refine ⟨fun f hf _ => ?_, fun f hf => ?_⟩
      · cases f with
        | connected => simp [Backend.Has]
        | secured => rfl
        | db f => exact hf
      · obtain rfl := List.mem_singleton.mp hf
        rfl
  | connectMysql params =>
      cases h
      refine ⟨fun f hf hbreaks => ?_, fun f hf => ?_⟩
      · cases f with
        | connected | secured => exact hf
        | db f =>
            cases f with
            | connected => rfl
            | selected | prepared => simp [startEffects, StartOp.kind] at hbreaks
            | granted | own | database | table => exact hf
      · obtain rfl := List.mem_singleton.mp hf
        rfl
  | execute q =>
      obtain ⟨m, hm, rfl⟩ := of_serve_execute h
      obtain ⟨-, hext, hmade⟩ := execute_spec hm
      refine ⟨fun f hf _ => ?_, fun f hf => ?_⟩
      · cases f with
        | connected | secured => exact hf
        | db f => exact hext f hf
      · obtain ⟨g, hg, rfl⟩ := List.mem_map.mp hf
        exact hmade g hg
  | prepare q =>
      obtain ⟨m, hm, rfl⟩ := of_serve_prepare h
      obtain ⟨-, hext, hmade⟩ := prepare_spec hm
      refine ⟨fun f hf _ => ?_, fun f hf => ?_⟩
      · cases f with
        | connected | secured => exact hf
        | db f => exact hext f hf
      · obtain rfl := List.mem_singleton.mp hf
        exact hmade

/-- A call that has what it needs is answered. -/
theorem accepts : startEffects.Accepts Backend.serve StartOp.kind Backend.Has := by
  intro b op hneeds
  cases op with
  | resolve | connect | connectMysql => exact ⟨_, rfl⟩
  | handshake =>
      have hconnected : b.stream ≠ .closed := hneeds .connected (List.mem_singleton_self _)
      cases hstream : b.stream with
      | closed => exact absurd hstream hconnected
      | connected | secured => exact ⟨((), { b with stream := .secured }), by simp [Backend.serve, hstream]⟩
  | execute q =>
      obtain ⟨m, hm⟩ : ∃ m, b.mysql.execute q = .ok m :=
        execute_accepts fun f hf => hneeds (.db f) (List.mem_map_of_mem hf)
      exact ⟨((), { b with mysql := m }),
        by simp [Backend.serve, Backend.refuse, hm, Except.mapError, Except.map]⟩
  | prepare q =>
      obtain ⟨m, hm⟩ : ∃ m, b.mysql.prepare q = .ok m :=
        prepare_accepts fun f hf => hneeds (.db f) (List.mem_map_of_mem hf)
      exact ⟨(q, { b with mysql := m }),
        by simp [Backend.serve, Backend.refuse, hm, Except.mapError, Except.map]⟩

/-- The server suits the program: its account may do what the statements take,
and the tables that exist under the names of the program's are its own. -/
structure Backend.Fit (b : Backend) : Prop where
  granted : b.mysql.Has .granted
  own : b.mysql.Has .own

/-- What makes a server fit. -/
def fitFacts : List StartFact := [.db .granted, .db .own]

theorem fit_iff {b : Backend} : b.Fit ↔ ∀ f ∈ fitFacts, b.Has f := by
  simp only [fitFacts, List.mem_cons, List.not_mem_nil, or_false, forall_eq_or_imp, forall_eq]
  exact ⟨fun h => ⟨h.granted, h.own⟩, fun h => ⟨h.1, h.2⟩⟩

theorem breaks_fitFacts {f : StartFact} (hf : f ∈ fitFacts) (c : StartKind) :
    startEffects.breaks c f = false := by
  simp only [fitFacts, List.mem_cons, List.not_mem_nil, or_false] at hf
  rcases hf with rfl | rfl <;> cases c <;> rfl

/-- Whatever becomes of its calls, the program leaves a fit server fit. -/
theorem callStep_fit {x y : Start Unit × Backend} {r : Reply StartError}
    (h : callStep Backend.serve x r = some y) (hfit : x.2.Fit) : y.2.Fit :=
  fit_iff.mpr fun f hf => callStep_keeps keeps (breaks_fitFacts hf) h (fit_iff.mp hfit f hf)

/-- So it is after the program has stopped. -/
theorem Backend.Fit.disconnect {b : Backend} (h : b.Fit) : b.disconnect.Fit := ⟨h.granted, h.own⟩

/-- The calls of `db::async_init` find what they need on a server that is fit. -/
theorem ordered_initScript : startEffects.Ordered fitFacts (.connectMysql :: initScript) := by decide

/-! ## the database, ready for use -/

/-- The program's statements are prepared, and the tables they are about exist. -/
structure Backend.Ready (b : Backend) : Prop where
  prepared : ∀ q, b.Has (.db (.prepared q))
  tables : ∀ t, b.Has (.db (.table t))

/-- No call drops anything. -/
theorem serve_within {b b' : Backend} {op : StartOp} {v : op.Val} (h : b.serve op = .ok (v, b')) :
    b.mysql.catalog.Within b'.mysql.catalog := by
  cases op with
  | resolve | connect | connectMysql =>
      cases h
      exact .refl _
  | handshake =>
      simp only [Backend.serve] at h
      split at h
      · contradiction
      · cases h
        exact .refl _
  | execute q =>
      obtain ⟨m, hm, rfl⟩ := of_serve_execute h
      exact (execute_spec hm).1
  | prepare q =>
      obtain ⟨m, hm, rfl⟩ := of_serve_prepare h
      rw [show ({ b with mysql := m } : Backend).mysql.catalog = b.mysql.catalog from
        (prepare_spec hm).1]
      exact .refl _

/-- Nor does a call that is refused or lost. -/
theorem callStep_within {x y : Start Unit × Backend} {r : Reply StartError}
    (h : callStep Backend.serve x r = some y) :
    x.2.mysql.catalog.Within y.2.mysql.catalog := by
  obtain ⟨p, b⟩ := x
  cases p with
  | ret | raise => simp [callStep] at h
  | call op k =>
      obtain rfl := Option.some.inj h
      rcases answer_cases Backend.serve b op r with hsame | ⟨v, hv⟩
      · simp only [hsame]
        exact .refl _
      · exact serve_within hv

/-! ## attempts -/

/-- What happens to attempts to initialise the database. -/
inductive AttemptEvent where
  /-- the call that is awaited ends -/
  | reply (r : Reply StartError)
  /-- the program stops, and is started again -/
  | restart

/-- One event. -/
def attemptStep (params : ConnectParams) (x : Start Unit × Backend) :
    AttemptEvent → Option (Start Unit × Backend)
  | .reply r => callStep Backend.serve x r
  | .restart => some (initializeDb params, x.2.disconnect)

/-- What `async_init` is for. -/
structure Initialises (params : ConnectParams) (b : Backend) (es : List AttemptEvent)
    (x : Start Unit × Backend) : Prop where
  /-- nothing that existed is gone -/
  within : b.mysql.catalog.Within x.2.mysql.catalog
  /-- success means that the database can be used -/
  ready : x.1 = .ret () → x.2.Ready
  /-- a server that is fit stays fit, -/
  fit : b.Fit → x.2.Fit
  /-- and refuses no statement: only a failure from outside ends an attempt, -/
  refusesNone : b.Fit → ∀ e, x.1 = .raise e →
    ∃ r, es.getLast? = some (.reply r) ∧ r.failure = some e
  /-- and the next attempt, undisturbed, succeeds -/
  again : b.Fit → ∃ b', runs (attemptStep params) x
    (.restart :: List.replicate 9 (.reply .served)) = some (.ret (), b') ∧ b'.Ready

/-- The facts left by the whole script. -/
theorem ready_of_afterAll {b : Backend} {available : List StartFact}
    (h : ∀ f ∈ startEffects.afterAll available (.connectMysql :: initScript), b.Has f) : b.Ready := by
  have hmade : startEffects.afterAll [] (.connectMysql :: initScript) ⊆
      startEffects.afterAll available (.connectMysql :: initScript) :=
    startEffects.afterAll_subset _ (List.nil_subset _)
  refine ⟨fun q => h _ (hmade ?_), fun t => h _ (hmade ?_)⟩
  · cases q <;> decide
  · cases t <;> decide

/-- Undisturbed, an attempt succeeds on a server that is fit, wherever the one
before it was cut off. -/
theorem initializeDb_completes (params : ConnectParams) {b : Backend} (hfit : b.Fit) :
    ∃ b', runs (callStep Backend.serve) (initializeDb params, b) (List.replicate 9 .served) =
      some (.ret (), b') ∧ b'.Ready := by
  obtain ⟨⟨⟩, b', hruns, hfacts⟩ := Script.completes keeps accepts ordered_initScript
    (script_initializeDb params) (fit_iff.mp hfit)
  exact ⟨b', hruns, ready_of_afterAll hfacts⟩

/-- Attempts leave a fit server fit. -/
theorem fit_of_attempts {params : ConnectParams} {x y : Start Unit × Backend}
    {es : List AttemptEvent} (h : runs (attemptStep params) x es = some y) (hfit : x.2.Fit) :
    y.2.Fit := by
  refine runs_invariant (I := fun z => z.2.Fit) ?_ h hfit
  intro z e z' hz hstep
  cases e with
  | reply r => exact callStep_fit hstep hz
  | restart =>
      cases hstep
      exact hz.disconnect

/-- The replies since the last restart are those of one attempt. -/
theorem exists_attempt {params : ConnectParams} {b : Backend} {es : List AttemptEvent}
    {x : Start Unit × Backend}
    (h : runs (attemptStep params) (initializeDb params, b) es = some x) :
    ∃ b₀ rs, runs (callStep Backend.serve) (initializeDb params, b₀) rs = some x ∧
      rs.map AttemptEvent.reply <:+ es ∧ (b.Fit → b₀.Fit) := by
  induction es using List.reverseRecOn generalizing x with
  | nil => exact ⟨b, [], h, List.nil_suffix, id⟩
  | append_singleton es e ih =>
      rw [runs_concat] at h
      obtain ⟨y, hy, hstep⟩ := Option.bind_eq_some_iff.mp h
      obtain ⟨b₀, rs, hruns, hsuffix, hfit⟩ := ih hy
      cases e with
      | reply r =>
          refine ⟨b₀, rs ++ [r], ?_, ?_, hfit⟩
          · rw [runs_concat, hruns, Option.bind_some]
            exact hstep
          · obtain ⟨pre, rfl⟩ := hsuffix
            exact ⟨pre, by simp⟩
      | restart =>
          refine ⟨y.2.disconnect, [], ?_, List.nil_suffix,
            fun hb => (fit_of_attempts hy hb).disconnect⟩
          rw [runs_nil]
          exact hstep

/-- Replies belong to the attempt under way. -/
theorem runs_reply (params : ConnectParams) (x : Start Unit × Backend)
    (rs : List (Reply StartError)) :
    runs (attemptStep params) x (rs.map .reply) = runs (callStep Backend.serve) x rs := by
  induction rs generalizing x with
  | nil => rfl
  | cons r rs ih =>
      simp only [List.map_cons, runs_cons, attemptStep, ih]

/-- **Initialisation of the database**: wherever attempts before were cut off, an
attempt drops nothing, and leaves the database ready when it succeeds; on a
server that is fit an outside failure only ends one, and the next one that is
undisturbed succeeds. -/
theorem initialises_of_runs (params : ConnectParams) (b : Backend) (es : List AttemptEvent)
    (x : Start Unit × Backend)
    (h : runs (attemptStep params) (initializeDb params, b) es = some x) :
    Initialises params b es x := by
  obtain ⟨b₀, rs, hruns, hsuffix, hb₀⟩ := exists_attempt h
  have hnone : ∀ f ∈ ([] : List StartFact), b₀.Has f := fun f hf => absurd hf List.not_mem_nil
  have hcases := Script.runs_cases keeps (script_initializeDb params) hnone hruns
  refine ⟨?_, fun hret => ?_, fun hfit => fit_of_attempts h hfit, fun hfit e hraise => ?_,
    fun hfit => ?_⟩
  · refine runs_invariant (I := fun y => b.mysql.catalog.Within y.2.mysql.catalog) ?_ h (.refl _)
    intro y e z hy hstep
    cases e with
    | reply r => exact hy.trans (callStep_within hstep)
    | restart =>
        cases hstep
        exact hy
  · rcases hcases with ⟨n, -, -, hscript, hfacts⟩ | ⟨n, r, e, -, -, hq, -⟩
    · -- nothing of the script is left
      rw [hret] at hscript
      rw [List.take_of_length_le (List.drop_eq_nil_iff.mp hscript.of_ret)] at hfacts
      exact ready_of_afterAll hfacts
    · rw [hret] at hq
      contradiction
  · have hordered := Script.runs_cases keeps (script_initializeDb params)
      (fit_iff.mp (hb₀ hfit)) hruns
    rcases hordered with ⟨n, -, -, hscript, -⟩ | ⟨n, r, e', hrs, -, hq, hfailure⟩
    · rw [hraise] at hscript
      exact absurd hscript not_script_raise
    · rw [hraise] at hq
      cases hq
      refine ⟨r, ?_, hfailure accepts ordered_initScript⟩
      obtain ⟨pre, rfl⟩ := hsuffix
      simp [hrs]
  · obtain ⟨b', hb', hready⟩ := initializeDb_completes params
      (fit_of_attempts h hfit).disconnect
    refine ⟨b', ?_, hready⟩
    rw [← List.map_replicate, runs_cons, attemptStep, Option.bind_some, runs_reply, hb']

/-- The database is created, the answer to `USE` is lost, and the program is
started again. -/
theorem initialises_of_runs_cutOff :
    Initialises ⟨.unixPath [47], [], [], .require⟩ ⟨[], .closed, ⟨.empty, fun _ => true, none⟩⟩
      [.reply .served, .reply .served, .reply (.lost (.network 104)), .restart]
      (initializeDb ⟨.unixPath [47], [], [], .require⟩,
        ⟨[], .closed, ⟨Catalog.empty.createDatabase, fun _ => true, none⟩⟩) :=
  initialises_of_runs _ _ _ _ rfl

end LearnWords
