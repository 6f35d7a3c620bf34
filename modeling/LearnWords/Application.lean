import LearnWords.Credentials
import LearnWords.Services
import LearnWords.UserDialog

/-!
# LearnWords.Application

`main` and `application`, up to the event loop: the exit codes, what the
constructor and `run` check, and how the services are made.

The arguments of `make_inventory` are evaluated in an order the language leaves
open; each of them reads a credential, and may raise.  `startUp` takes the order
as a parameter.
-/

namespace LearnWords

/-! ## exit codes -/

/-- `error::code`. -/
inductive Code where
  | ok
  | caughtException
  | badCmdlineOption
  | noCredentials
  | inconsistentDb
deriving DecidableEq

namespace Code

/-- `std::to_underlying`. -/
def toUnderlying : Code → Nat
  | ok => 0
  | caughtException => 1
  | badCmdlineOption => 2
  | noCredentials => 3
  | inconsistentDb => 4

/-- `error::get_description`. -/
def getDescription : Code → String
  | ok => "Everything is okay"
  | caughtException => "Some exception was caught"
  | badCmdlineOption => "Bad command line opiton"
  | noCredentials =>
      "No credentials were given. See https://systemd.io/CREDENTIALS/ for more details"
  | inconsistentDb => "Inconsistent database structure"

end Code

/-- `error::exception`, made with a prefix. -/
structure CodeException where
  code : Code
  pre : String

/-- `error::exception::what`. -/
def CodeException.what (ex : CodeException) : String :=
  ex.pre ++ ": " ++ ex.code.getDescription ++ " (" ++ ToString.toString ex.code.toUnderlying ++ ")"

/-- What is thrown. -/
inductive Thrown where
  /-- an `error::exception` -/
  | code (ex : CodeException)
  /-- another `std::exception` -/
  | std (what : String)
  /-- anything else -/
  | other

/-- The handlers of `main`: the message that is logged, and the exit code. -/
def mainCatch : Thrown → String × Code
  | .code ex => (ex.what, ex.code)
  | .std what => (what, .caughtException)
  | .other => ("Unknown exception", .caughtException)

/-- What the program has from libraries: what is white space, and what their
exceptions say. -/
structure Platform where
  isSpace : UInt8 → Bool
  newline : isSpace 10 = true
  startWhat : StartError → String
  what : Exn → String
  /-- what `boost::mysql::bad_field_access` says -/
  badFieldAccess : String

/-- `std::exception::what`; `telegram::exception` is the program's own. -/
def Exn.what (lib : Platform) : Exn → String
  | .telegram err => err.description ++ " (" ++ ToString.toString err.errorCode ++ ")"
  | e => lib.what e

/-! ## the environment -/

/-- `boost::program_options::variables_map`, as far as `run` reads it. -/
structure Args where
  help : Bool
  mysqlSsl : SslMode

/-- What the program is started in. -/
structure Environment where
  /-- what `parse_command_line` makes of the command line -/
  args : Except String Args
  credentials : CredentialsDirectory
  /-- does `set_default_verify_paths` succeed? -/
  verifyPaths : Except String Unit
  /-- the name in `getpwuid(geteuid())` -/
  pwName : Option Bytes

/-- `get_os_username`. -/
def getOsUsername (env : Environment) : Bytes := env.pwName.getD []

/-! ## the constructor -/

/-- `application`, as far as `run` reads it. -/
structure Application where
  args : Args
  creds : CredentialsStorage

/-- `make_cred_or_throw`. -/
def makeCredOrThrow (env : Environment) : Except Thrown CredentialsStorage :=
  match makeCredentialsStorage env.credentials with
  | .error what => .error (.std what)
  | .ok (some creds) => .ok creds
  | .ok none =>
      .error (.code ⟨.noCredentials, "\x60CREDENTIALS_DIRECTORY\x60 environment variable is not set"⟩)

/-- `application::application`. -/
def Application.make (env : Environment) : Except Thrown Application := do
  let args ← env.args.mapError .std
  let creds ← makeCredOrThrow env
  return { args, creds }

/-! ## the services -/

/-- The arguments of `make_inventory` that are credentials. -/
inductive Argument where
  | botToken
  | mysqlUser
  | mysqlPassword
  | mysqlSocket
deriving DecidableEq

/-- The arguments, in the order in which they are evaluated. -/
abbrev EvaluationOrder :=
  { order : List Argument // order.Perm [.botToken, .mysqlUser, .mysqlPassword, .mysqlSocket] }

/-- `parse_mysql_address`; a path is absolute when it begins with a slash. -/
def parseMysqlAddress (socketAddress : Bytes) : Except Thrown MysqlAddress :=
  match socketAddress with
  | [] => .error (.code ⟨.badCmdlineOption, "The socket cannot be empty"⟩)
  | b :: _ => if b = 47 then .ok (.unixPath socketAddress) else .ok .hostAndPort

/-- How `run` stops before the event loop. -/
inductive Stop where
  /-- an assertion fails -/
  | aborts
  | throws (ex : Thrown)
  | returns (c : Code)

section

variable (lib : Platform)

namespace Application

/-- `creds_(name)`, as a string. -/
def findCred (app : Application) (name : String) : Except Thrown (Option Bytes) :=
  match app.creds.get name with
  | .error what => .error (.std what)
  | .ok cred => .ok (cred.map fun c => c.toString lib.isSpace)

/-- `get_cred`. -/
def getCred (app : Application) (name : String) : Except Thrown Bytes := do
  match ← app.findCred lib name with
  | some cred => return cred
  | none => throw (.code ⟨.noCredentials, name⟩)

/-- One argument. -/
def argument (env : Environment) (app : Application) : Argument → Except Thrown Bytes
  | .botToken => app.getCred lib "telegram-token"
  | .mysqlUser => return (← app.findCred lib "mysql-user").getD (getOsUsername env)
  | .mysqlPassword => return (← app.findCred lib "mysql-password").getD []
  | .mysqlSocket => app.getCred lib "mysql-socket"

/-- The arguments, one after the other. -/
def arguments (env : Environment) (app : Application) :
    List Argument → Except Thrown (Argument → Bytes)
  | [] => .ok fun _ => []
  | a :: as => do
      let cred ← app.argument lib env a
      let rest ← app.arguments env as
      return fun x => if x = a then cred else rest x

/-- The constructors of the services that `make_inventory` adds: `service::tg`
asserts that there is a token, and that it does not end with a newline. -/
def makeServices (ssl : SslMode) (args : Argument → Bytes) : Except Stop ConnectParams :=
  if (args .botToken).isEmpty || (args .botToken).getLast? = some 10 then .error .aborts
  else match parseMysqlAddress (args .mysqlSocket) with
    | .error ex => .error (.throws ex)
    | .ok address => .ok ⟨address, args .mysqlUser, args .mysqlPassword, ssl⟩

/-- `application::run`, up to the call of `async_init`. -/
def run (env : Environment) (order : EvaluationOrder) (app : Application) :
    Except Stop ConnectParams := do
  if app.args.help then throw (.returns .ok)
  env.verifyPaths.mapError fun what => .throws (.std what)
  let args ← (app.arguments lib env order.1).mapError .throws
  makeServices app.args.mysqlSsl args

end Application

/-! ## main -/

/-- How a process ends. -/
inductive Ending where
  | aborts
  /-- with an exit code, and a message if something was caught -/
  | exits (c : Code) (critical : Option String)

/-- Leave through the handlers of `main`. -/
def Ending.ofThrown (ex : Thrown) : Ending := .exits (mainCatch ex).2 (some (mainCatch ex).1)

/-- `main`, up to the event loop. -/
def startUp (env : Environment) (order : EvaluationOrder) : Except Ending ConnectParams :=
  match Application.make env with
  | .error ex => .error (.ofThrown ex)
  | .ok app =>
      match app.run lib env order with
      | .error .aborts => .error .aborts
      | .error (.throws ex) => .error (.ofThrown ex)
      | .error (.returns c) => .error (.exits c none)
      | .ok params => .ok params

/-! ## the credentials that are read -/

/-- What stands under a name in the directory of credentials. -/
def Environment.file (env : Environment) (name : String) : CredentialFile :=
  match env.credentials with
  | .directory files => files name
  | _ => .absent

/-- Every credential can be read. -/
def Environment.Readable (env : Environment) : Prop :=
  ∀ name what, env.file name ≠ .unreadable what

namespace Application

variable {lib}
variable {env : Environment} {app : Application} {a : Argument} {as : List Argument} {ex : Thrown}

/-- What the constructor found. -/
theorem make_ok (h : make env = .ok app) :
    env.args = .ok app.args ∧ env.credentials = .directory app.creds.files := by
  cases hargs : env.args with
  | error what => simp [make, hargs, Except.mapError, Bind.bind, Except.bind] at h
  | ok args =>
      cases hcreds : env.credentials with
      | unset | notDirectory | unexaminable =>
          simp [make, hargs, hcreds, makeCredOrThrow, makeCredentialsStorage, Except.mapError,
            Bind.bind, Except.bind] at h
      | directory files =>
          simp only [make, hargs, hcreds, makeCredOrThrow, makeCredentialsStorage, Except.mapError,
            Bind.bind, Except.bind, Pure.pure, Except.pure, Except.ok.injEq] at h
          subst h
          exact ⟨rfl, rfl⟩

/-- What the constructor missed. -/
theorem make_error (h : make env = .error ex) :
    (∃ what, (env.args = .error what ∨ env.credentials = .unexaminable what) ∧ ex = .std what) ∨
      (∀ files, env.credentials ≠ .directory files) ∧ (mainCatch ex).2 = .noCredentials := by
  cases hargs : env.args with
  | error what =>
      simp only [make, hargs, Except.mapError, Bind.bind, Except.bind, Except.error.injEq] at h
      exact .inl ⟨what, .inl rfl, h.symm⟩
  | ok args =>
      cases hcreds : env.credentials with
      | unexaminable what =>
          simp only [make, hargs, hcreds, makeCredOrThrow, makeCredentialsStorage, Except.mapError,
            Bind.bind, Except.bind, Except.error.injEq] at h
          exact .inl ⟨what, .inr rfl, h.symm⟩
      | unset | notDirectory =>
          simp only [make, hargs, hcreds, makeCredOrThrow, makeCredentialsStorage, Except.mapError,
            Bind.bind, Except.bind, Except.error.injEq] at h
          subst h
          exact .inr ⟨by simp, rfl⟩
      | directory files =>
          simp [make, hargs, hcreds, makeCredOrThrow, makeCredentialsStorage, Except.mapError,
            Bind.bind, Except.bind, Pure.pure, Except.pure] at h

/-- A credential is found as its file stands. -/
theorem findCred_eq (h : env.credentials = .directory app.creds.files) (name : String) :
    app.findCred lib name =
      match env.file name with
      | .absent => .ok none
      | .unreadable what => .error (.std what)
      | .mapped source => .ok (some ((⟨source⟩ : Credential).toString lib.isSpace)) := by
  simp only [findCred, CredentialsStorage.get, Environment.file, h]
  cases app.creds.files name <;> rfl

/-- A required one has to be there. -/
theorem getCred_eq (h : env.credentials = .directory app.creds.files) (name : String) :
    app.getCred lib name =
      match env.file name with
      | .absent => .error (.code ⟨.noCredentials, name⟩)
      | .unreadable what => .error (.std what)
      | .mapped source => .ok ((⟨source⟩ : Credential).toString lib.isSpace) := by
  rw [getCred, findCred_eq h]
  cases env.file name <;> rfl

theorem getCred_ok {name : String} {cred : Bytes} (h : env.credentials = .directory app.creds.files)
    (hget : app.getCred lib name = .ok cred) :
    ∃ source, env.file name = .mapped source ∧
      cred = (⟨source⟩ : Credential).toString lib.isSpace := by
  rw [getCred_eq h] at hget
  cases hfile : env.file name with
  | absent | unreadable => simp [hfile] at hget
  | mapped source =>
      rw [hfile] at hget
      exact ⟨source, rfl, (Except.ok.inj hget).symm⟩

/-- Why an argument fails. -/
def Fails (env : Environment) (ex : Thrown) : Prop :=
  (∃ name what, env.file name = .unreadable what ∧ ex = .std what) ∨
    ∃ name, (name = "telegram-token" ∨ name = "mysql-socket") ∧ env.file name = .absent ∧
      ex = .code ⟨.noCredentials, name⟩

theorem argument_error (h : env.credentials = .directory app.creds.files)
    (hex : app.argument lib env a = .error ex) : Fails env ex := by
  have hrequired : ∀ name, (name = "telegram-token" ∨ name = "mysql-socket") →
      app.getCred lib name = .error ex → Fails env ex := by
    intro name hname hget
    rw [getCred_eq h] at hget
    cases hfile : env.file name with
    | absent =>
        rw [hfile] at hget
        exact .inr ⟨name, hname, hfile, (Except.error.inj hget).symm⟩
    | unreadable what =>
        rw [hfile] at hget
        exact .inl ⟨name, what, hfile, (Except.error.inj hget).symm⟩
    | mapped source => simp [hfile] at hget
  have hoptional : ∀ name (d : Bytes), (app.findCred lib name).map (·.getD d) = .error ex →
      Fails env ex := by
    intro name d hfind
    rw [findCred_eq h] at hfind
    cases hfile : env.file name with
    | unreadable what =>
        rw [hfile] at hfind
        exact .inl ⟨name, what, hfile, (Except.error.inj hfind).symm⟩
    | absent | mapped => simp [hfile, Except.map] at hfind
  cases a with
  | botToken => exact hrequired _ (.inl rfl) hex
  | mysqlSocket => exact hrequired _ (.inr rfl) hex
  | mysqlUser | mysqlPassword => exact hoptional _ _ hex

/-- The arguments are evaluated until one fails. -/
theorem arguments_error (hex : app.arguments lib env as = .error ex) :
    ∃ a ∈ as, app.argument lib env a = .error ex := by
  induction as with
  | nil => simp [arguments] at hex
  | cons a as ih =>
      cases ha : app.argument lib env a with
      | error ex' =>
          simp only [arguments, ha, Bind.bind, Except.bind, Except.error.injEq] at hex
          exact ⟨a, List.mem_cons_self .., hex ▸ ha⟩
      | ok cred =>
          cases hrest : app.arguments lib env as with
          | ok rest => simp [arguments, ha, hrest, Bind.bind, Except.bind, Pure.pure, Except.pure] at hex
          | error ex' =>
              simp only [arguments, ha, hrest, Bind.bind, Except.bind, Except.error.injEq] at hex
              obtain ⟨b, hb, hbex⟩ := ih (hex ▸ hrest)
              exact ⟨b, List.mem_cons_of_mem _ hb, hbex⟩

/-- Otherwise each has its value, whatever the order. -/
theorem arguments_ok {args : Argument → Bytes} (hargs : app.arguments lib env as = .ok args) :
    ∀ a ∈ as, app.argument lib env a = .ok (args a) := by
  induction as generalizing args with
  | nil => simp
  | cons a as ih =>
      cases ha : app.argument lib env a with
      | error ex => simp [arguments, ha, Bind.bind, Except.bind] at hargs
      | ok cred =>
          cases hrest : app.arguments lib env as with
          | error ex => simp [arguments, ha, hrest, Bind.bind, Except.bind] at hargs
          | ok rest =>
              simp only [arguments, ha, hrest, Bind.bind, Except.bind, Pure.pure, Except.pure,
                Except.ok.injEq] at hargs
              subst hargs
              intro x hx
              by_cases hxa : x = a
              · simp only [if_pos hxa]
                exact hxa ▸ ha
              · have hx' : x ∈ as := (List.mem_cons.mp hx).resolve_left hxa
                simp only [if_neg hxa]
                exact ih hrest x hx'

/-- Every argument is in every order. -/
theorem mem_order (order : EvaluationOrder) (a : Argument) : a ∈ order.1 := by
  refine order.2.mem_iff.mpr ?_
  cases a <;> simp

/-- Where all credentials can be read, the order changes nothing but the name
of a credential that is missing. -/
theorem arguments_order (h : env.credentials = .directory app.creds.files)
    (hreadable : env.Readable) (order order' : EvaluationOrder) :
    (app.arguments lib env order.1).mapError (fun ex => (mainCatch ex).2) =
      (app.arguments lib env order'.1).mapError fun ex => (mainCatch ex).2 := by
  have hfails : ∀ {order : EvaluationOrder} {ex}, app.arguments lib env order.1 = .error ex →
      (mainCatch ex).2 = .noCredentials := by
    intro order ex hex
    obtain ⟨a, -, ha⟩ := arguments_error hex
    rcases argument_error h ha with ⟨name, what, hfile, -⟩ | ⟨name, -, -, rfl⟩
    · exact absurd hfile (hreadable name what)
    · rfl
  have hsame : ∀ {order order' : EvaluationOrder} {args ex},
      app.arguments lib env order.1 = .ok args → app.arguments lib env order'.1 ≠ .error ex := by
    intro order order' args ex hok hex
    obtain ⟨a, -, ha⟩ := arguments_error hex
    rw [arguments_ok hok a (mem_order order a)] at ha
    contradiction
  cases hx : app.arguments lib env order.1 with
  | error ex =>
      cases hy : app.arguments lib env order'.1 with
      | error ex' => simp [Except.mapError, hfails hx, hfails hy]
      | ok args => exact absurd hx (hsame hy)
  | ok args =>
      cases hy : app.arguments lib env order'.1 with
      | error ex => exact absurd hy (hsame hx)
      | ok args' =>
          have hargs : args = args' := by
            funext a
            have ha := arguments_ok hx a (mem_order order a)
            rw [arguments_ok hy a (mem_order order' a)] at ha
            exact (Except.ok.inj ha).symm
          rw [hargs]

theorem parseMysqlAddress_error {socket : Bytes} {ex : Thrown}
    (h : parseMysqlAddress socket = .error ex) :
    socket = [] ∧ ex = .code ⟨.badCmdlineOption, "The socket cannot be empty"⟩ := by
  unfold parseMysqlAddress at h
  split at h
  · exact ⟨rfl, (Except.error.inj h).symm⟩
  · split at h <;> contradiction

/-- What the constructors of the services assert and check. -/
theorem makeServices_error {ssl : SslMode} {args : Argument → Bytes} {stop : Stop}
    (h : makeServices ssl args = .error stop) :
    (stop = .aborts ∧ (args .botToken = [] ∨ (args .botToken).getLast? = some 10)) ∨
      (args .mysqlSocket = [] ∧
        stop = .throws (.code ⟨.badCmdlineOption, "The socket cannot be empty"⟩)) := by
  unfold makeServices at h
  split at h
  · next htoken =>
      cases h
      exact .inl ⟨rfl, by simpa using htoken⟩
  · cases haddress : parseMysqlAddress (args .mysqlSocket) with
    | ok address => simp [haddress] at h
    | error ex =>
        obtain ⟨hempty, rfl⟩ := parseMysqlAddress_error haddress
        simp only [haddress, Except.error.injEq] at h
        exact .inr ⟨hempty, h.symm⟩

/-- The checks of `run`, one after the other. -/
theorem run_eq (env : Environment) (order : EvaluationOrder) (app : Application) :
    app.run lib env order =
      if app.args.help then .error (.returns .ok)
      else match env.verifyPaths with
        | .error what => .error (.throws (.std what))
        | .ok _ =>
            match app.arguments lib env order.1 with
            | .error ex => .error (.throws ex)
            | .ok args => makeServices app.args.mysqlSsl args := by
  cases hhelp : app.args.help with
  | true =>
      simp only [run, hhelp, Bind.bind, Except.bind, if_true]
      rfl
  | false =>
      cases hverify : env.verifyPaths with
      | error what => simp [run, hhelp, hverify, Except.mapError, Bind.bind, Except.bind]
      | ok =>
          cases hargs : app.arguments lib env order.1 <;>
            simp [run, hhelp, hverify, hargs, Except.mapError, Bind.bind, Except.bind]

end Application

/-! ## endings -/

/-- The exit code of an ending. -/
def Ending.code : Ending → Option Code
  | .aborts => none
  | .exits c _ => some c

/-- **Order**: where all credentials can be read, the order in which the
arguments are evaluated changes neither the exit code nor what is connected to. -/
theorem startUp_order (lib : Platform) (env : Environment) (hreadable : env.Readable)
    (order order' : EvaluationOrder) :
    (startUp lib env order).mapError Ending.code = (startUp lib env order').mapError Ending.code := by
  cases hmake : Application.make env with
  | error ex => simp only [startUp, hmake]
  | ok app =>
      have horder : (app.arguments lib env order.1).mapError (fun ex => (mainCatch ex).2) =
          (app.arguments lib env order'.1).mapError fun ex => (mainCatch ex).2 :=
        Application.arguments_order (Application.make_ok hmake).2 hreadable order order'
      simp only [startUp, hmake, Application.run_eq]
      cases app.args.help with
      | true => rfl
      | false =>
          cases env.verifyPaths with
          | error what => rfl
          | ok =>
              cases hx : app.arguments lib env order.1 with
              | error ex =>
                  cases hy : app.arguments lib env order'.1 with
                  | ok => simp [hx, hy, Except.mapError] at horder
                  | error ex' =>
                      have hcode : (mainCatch ex).2 = (mainCatch ex').2 := by
                        simpa [hx, hy, Except.mapError] using horder
                      simp [Except.mapError, Ending.ofThrown, Ending.code, hcode]
              | ok args =>
                  cases hy : app.arguments lib env order'.1 with
                  | error => simp [hx, hy, Except.mapError] at horder
                  | ok args' =>
                      have hargs : args = args' := by simpa [hx, hy, Except.mapError] using horder
                      rw [hargs]

/-- White space as in the C locale; exceptions say nothing. -/
def plainPlatform : Platform :=
  ⟨fun b => b = 32 || (9 ≤ b && b ≤ 13), by decide, fun _ => "", fun _ => "", ""⟩

/-- The token and the socket are missing; the one that is looked for first is
reported. -/
theorem startUp_order_missing :
    (startUp plainPlatform ⟨.ok ⟨false, .require⟩, .directory fun _ => .absent, .ok (), none⟩
        ⟨[.botToken, .mysqlUser, .mysqlPassword, .mysqlSocket], .refl _⟩).mapError Ending.code =
      (startUp plainPlatform ⟨.ok ⟨false, .require⟩, .directory fun _ => .absent, .ok (), none⟩
        ⟨[.mysqlSocket, .mysqlPassword, .mysqlUser, .botToken], by decide⟩).mapError Ending.code :=
  startUp_order plainPlatform _ (fun _ _ h => by cases h) _ _

/-- What an ending before the event loop tells about the environment. -/
def Tells (lib : Platform) (env : Environment) : Ending → Prop
  | .aborts => ∃ source, env.file "telegram-token" = .mapped source ∧
      ∀ b ∈ source, lib.isSpace b = true
  | .exits .ok critical => critical = none ∧ (∃ args, env.args = .ok args ∧ args.help = true) ∧
      ∃ files, env.credentials = .directory files
  | .exits .caughtException _ =>
      (∃ what, env.args = .error what ∨ env.credentials = .unexaminable what) ∨
        (∃ what, env.verifyPaths = .error what) ∨ ∃ name what, env.file name = .unreadable what
  | .exits .badCmdlineOption _ => ∃ source, env.file "mysql-socket" = .mapped source ∧
      ∀ b ∈ source, lib.isSpace b = true
  | .exits .noCredentials _ => (∀ files, env.credentials ≠ .directory files) ∨
      env.file "telegram-token" = .absent ∨ env.file "mysql-socket" = .absent
  | .exits .inconsistentDb _ => False

theorem tells_of_startUp {lib : Platform} {env : Environment} {order : EvaluationOrder} {e : Ending}
    (h : startUp lib env order = .error e) : Tells lib env e := by
  cases hmake : Application.make env with
  | error ex =>
      simp only [startUp, hmake, Except.error.injEq] at h
      subst h
      rcases Application.make_error hmake with ⟨what, hargs, rfl⟩ | ⟨hdir, hcode⟩
      · exact .inl ⟨what, hargs⟩
      · rw [Ending.ofThrown, hcode]
        exact .inl hdir
  | ok app =>
      obtain ⟨hargs, hcreds⟩ := Application.make_ok hmake
      simp only [startUp, hmake, Application.run_eq] at h
      cases hhelp : app.args.help with
      | true =>
          simp only [hhelp, if_true, Except.error.injEq] at h
          subst h
          exact ⟨rfl, ⟨app.args, hargs, hhelp⟩, _, hcreds⟩
      | false =>
          simp only [hhelp, Bool.false_eq_true, if_false] at h
          cases hverify : env.verifyPaths with
          | error what =>
              simp only [hverify, Except.error.injEq] at h
              subst h
              exact .inr (.inl ⟨what, hverify⟩)
          | ok =>
              cases harguments : app.arguments lib env order.1 with
              | error ex =>
                  simp only [hverify, harguments, Except.error.injEq] at h
                  subst h
                  obtain ⟨a, -, ha⟩ := Application.arguments_error harguments
                  rcases Application.argument_error hcreds ha with
                    ⟨name, what, hfile, rfl⟩ | ⟨name, hname, hfile, rfl⟩
                  · exact .inr (.inr ⟨name, what, hfile⟩)
                  · rcases hname with rfl | rfl
                    · exact .inr (.inl hfile)
                    · exact .inr (.inr hfile)
              | ok args =>
                  simp only [hverify, harguments] at h
                  have htoken := Application.arguments_ok harguments _
                    (Application.mem_order order .botToken)
                  have hsocket := Application.arguments_ok harguments _
                    (Application.mem_order order .mysqlSocket)
                  obtain ⟨source, hfile, hcred⟩ := Application.getCred_ok hcreds htoken
                  obtain ⟨source', hfile', hcred'⟩ := Application.getCred_ok hcreds hsocket
                  cases hservices : Application.makeServices app.args.mysqlSsl args with
                  | ok params => simp [hservices] at h
                  | error stop =>
                      rw [hservices] at h
                      rcases Application.makeServices_error hservices with
                        ⟨rfl, hempty | hlast⟩ | ⟨hempty, rfl⟩
                      · cases h
                        rw [hcred, Credential.toString_eq_nil] at hempty
                        exact ⟨source, hfile, hempty⟩
                      · -- the newline would have been trimmed
                        rw [hcred] at hlast
                        have hnot := Credential.isSpace_last lib.isSpace ⟨source⟩ hlast
                        rw [lib.newline] at hnot
                        contradiction
                      · cases h
                        rw [hcred', Credential.toString_eq_nil] at hempty
                        exact ⟨source', hfile', hempty⟩

end

end LearnWords
