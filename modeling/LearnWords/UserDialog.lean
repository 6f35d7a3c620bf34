import LearnWords.Database
import LearnWords.Response
import LearnWords.Lib.Coro

/-!
# LearnWords.UserDialog

`user_dialog`: what the bot does with one update.  `process_update`,
`process_text` and `process_command` are coroutines that suspend at the calls
of `DialogOp`; `handler` answers such a call atomically over a `World`, the
table `settings` together with the messages sent so far.

The command itself is analysed at the end: a command whose user's state is
usable replies and writes nothing, and one whose user's state is erroneous
tries to store the byte 0 first.
-/

namespace LearnWords

open Machine

/-- The failures of asynchronous operations, `boost::system::error_code`. -/
inductive ErrorCode where
  | json (e : JsonError)
  | sql (e : SqlError)
  | network (code : Nat)
deriving DecidableEq

/-- The exceptions the program raises. -/
inductive Exn where
  | systemError (ec : ErrorCode)
  | badOptionalAccess
  | outOfRange
  | telegram (err : ProtoError)
deriving DecidableEq

/-! ## the state of a dialog -/

/-- `user_dialog`'s `state`. -/
inductive DialogState where
  | initial
  | setRemindTime
  | addSentence
  | error
deriving DecidableEq

namespace DialogState

/-- `std::to_underlying`. -/
def toUnderlying : DialogState → UInt8
  | initial => 0
  | setRemindTime => 1
  | addSentence => 2
  | error => 255

/-- `magic_enum::enum_cast<state>`; the byte of `error` is outside the range
of values it reflects. -/
def enumCast (raw : UInt8) : Option DialogState :=
  if raw = 0 then some initial
  else if raw = 1 then some setRemindTime
  else if raw = 2 then some addSentence
  else none

/-- `enum_cast<state>(raw).value_or(state::error)`. -/
def decode (raw : UInt8) : DialogState := (enumCast raw).getD error

end DialogState

open DialogState

/-! ## the coroutines -/

/-- The calls at which the coroutines of `user_dialog` suspend. -/
inductive DialogOp where
  | getState (userId : UInt64)
  | setState (userId : UInt64) (state : UInt8)
  | sendMessage (json : Object)

/-- Is the call an execution on the database connection? -/
def DialogOp.isDb : DialogOp → Bool
  | getState _ | setState _ _ => true
  | sendMessage _ => false

/-- What a call resumes its coroutine with; the processed response to
`sendMessage` is discarded by the caller. -/
abbrev DialogOp.Res : DialogOp → Type
  | getState _ => UInt8
  | setState _ _ => Unit
  | sendMessage _ => Unit

/-- `boost::asio::awaitable` over the calls of `user_dialog`. -/
abbrev Dialog (α : Type) := Coro DialogOp DialogOp.Res Exn α

/-- Await `db.async_get_state`. -/
def awaitGetState (userId : UInt64) : Dialog UInt8 := Coro.perform (DialogOp.getState userId)

/-- Await `db.async_set_state`. -/
def awaitSetState (userId : UInt64) (state : UInt8) : Dialog Unit :=
  Coro.perform (DialogOp.setState userId state)

/-- Await `tg.async_request("sendMessage", …)`. -/
def awaitSendMessage (json : Object) : Dialog Unit := Coro.perform (DialogOp.sendMessage json)

/-- The JSON object of a `sendMessage` request. -/
def message (userId : UInt64) (text : String) : Object :=
  [("chat_id", .uint64 userId), ("text", .string text)]

/-- The reply to a command of a user whose state is unusable. -/
def internalError : String :=
  "Got an internal error, trying to recover... Please, contact the developer"

/-- The text of the reply to a command. -/
def reply : DialogState → String
  | .initial => "Greetings!"
  | .setRemindTime => "TODO"
  | .addSentence => "TODO"
  | .error => internalError

/-- The state a command moves its user to, if any. -/
def newState : DialogState → Option DialogState
  | .error => some .initial
  | _ => none

/-- `process_text`: the state is read, and nothing is done with it yet. -/
def processText (userId : UInt64) (_text : Bytes) : Dialog Unit := do
  let _rawState ← awaitGetState userId
  return ()

/-- `process_command`. -/
def processCommand (userId : UInt64) (_command : Bytes) : Dialog Unit := do
  let rawState ← awaitGetState userId
  let current := decode rawState
  let msg := message userId (reply current)
  if let some next := newState current then
    awaitSetState userId next.toUnderlying
  awaitSendMessage msg

/-- `boost::json::string::subview`. -/
def subview (text : Bytes) (pos count : UInt64) : Except Exn Bytes :=
  if text.length < pos.toNat then .error .outOfRange
  else .ok ((text.drop pos.toNat).take count.toNat)

/-- `process_update`, given the two coroutines it ends with. -/
def processUpdateWith (processText processCommand : UInt64 → Bytes → Dialog Unit)
    (update : Object) : Dialog Unit :=
  match (ifContains update "message").bind ifObject with
  | none => return ()
  | some message =>
      let text := (ifContains message "text").bind ifString
      let userId := (((ifContains message "from").bind ifObject).bind
        fun o => ifContains o "id").bind ifInt64
      match text, userId with
      | some text, some userId =>
          let rawEntities := (ifContains message "entities").bind ifArray
          -- `join | transform(if_object) | join`: what is not an object is passed over
          let entities := rawEntities.toList.flatten.filterMap ifObject
          match entities.find? fun e => (ifContains e "type").bind ifString = some "bot_command" with
          | none => processText userId.toUInt64 (bytesOf text)
          | some command => do
              let offset ← Coro.ofExcept
                (orThrow .badOptionalAccess ((ifContains command "offset").bind ifInt64))
              let length ← Coro.ofExcept
                (orThrow .badOptionalAccess ((ifContains command "length").bind ifInt64))
              let cmd ← Coro.ofExcept (subview (bytesOf text) offset.toUInt64 length.toUInt64)
              processCommand userId.toUInt64 cmd
      | _, _ => return ()

/-- `process_update`. -/
def processUpdate (update : Object) : Dialog Unit :=
  processUpdateWith processText processCommand update

/-- What `process_update` comes down to: it ends at once, normally or by an
exception, or it handles a text, or it handles a command. -/
theorem processUpdate_cases (update : Object) :
    processUpdate update = .ret () ∨ (∃ e, processUpdate update = .raise e) ∨
    (∃ userId text, processUpdate update = processText userId text) ∨
    (∃ userId cmd, processUpdate update = processCommand userId cmd) := by
  unfold processUpdate processUpdateWith
  split
  · exact .inl rfl
  · next message _ =>
      simp only
      split
      · next text userId _ _ =>
          split
          · exact .inr (.inr (.inl ⟨_, _, rfl⟩))
          · next command _ =>
              cases (ifContains command "offset").bind ifInt64 with
              | none => exact .inr (.inl ⟨_, rfl⟩)
              | some offset =>
                  cases (ifContains command "length").bind ifInt64 with
                  | none => exact .inr (.inl ⟨_, rfl⟩)
                  | some length =>
                      simp only [orThrow_some, Coro.ofExcept_ok, Coro.ret_bind]
                      cases subview (bytesOf text) offset.toUInt64 length.toUInt64 with
                      | error e => exact .inr (.inl ⟨e, rfl⟩)
                      | ok cmd => exact .inr (.inr (.inr ⟨_, cmd, rfl⟩))
      · exact .inl rfl

/-- The command `/start` of a user, as an update. -/
def startCommand (updateId userId : Int64) : Object :=
  [("update_id", .int64 updateId),
    ("message", .object
      [("text", .string "/start"),
        ("from", .object [("id", .int64 userId)]),
        ("entities", .array
          [.object [("type", .string "bot_command"), ("offset", .int64 0),
            ("length", .int64 6)]])])]

example : processUpdate (startCommand 1 7) = processCommand 7 (bytesOf "/start") := rfl

/-! ## atomic calls -/

/-- The table `settings`, and the messages sent so far. -/
structure World where
  table : Table
  sent : List Object

/-- The tasks of `user_dialog` over their world. -/
abbrev DialogPool := Pool DialogOp DialogOp.Res Exn World

/-- Answer a call atomically; `none` if the call fails. -/
def handler (mode : SqlMode) (w : World) : (op : DialogOp) → Option (op.Res × World)
  | .getState u =>
      match asyncGetState mode w.table u with
      | .ok (b, t) => some (b, { w with table := t })
      | .error _ => none
  | .setState u v =>
      match asyncSetState mode w.table u v with
      | .ok t => some ((), { w with table := t })
      | .error _ => none
  | .sendMessage json => some ((), { w with sent := w.sent ++ [json] })

@[simp] theorem handler_getState (mode : SqlMode) (w : World) (u : UInt64) :
    handler mode w (.getState u) = some (w.table.stateOf u, w) := by
  simp [handler, asyncGetState_eq]

@[simp] theorem handler_sendMessage (mode : SqlMode) (w : World) (json : Object) :
    handler mode w (.sendMessage json) = some ((), { w with sent := w.sent ++ [json] }) := rfl

/-- What a successful `set_state` call can do. -/
theorem handler_setState {mode : SqlMode} {w w' : World} {u : UInt64} {v : UInt8} {r : Unit}
    (h : handler mode w (.setState u v) = some (r, w')) :
    ∃ t, asyncSetState mode w.table u v = .ok t ∧ w' = { w with table := t } := by
  simp only [handler] at h
  split at h
  · next t ht =>
      simp only [Option.some.injEq, Prod.mk.injEq] at h
      exact ⟨t, ht, h.2.symm⟩
  · contradiction

/-- A command, as a tree of calls. -/
theorem processCommand_eq (userId : UInt64) (cmd : Bytes) :
    processCommand userId cmd = .call (.getState userId) fun raw =>
      match newState (decode raw) with
      | some next => .call (.setState userId next.toUnderlying) fun _ =>
          .call (.sendMessage (message userId (reply (decode raw)))) .ret
      | none => .call (.sendMessage (message userId (reply (decode raw)))) .ret := by
  unfold processCommand awaitGetState
  rw [Coro.perform_bind]
  congr 1
  funext raw
  dsimp only
  cases newState (decode raw) <;> rfl

theorem newState_eq_none {s : DialogState} : newState s = none ↔ s ≠ .error := by
  cases s <;> simp [newState]

/-- A command whose user's state is usable replies, and writes nothing. -/
theorem exec_processCommand {mode : SqlMode} {w : World} {u : UInt64} (cmd : Bytes)
    (h : decode (w.table.stateOf u) ≠ .error) :
    (processCommand u cmd).exec (handler mode) w =
      some (.ok (), { w with
        sent := w.sent ++ [message u (reply (decode (w.table.stateOf u)))] }) := by
  rw [processCommand_eq, Coro.exec, handler_getState, Option.bind_some]
  simp only [newState_eq_none.mpr h]
  rfl

/-- What a command whose user's state is erroneous can do. -/
theorem exec_processCommand_error {mode : SqlMode} {w w' : World} {u : UInt64} {cmd : Bytes}
    {r : Except Exn Unit} (h : decode (w.table.stateOf u) = .error)
    (hexec : (processCommand u cmd).exec (handler mode) w = some (r, w')) :
    ∃ t, asyncSetState mode w.table u 0 = .ok t ∧
      w' = { table := t, sent := w.sent ++ [message u internalError] } := by
  rw [processCommand_eq, Coro.exec, handler_getState, Option.bind_some] at hexec
  have hnew : newState .error = some .initial := rfl
  simp only [h, hnew, Coro.exec] at hexec
  obtain ⟨⟨⟨⟩, w₁⟩, hset, hrest⟩ := Option.bind_eq_some_iff.mp hexec
  obtain ⟨t, ht, rfl⟩ := handler_setState hset
  simp only [handler_sendMessage, Option.bind_some, Option.some.injEq, Prod.mk.injEq] at hrest
  exact ⟨t, ht, by rw [← hrest.2, h]; rfl⟩

end LearnWords
