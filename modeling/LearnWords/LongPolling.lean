import LearnWords.UserDialog

/-!
# LearnWords.LongPolling

`telegram::update::long_polling`: the coroutine that asks Telegram for updates
and yields them one by one.

It suspends in two places: at a `co_yield`, where `LongPolling.resume` goes on
with the rest of the batch, and at the `co_await` of a request, where
`LongPolling.onResponse` goes on with its result.  Either way it comes to its
next request, its next update or an exception (`PollOutput`).
-/

namespace LearnWords

/-! ## the parameters of a request -/

/-- `allowed_updates`. -/
inductive AllowedUpdate where
  | updateId
  | message
  | editedMessage
  | channelPost
  | editedChannelPost
  | businessConnection
  | businessMessage
  | editedBusinessMessage
  | deletedBusinessMessages
  | messageReaction
  | messageReactionCount
  | inlineQuery
  | chosenInlineResult
  | callbackQuery
  | shippingQuery
  | preCheckoutQuery
  | poll
  | pollAnswer
  | myChatMember
  | chatMember
  | chatJoinRequest
  | chatBoost
  | removedChatBoost
deriving DecidableEq

namespace AllowedUpdate

/-- The names `make_allowed_updates` tests for, in its order. -/
def names : List (AllowedUpdate × String) :=
  [(updateId, "update_id"), (message, "message"), (editedMessage, "edited_message"),
    (channelPost, "channel_post"), (editedChannelPost, "edited_channel_post"),
    (businessConnection, "business_connection"), (businessMessage, "business_message"),
    (editedBusinessMessage, "edited_business_message"),
    (deletedBusinessMessages, "deleted_business_messages"),
    (messageReaction, "message_reaction"), (messageReactionCount, "message_reaction_count"),
    (inlineQuery, "inline_query"), (chosenInlineResult, "chosen_inline_result"),
    (callbackQuery, "callback_query"), (shippingQuery, "shipping_query"),
    (preCheckoutQuery, "pre_checkout_query"), (poll, "poll"), (pollAnswer, "poll_answer"),
    (myChatMember, "my_chat_member"), (chatMember, "chat_member"),
    (chatJoinRequest, "chat_join_request"), (chatBoost, "chat_boost"),
    (removedChatBoost, "removed_chat_boost")]

end AllowedUpdate

/-- `siga::util::flag_set<allowed_updates>`. -/
abbrev AllowedUpdates := AllowedUpdate → Bool

/-- `make_allowed_updates`. -/
def makeAllowedUpdates (allowed : AllowedUpdates) : List Value :=
  (AllowedUpdate.names.filter fun p => allowed p.1).map fun p => .string p.2

/-- The arguments of `long_polling`; `timeout` is in seconds. -/
structure PollConfig where
  timeout : Int64
  limit : Int32
  allowed : AllowedUpdates

/-- The JSON object of a `getUpdates` request. -/
def getUpdatesParams (cfg : PollConfig) (offset : Option Int64) : Object :=
  [("limit", .int64 cfg.limit.toInt64), ("timeout", .int64 cfg.timeout)] ++
    (if AllowedUpdate.names.any fun p => cfg.allowed p.1 then
      [("allowed_updates", .array (makeAllowedUpdates cfg.allowed))] else []) ++
    (match offset with
      | some o => [("offset", .int64 o)]
      | none => [])

/-! ## the coroutine -/

/-- Where the coroutine is suspended. -/
inductive PollPhase where
  /-- before its first step, or at a `co_yield`, with the rest of the batch -/
  | suspended (rest : List Value)
  /-- at the `co_await` of a request -/
  | requesting
  /-- nowhere: it raised -/
  | finished

/-- `long_polling`, suspended. -/
structure LongPolling where
  offset : Option Int64
  phase : PollPhase

/-- What the coroutine comes to. -/
inductive PollOutput where
  | request (params : Object)
  | yields (update : Object)
  | raises (e : Exn)

namespace LongPolling

/-- The coroutine before its first step. -/
def make : LongPolling := ⟨none, .suspended []⟩

/-- The loop over the rest of a batch, and the next request behind it. -/
def advance (cfg : PollConfig) (offset : Option Int64) : List Value → LongPolling × PollOutput
  | [] => (⟨offset, .requesting⟩, .request (getUpdatesParams cfg offset))
  | upd :: rest =>
      match upd.asObject with
      | .ok update => (⟨offset, .suspended rest⟩, .yields update)
      | .error e => (⟨offset, .finished⟩, .raises (.systemError (.json e)))

/-- Resume the coroutine at a `co_yield`. -/
def resume (cfg : PollConfig) (s : LongPolling) : Option (LongPolling × PollOutput) :=
  match s.phase with
  | .suspended rest => some (advance cfg s.offset rest)
  | _ => none

/-- The offset after a batch: one past the id of its last update. -/
def nextOffset (offset : Option Int64) (updates : List Value) : Except JsonError (Option Int64) :=
  match updates.getLast? with
  | none => .ok offset
  | some last => do return some ((← (← Object.at (← last.asObject) "update_id").asInt64) + 1)

/-- Resume the coroutine with the result of its request. -/
def onResponse (cfg : PollConfig) (s : LongPolling) :
    Except ErrorCode ProcessedResult → LongPolling × PollOutput
  | .error ec => (⟨s.offset, .finished⟩, .raises (.systemError ec))
  | .ok (.error err) => (⟨s.offset, .finished⟩, .raises (.telegram err))
  | .ok (.ok result) =>
      match result.asArray with
      | .error e => (⟨s.offset, .finished⟩, .raises (.systemError (.json e)))
      | .ok updates =>
          match nextOffset s.offset updates with
          | .error e => (⟨s.offset, .finished⟩, .raises (.systemError (.json e)))
          | .ok offset => advance cfg offset updates

end LongPolling

/-! ## what it reads and writes -/

/-- The offset of a request, as its receiver reads it. -/
@[simp] theorem offset_getUpdatesParams (cfg : PollConfig) (offset : Option Int64) :
    (ifContains (getUpdatesParams cfg offset) "offset").bind ifInt64 = offset := by
  unfold getUpdatesParams
  split <;> cases offset <;> rfl

@[simp] theorem limit_getUpdatesParams (cfg : PollConfig) (offset : Option Int64) :
    (ifContains (getUpdatesParams cfg offset) "limit").bind ifInt64 = some cfg.limit.toInt64 := rfl

end LearnWords
