import LearnWords.UserDialog

/-!
# LearnWords.UserDialog.Routing

Which updates `process_update` answers, and how.  `Reference` says it of the
JSON tree alone: an update that is not a text of a user is ignored; the first
element of `entities` that is a bot command decides about the others, and a
malformed one raises; a text without a command is handled as a text.

`process_update` ends with `process_text` or `process_command`.  What it hands
to them is seen by letting the two vary (`processUpdateWith`).
-/

namespace LearnWords

/-! ## the shape of an update -/

/-- The update is a text of a user. -/
structure TextMessage (update message : Object) (text : String) (userId : Int64) : Prop where
  hasMessage : update.lookup "message" = some (.object message)
  hasText : message.lookup "text" = some (.string text)
  hasSender : ∃ sender, message.lookup "from" = some (.object sender) ∧
    sender.lookup "id" = some (.int64 userId)

/-- The entity is a bot command. -/
def IsBotCommand (entity : Object) : Prop :=
  entity.lookup "type" = some (.string "bot_command")

/-- `command` is the first bot command among the entities of `message`. -/
structure FirstCommand (message command : Object) : Prop where
  isBotCommand : IsBotCommand command
  first : ∃ before after,
    message.lookup "entities" = some (.array (before ++ .object command :: after)) ∧
    ∀ entity, .object entity ∈ before → ¬ IsBotCommand entity

/-- `cmd` is the stretch of `text` that `command` says it is, up to the end of
`text` if there is less of it. -/
def Delimits (command : Object) (text cmd : Bytes) : Prop :=
  ∃ offset length : Int64, command.lookup "offset" = some (.int64 offset) ∧
    command.lookup "length" = some (.int64 length) ∧ offset.toUInt64.toNat ≤ text.length ∧
    cmd = (text.take (min text.length (offset.toUInt64.toNat + length.toUInt64.toNat))).drop
      offset.toUInt64.toNat

/-! ## what an update comes to -/

/-- What is done with an update. -/
inductive Outcome where
  | ignored
  | text (userId : UInt64) (text : Bytes)
  | command (userId : UInt64) (cmd : Bytes)
  | raised

/-- What should be done with a text of a user. -/
inductive Handling (message : Object) (text : Bytes) (userId : UInt64) : Outcome → Prop
  | text (hnone : ∀ command, ¬ FirstCommand message command) :
      Handling message text userId (.text userId text)
  | command {command : Object} {cmd : Bytes} (hfirst : FirstCommand message command)
      (hcmd : Delimits command text cmd) : Handling message text userId (.command userId cmd)
  | raised {command : Object} (hfirst : FirstCommand message command)
      (hnone : ∀ cmd, ¬ Delimits command text cmd) : Handling message text userId .raised

/-- What should be done with an update. -/
inductive Reference (update : Object) : Outcome → Prop
  | ignored (h : ∀ message text userId, ¬ TextMessage update message text userId) :
      Reference update .ignored
  | handled {message : Object} {text : String} {userId : Int64} {o : Outcome}
      (h : TextMessage update message text userId)
      (ho : Handling message (bytesOf text) userId.toUInt64 o) : Reference update o

/-- The coroutine does what the outcome says, and nothing else: it ends, or it
raises, without suspending, or it goes on as one of the two coroutines. -/
def Outcome.Follows (onText onCommand : UInt64 → Bytes → Dialog Unit) (d : Dialog Unit) :
    Outcome → Prop
  | .ignored => d = .ret ()
  | .text userId bytes => d = onText userId bytes
  | .command userId cmd => d = onCommand userId cmd
  | .raised => ∃ e, d = .raise e

/-! ## the accessors of `process_update` -/

theorem textMessage_iff {update message : Object} {text : String} {userId : Int64} :
    TextMessage update message text userId ↔
      (ifContains update "message").bind ifObject = some message ∧
      (ifContains message "text").bind ifString = some text ∧
      (((ifContains message "from").bind ifObject).bind fun o => ifContains o "id").bind ifInt64 =
        some userId := by
  have hsender : (((ifContains message "from").bind ifObject).bind fun o =>
      ifContains o "id").bind ifInt64 = some userId ↔
      ∃ sender, message.lookup "from" = some (.object sender) ∧
        sender.lookup "id" = some (.int64 userId) := by
    rw [Option.bind_assoc, Option.bind_eq_some_iff]
    simp only [ifContains_object, ifContains_int64]
  rw [ifContains_object, ifContains_string, hsender]
  exact ⟨fun h => ⟨h.hasMessage, h.hasText, h.hasSender⟩, fun h => ⟨h.1, h.2.1, h.2.2⟩⟩

theorem TextMessage.unique {update m m' : Object} {t t' : String} {u u' : Int64}
    (h : TextMessage update m t u) (h' : TextMessage update m' t' u') :
    m = m' ∧ t = t' ∧ u = u' := by
  obtain ⟨hm, ht, hu⟩ := textMessage_iff.mp h
  obtain ⟨hm', ht', hu'⟩ := textMessage_iff.mp h'
  obtain rfl := Option.some.inj (hm.symm.trans hm')
  exact ⟨rfl, Option.some.inj (ht.symm.trans ht'), Option.some.inj (hu.symm.trans hu')⟩

/-- The first element that is of a kind and has a property. -/
theorem find?_filterMap_eq_some {α β : Type} {f : α → Option β} {p : β → Bool} {xs : List α}
    {b : β} :
    (xs.filterMap f).find? p = some b ↔ ∃ before a after, xs = before ++ a :: after ∧
      f a = some b ∧ p b = true ∧ ∀ x ∈ before, ∀ y, f x = some y → p y = false := by
  rw [List.find?_filterMap, Option.bind_eq_some_iff]
  constructor
  · rintro ⟨a, ha, hb⟩
    obtain ⟨hp, before, after, rfl, hbefore⟩ := List.find?_eq_some_iff_append.mp ha
    rw [hb] at hp
    refine ⟨before, a, after, rfl, hb, hp, fun x hx y hy => ?_⟩
    simpa [hy] using hbefore x hx
  · rintro ⟨before, a, after, rfl, hb, hp, hbefore⟩
    refine ⟨a, List.find?_eq_some_iff_append.mpr ⟨?_, before, after, rfl, fun x hx => ?_⟩, hb⟩
    · rw [hb]
      exact hp
    · cases hy : f x with
      | none => rfl
      | some y => simp [hbefore x hx y hy]

/-- `std::ranges::find` over the joined entities. -/
theorem firstCommand_iff {message command : Object} :
    FirstCommand message command ↔
      (((ifContains message "entities").bind ifArray).toList.flatten.filterMap ifObject).find?
        (fun e => (ifContains e "type").bind ifString = some "bot_command") = some command := by
  have hcommand : ∀ {e : Object}, IsBotCommand e ↔
      (ifContains e "type").bind ifString = some "bot_command" := ifContains_string.symm
  rw [find?_filterMap_eq_some]
  constructor
  · rintro ⟨hc, before, after, hentities, hbefore⟩
    rw [ifContains_array.mpr hentities, Option.toList_some, List.flatten_singleton]
    refine ⟨before, _, after, rfl, rfl, decide_eq_true (hcommand.mp hc), fun v hv e he => ?_⟩
    obtain rfl := ifObject_eq_some.mp he
    exact decide_eq_false fun htype => hbefore e hv (hcommand.mpr htype)
  · rintro ⟨before, v, after, hsplit, hv, hc, hbefore⟩
    obtain rfl := ifObject_eq_some.mp hv
    cases hentities : (ifContains message "entities").bind ifArray with
    | none =>
        rw [hentities] at hsplit
        simp at hsplit
    | some entities =>
        rw [hentities, Option.toList_some, List.flatten_singleton] at hsplit
        subst hsplit
        refine ⟨hcommand.mpr (of_decide_eq_true hc), before, after,
          ifContains_array.mp hentities, fun e he htype => ?_⟩
        exact of_decide_eq_false (hbefore _ he e rfl) (hcommand.mp htype)

theorem FirstCommand.unique {message c c' : Object} (h : FirstCommand message c)
    (h' : FirstCommand message c') : c = c' :=
  Option.some.inj ((firstCommand_iff.mp h).symm.trans (firstCommand_iff.mp h'))

theorem Delimits.unique {command : Object} {text cmd cmd' : Bytes} (h : Delimits command text cmd)
    (h' : Delimits command text cmd') : cmd = cmd' := by
  obtain ⟨offset, length, hoffset, hlength, -, rfl⟩ := h
  obtain ⟨offset', length', hoffset', hlength', -, rfl⟩ := h'
  rw [hoffset, Option.some.injEq, Value.int64.injEq] at hoffset'
  rw [hlength, Option.some.injEq, Value.int64.injEq] at hlength'
  rw [hoffset', hlength']

/-- What `subview` answers where the range begins inside the text. -/
theorem subview_of_le {text : Bytes} {pos count : UInt64} (h : pos.toNat ≤ text.length) :
    subview text pos count =
      .ok ((text.take (min text.length (pos.toNat + count.toNat))).drop pos.toNat) := by
  rw [subview, if_neg (by omega), List.drop_take]
  congr 1
  rw [List.take_eq_take_iff, List.length_drop]
  omega

/-! ## the branches of `process_update` -/

section

variable {onText onCommand : UInt64 → Bytes → Dialog Unit}
  {update message command : Object} {text : String} {userId : Int64}

theorem processUpdateWith_ignored (h : ∀ m t u, ¬ TextMessage update m t u) :
    processUpdateWith onText onCommand update = .ret () := by
  unfold processUpdateWith
  cases hm : (ifContains update "message").bind ifObject with
  | none => rfl
  | some message =>
      simp only
      split
      · next t u ht hu => exact absurd (textMessage_iff.mpr ⟨hm, ht, hu⟩) (h message t u)
      · rfl

theorem processUpdateWith_text (h : TextMessage update message text userId)
    (hnone : ∀ c, ¬ FirstCommand message c) :
    processUpdateWith onText onCommand update = onText userId.toUInt64 (bytesOf text) := by
  obtain ⟨hm, ht, hu⟩ := textMessage_iff.mp h
  have hfind := Option.eq_none_iff_forall_ne_some.mpr fun c hc => hnone c (firstCommand_iff.mpr hc)
  simp only [processUpdateWith, hm, ht, hu, hfind]

/-- With a command, the rest of `process_update` reads the command alone. -/
theorem processUpdateWith_command (h : TextMessage update message text userId)
    (hfirst : FirstCommand message command) :
    processUpdateWith onText onCommand update = (do
      let offset ← Coro.ofExcept
        (orThrow .badOptionalAccess ((ifContains command "offset").bind ifInt64))
      let length ← Coro.ofExcept
        (orThrow .badOptionalAccess ((ifContains command "length").bind ifInt64))
      let cmd ← Coro.ofExcept (subview (bytesOf text) offset.toUInt64 length.toUInt64)
      onCommand userId.toUInt64 cmd) := by
  obtain ⟨hm, ht, hu⟩ := textMessage_iff.mp h
  have hfind := firstCommand_iff.mp hfirst
  simp only [processUpdateWith, hm, ht, hu, hfind]

theorem processUpdateWith_delimited {cmd : Bytes} (h : TextMessage update message text userId)
    (hfirst : FirstCommand message command) (hcmd : Delimits command (bytesOf text) cmd) :
    processUpdateWith onText onCommand update = onCommand userId.toUInt64 cmd := by
  obtain ⟨offset, length, hoffset, hlength, hle, rfl⟩ := hcmd
  rw [processUpdateWith_command h hfirst, ifContains_int64.mpr hoffset,
    ifContains_int64.mpr hlength]
  simp only [orThrow_some, Coro.ofExcept_ok, Coro.ret_bind, subview_of_le hle]

theorem processUpdateWith_raised (h : TextMessage update message text userId)
    (hfirst : FirstCommand message command)
    (hnone : ∀ cmd, ¬ Delimits command (bytesOf text) cmd) :
    ∃ e, processUpdateWith onText onCommand update = .raise e := by
  rw [processUpdateWith_command h hfirst]
  cases hoffset : (ifContains command "offset").bind ifInt64 with
  | none => exact ⟨_, rfl⟩
  | some offset =>
      cases hlength : (ifContains command "length").bind ifInt64 with
      | none => exact ⟨_, rfl⟩
      | some length =>
          have hlt : (bytesOf text).length < offset.toUInt64.toNat := by
            by_contra hle
            exact hnone _ ⟨offset, length, ifContains_int64.mp hoffset,
              ifContains_int64.mp hlength, not_lt.mp hle, rfl⟩
          refine ⟨.outOfRange, ?_⟩
          simp only [orThrow_some, Coro.ofExcept_ok, Coro.ret_bind, subview, if_pos hlt,
            Coro.ofExcept_error, Coro.raise_bind]

/-- Every outcome of the reference is what the code does. -/
theorem follows_of_reference {o : Outcome} (h : Reference update o) :
    o.Follows onText onCommand (processUpdateWith onText onCommand update) := by
  cases h with
  | ignored h => exact processUpdateWith_ignored h
  | handled h ho =>
      cases ho with
      | text hnone => exact processUpdateWith_text h hnone
      | command hfirst hcmd => exact processUpdateWith_delimited h hfirst hcmd
      | raised hfirst hnone => exact processUpdateWith_raised h hfirst hnone

end

/-! ## the reference is a function -/

theorem exists_handling (message : Object) (text : Bytes) (userId : UInt64) :
    ∃ o, Handling message text userId o := by
  by_cases hfirst : ∃ command, FirstCommand message command
  · obtain ⟨command, hfirst⟩ := hfirst
    by_cases hcmd : ∃ cmd, Delimits command text cmd
    · obtain ⟨cmd, hcmd⟩ := hcmd
      exact ⟨_, .command hfirst hcmd⟩
    · exact ⟨_, .raised hfirst (not_exists.mp hcmd)⟩
  · exact ⟨_, .text (not_exists.mp hfirst)⟩

theorem Handling.unique {message : Object} {text : Bytes} {userId : UInt64} {o o' : Outcome}
    (h : Handling message text userId o) (h' : Handling message text userId o') : o' = o := by
  cases h with
  | text hnone =>
      cases h' with
      | text _ => rfl
      | command hfirst _ | raised hfirst _ => exact absurd hfirst (hnone _)
  | command hfirst hcmd =>
      cases h' with
      | text hnone => exact absurd hfirst (hnone _)
      | command hfirst' hcmd' =>
          obtain rfl := hfirst.unique hfirst'
          rw [hcmd.unique hcmd']
      | raised hfirst' hnone =>
          obtain rfl := hfirst.unique hfirst'
          exact absurd hcmd (hnone _)
  | raised hfirst hnone =>
      cases h' with
      | text hnone' => exact absurd hfirst (hnone' _)
      | command hfirst' hcmd =>
          obtain rfl := hfirst.unique hfirst'
          exact absurd hcmd (hnone _)
      | raised _ _ => rfl

theorem exists_reference (update : Object) : ∃ o, Reference update o := by
  by_cases h : ∃ message text userId, TextMessage update message text userId
  · obtain ⟨message, text, userId, h⟩ := h
    obtain ⟨o, ho⟩ := exists_handling message (bytesOf text) userId.toUInt64
    exact ⟨o, .handled h ho⟩
  · exact ⟨_, .ignored fun m t u hmessage => h ⟨m, t, u, hmessage⟩⟩

theorem Reference.unique {update : Object} {o o' : Outcome} (h : Reference update o)
    (h' : Reference update o') : o' = o := by
  cases h with
  | ignored hnot =>
      cases h' with
      | ignored _ => rfl
      | handled h' _ => exact absurd h' (hnot _ _ _)
  | handled h ho =>
      cases h' with
      | ignored hnot => exact absurd h (hnot _ _ _)
      | handled h' ho' =>
          obtain ⟨rfl, rfl, rfl⟩ := h.unique h'
          exact ho.unique ho'

/-- **Routing**: for every update the reference has exactly one outcome, and
`process_update` does just that, whatever the two coroutines it ends with do. -/
theorem processUpdate_routes (update : Object) :
    ∃ o, (∀ o', Reference update o' ↔ o' = o) ∧
      (∀ onText onCommand,
        o.Follows onText onCommand (processUpdateWith onText onCommand update)) ∧
      o.Follows processText processCommand (processUpdate update) := by
  obtain ⟨o, ho⟩ := exists_reference update
  refine ⟨o, fun o' => ⟨ho.unique, fun h => h ▸ ho⟩, fun _ _ => follows_of_reference ho, ?_⟩
  exact follows_of_reference ho

-- a negative length stands for everything up to the end
example (onText onCommand : UInt64 → Bytes → Dialog Unit) :
    processUpdateWith onText onCommand
      [("message", .object [("text", .string "hi /go"), ("from", .object [("id", .int64 (-1))]),
        ("entities", .array [.null, .object [("type", .int64 0)], .object
          [("type", .string "bot_command"), ("offset", .int64 3), ("length", .int64 (-1))]])])] =
      onCommand 0xffffffffffffffff (bytesOf "/go") := rfl

end LearnWords
