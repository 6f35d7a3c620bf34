import LearnWords.Lib.Utf
import LearnWords.UserDialog.Routing

/-!
# LearnWords.UserDialog.Command

The command `process_update` cuts out of a text.  Telegram counts the offset
and the length of an entity in UTF-16 code units; `process_update` counts bytes
of UTF-8 with them.  The stretch it takes lies inside the text
(`passes_window`), and it is the command where no character that takes more
bytes than units is involved (`passes_iff`).
-/

namespace LearnWords

open Utf

/-- The first bot command of an update, as Telegram reports it: it is `mid` in
the text `pre ++ mid ++ post`, in UTF-16 code units. -/
structure CommandBetween (update : Object) (userId : Int64) (pre mid post : String) : Prop where
  delimited : ∃ message command offset length,
    TextMessage update message (pre ++ mid ++ post) userId ∧ FirstCommand message command ∧
    command.lookup "offset" = some (.int64 offset) ∧
    offset.toInt = (utf16 pre.toList).length ∧
    command.lookup "length" = some (.int64 length) ∧
    length.toInt = (utf16 mid.toList).length

/-- `process_update` calls `process_command` with `cmd`, and does nothing else. -/
def Passes (update : Object) (userId : UInt64) (cmd : Bytes) : Prop :=
  ∀ onText onCommand, processUpdateWith onText onCommand update = onCommand userId cmd

/-- There is only one command that is passed. -/
theorem Passes.unique {update : Object} {userId : UInt64} {cmd cmd' : Bytes}
    (h : Passes update userId cmd) (h' : Passes update userId cmd') : cmd = cmd' := by
  -- a coroutine that tells the two apart
  let onCommand : UInt64 → Bytes → Dialog Unit := fun _ c =>
    if c = cmd' then .ret () else .raise .outOfRange
  have hsame := (h (fun _ _ => .ret ()) onCommand).symm.trans (h' _ onCommand)
  simp only [onCommand, if_true] at hsame
  split at hsame
  · assumption
  · contradiction

/-! ## the stretch that is passed -/

theorem bytesOf_eq (s : String) : bytesOf s = utf8 s.toList := by
  rw [bytesOf, String.toUTF8_eq_toByteArray, ← String.utf8Encode_toList, List.utf8Encode,
    List.toList_data_toByteArray]
  rfl

theorem toNat_toUInt64_of_toInt {i : Int64} {n : Nat} (h : i.toInt = n) :
    i.toUInt64.toNat = n := by
  have hbits : i.toBitVec.toInt = n := h
  have hlt := i.toBitVec.isLt
  rw [BitVec.toInt_eq_toNat_cond] at hbits
  show i.toBitVec.toNat = n
  split at hbits <;> omega

section

variable {update : Object} {userId : Int64} {pre mid post : String}

/-- What is passed has as many bytes as the command has code units, and nothing
is raised. -/
theorem passes_window (h : CommandBetween update userId pre mid post) :
    Passes update userId.toUInt64 (((bytesOf (pre ++ mid ++ post)).drop
      (utf16 pre.toList).length).take (utf16 mid.toList).length) := by
  intro onText onCommand
  obtain ⟨message, command, offset, length, hmessage, hfirst, ho, hoffset, hl, hlength⟩ :=
    h.delimited
  have hpre := toNat_toUInt64_of_toInt hoffset
  have hmid := toNat_toUInt64_of_toInt hlength
  have hle : (utf16 pre.toList).length ≤ (bytesOf (pre ++ mid ++ post)).length := by
    have hunits := length_utf16_le pre.toList
    rw [bytesOf_eq, String.toList_append, String.toList_append, utf8_append, utf8_append,
      List.length_append, List.length_append]
    omega
  have hsub : subview (bytesOf (pre ++ mid ++ post)) offset.toUInt64 length.toUInt64 =
      .ok (((bytesOf (pre ++ mid ++ post)).drop (utf16 pre.toList).length).take
        (utf16 mid.toList).length) := by
    rw [subview, hpre, hmid, if_neg (not_lt.mpr hle)]
  rw [processUpdateWith_command hmessage hfirst, ifContains_int64.mpr ho, ifContains_int64.mpr hl]
  simp only [orThrow_some, Coro.ofExcept_ok, Coro.ret_bind, hsub]

/-- **Commands in a text**: what `process_update` passes to `process_command` is
the command exactly if the command is ASCII and what precedes it is ASCII too,
or ends such that the bytes of the command recur. -/
theorem passes_iff (h : CommandBetween update userId pre mid post) :
    Passes update userId.toUInt64 (bytesOf mid) ↔
      (∀ c ∈ mid.toList, IsAscii c) ∧
        ((∀ c ∈ pre.toList, IsAscii c) ∨ bytesOf mid <+: excess pre.toList ++ bytesOf mid) := by
  have hwindow := passes_window h
  simp only [bytesOf_eq, String.toList_append] at hwindow ⊢
  rw [← window_eq_iff pre.toList mid.toList post.toList]
  exact ⟨fun hmid => hwindow.unique hmid, fun heq => heq ▸ hwindow⟩

/-- A command whose first byte does not occur before it is not passed if there
is any character before it that is not ASCII. -/
theorem not_passes_of_head {b : UInt8} {rest : Bytes}
    (h : CommandBetween update userId pre mid post) (hmid : bytesOf mid = b :: rest)
    (hb : b ∉ bytesOf pre) (hpre : ¬ ∀ c ∈ pre.toList, IsAscii c) :
    ¬ Passes update userId.toUInt64 (bytesOf mid) := by
  intro hpasses
  have hcut := (passes_window h).unique hpasses
  simp only [bytesOf_eq, String.toList_append] at hcut hmid hb
  obtain ⟨-, hascii | hrecurs⟩ := (window_eq_iff pre.toList mid.toList post.toList).mp hcut
  · exact hpre hascii
  · rw [hmid] at hrecurs
    exact hpre ((excess_eq_nil_iff _).mp (excess_eq_nil_of_isPrefix hb hrecurs))

end

/-! ## an accent -/

/-- The text `pre ++ mid ++ post` by the user 7, with one bot command. -/
def commandIn (pre mid post : String) (offset length : Int64) : Object :=
  [("message", .object
    [("text", .string (pre ++ mid ++ post)), ("from", .object [("id", .int64 7)]),
      ("entities", .array [.object [("type", .string "bot_command"), ("offset", .int64 offset),
        ("length", .int64 length)]])])]

theorem commandBetween_commandIn {pre mid post : String} {offset length : Int64}
    (hpre : offset.toInt = (utf16 pre.toList).length)
    (hmid : length.toInt = (utf16 mid.toList).length) :
    CommandBetween (commandIn pre mid post offset length) 7 pre mid post := by
  refine ⟨_, _, offset, length, ⟨rfl, rfl, _, rfl, rfl⟩, ⟨?_, [], [], rfl, ?_⟩, rfl, hpre, rfl,
    hmid⟩
  · exact (rfl : List.lookup "type" _ = _)
  · intro entity he
    contradiction

theorem passes_plain : Passes (commandIn "please " "/start" "" 7 6) 7 (bytesOf "/start") :=
  (passes_iff (commandBetween_commandIn (by decide) (by decide))).mpr
    ⟨(forall_isAscii_iff _).mpr (by decide), .inl ((forall_isAscii_iff _).mpr (by decide))⟩

/-- After a word with an accent the command is cut a byte too early. -/
theorem not_passes_accented :
    CommandBetween (commandIn "caf\u00e9 " "/start" "" 5 6) 7 "caf\u00e9 " "/start" "" ∧
      Passes (commandIn "caf\u00e9 " "/start" "" 5 6) 7 (bytesOf " /star") ∧
      ¬ Passes (commandIn "caf\u00e9 " "/start" "" 5 6) 7 (bytesOf "/start") := by
  have hbetween : CommandBetween (commandIn "caf\u00e9 " "/start" "" 5 6) 7 "caf\u00e9 "
      "/start" "" := commandBetween_commandIn (by decide) (by decide)
  refine ⟨hbetween, fun _ _ => rfl, not_passes_of_head hbetween (b := 47) rfl (by decide) ?_⟩
  rw [forall_isAscii_iff]
  decide

end LearnWords
