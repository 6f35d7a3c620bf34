import LearnWords.Json
import LearnWords.Lib.Incremental
import Mathlib.Data.List.TakeWhile

/-!
# LearnWords.JsonBody

`util::http::json_body`, the body of the requests and responses of the bot: a
`writer` that passes on the serialisation of a value in buffers of 32768 bytes,
and a `reader` that is fed a body as it arrives and asks the parser in the end
whether the value is complete.

The parser is never told that there is no more to come.  That is no matter for
a value that shows where it ends, and such values are read back however their
text is cut; a number might always go on, and is never complete
(`roundTrips_iff`).
-/

namespace LearnWords

open Incremental

/-- The error codes the two can set. -/
inductive BodyError where
  /-- `boost::json::error::incomplete`, set by `finish` -/
  | incomplete
  /-- what the parser objects to -/
  | parser (code : Nat)
deriving DecidableEq

/-- What `json_body` uses of the JSON library. -/
structure JsonLibrary where
  /-- `serialize`: a value as a whole -/
  serialize : Value → Bytes
  Serializer : Type
  serializer : Serializer
  /-- `serializer::reset` -/
  resetSerializer : Serializer → Value → Serializer
  /-- `serializer::read` into a buffer of a size -/
  read : Serializer → Nat → Bytes × Serializer
  /-- `serializer::done` -/
  serializerDone : Serializer → Bool
  StreamParser : Type
  streamParser : StreamParser
  /-- `stream_parser::reset` with a `monotonic_resource` of a size -/
  resetParser : StreamParser → UInt64 → StreamParser
  /-- `stream_parser::write_some`: how much was consumed, and the error code -/
  writeSome : StreamParser → Bytes → (Nat × Option BodyError) × StreamParser
  /-- `stream_parser::done` -/
  parserDone : StreamParser → Bool
  /-- `stream_parser::release` -/
  release : StreamParser → Value × StreamParser
  /-- `operator==` of values -/
  equal : Value → Value → Prop

variable {lib : JsonLibrary}

/-! ## the writer -/

/-- `json_body::writer`; what `get` returns is used before the next call, so
its buffer is not kept. -/
structure Writer (lib : JsonLibrary) where
  serializer : lib.Serializer

namespace Writer

/-- The constructor. -/
def make (body : Value) : Writer lib := ⟨lib.resetSerializer lib.serializer body⟩

/-- `init`. -/
def init (w : Writer lib) : Option BodyError × Writer lib := (none, w)

/-- `get`: the error code, and a buffer with the flag that there is more. -/
def get (w : Writer lib) : Option BodyError × Option (Bytes × Bool) × Writer lib :=
  let (len, serializer) := lib.read w.serializer 32768
  (none, some (len, !lib.serializerDone serializer), ⟨serializer⟩)

/-- A buffer, unless there is an error. -/
def next (w : Writer lib) : Option (Bytes × Bool) × Writer lib :=
  match w.get with
  | (none, buffers, w') => (buffers, w')
  | (some _, _, w') => (none, w')

end Writer

/-- The buffers of a body, if `n` calls of `get` are enough. -/
def writeBody (lib : JsonLibrary) (n : Nat) (body : Value) : Option (List Bytes) :=
  drain Writer.next n (Writer.make body : Writer lib).init.2

/-! ## the reader -/

/-- `json_body::reader`, with the body it refers to. -/
structure Reader (lib : JsonLibrary) where
  parser : lib.StreamParser
  body : Value

namespace Reader

/-- The constructor. -/
def make (body : Value) : Reader lib := ⟨lib.streamParser, body⟩

/-- `init`. -/
def init (r : Reader lib) (contentLength : Option UInt64) : Option BodyError × Reader lib :=
  match contentLength with
  | some n => (none, { r with parser := lib.resetParser r.parser n })
  | none => (none, r)

/-- `put`: how much was consumed, and the error code. -/
def put (r : Reader lib) (buffers : Bytes) : (Nat × Option BodyError) × Reader lib :=
  let (result, parser) := lib.writeSome r.parser buffers
  (result, { r with parser })

/-- `finish`. -/
def finish (r : Reader lib) : Option BodyError × Reader lib :=
  if lib.parserDone r.parser then
    let (body, parser) := lib.release r.parser
    (none, ⟨parser, body⟩)
  else (some .incomplete, r)

end Reader

/-- What the calls on a reader set and returned, and the body in the end. -/
structure Reading where
  init : Option BodyError
  puts : List (Nat × Option BodyError)
  finish : Option BodyError
  body : Value

/-- A fresh reader is fed the pieces of a text. -/
def readBody (lib : JsonLibrary) (body : Value) (contentLength : Option UInt64)
    (pieces : List Bytes) : Reading :=
  let (init, r) := (Reader.make body : Reader lib).init contentLength
  let (puts, r') := feed Reader.put r pieces
  let (finish, r'') := r'.finish
  { init, puts, finish, body := r''.body }

/-! ## the JSON library -/

namespace Value

/-- A number of any kind. -/
def isNumber : Value → Bool
  | .int64 _ | .uint64 _ | .double _ => true
  | _ => false

/-- An array or an object. -/
def isContainer : Value → Bool
  | .array _ | .object _ => true
  | _ => false

end Value

/-- White space between the tokens of a JSON text. -/
def isSpace (b : UInt8) : Bool := b = 0x20 || b = 0x09 || b = 0x0a || b = 0x0d

/-- There is more in these bytes than white space. -/
def Solid (bs : Bytes) : Prop := ∃ b ∈ bs, isSpace b = false

/-- The serializer has been reset to `v`, and has yielded `a` since. -/
inductive Yielded (lib : JsonLibrary) (v : Value) : lib.Serializer → Bytes → Prop
  | reset (s : lib.Serializer) : Yielded lib v (lib.resetSerializer s v) []
  | read {s : lib.Serializer} {a : Bytes} {n : Nat} (h : Yielded lib v s a) (hn : 0 < n) :
      Yielded lib v (lib.read s n).2 (a ++ (lib.read s n).1)

/-- The parser is fresh or has been reset, and has consumed `a` since. -/
inductive Consumed (lib : JsonLibrary) : lib.StreamParser → Bytes → Prop
  | make : Consumed lib lib.streamParser []
  | reset (p : lib.StreamParser) (n : UInt64) : Consumed lib (lib.resetParser p n) []
  | write {p : lib.StreamParser} {a b : Bytes} (h : Consumed lib p a)
      (hb : (lib.writeSome p b).1 = (b.length, none)) :
      Consumed lib (lib.writeSome p b).2 (a ++ b)

/-- What the library promises where `v` is concerned; `accepts` are the JSON
texts within the limits of its parser. -/
structure Documented (lib : JsonLibrary) (accepts : Bytes → Prop) (v : Value) : Prop where
  /-- the next at most `n` bytes of the serialisation -/
  read : ∀ {s a n}, Yielded lib v s a → 0 < n → (lib.read s n).1.length ≤ n ∧
    a ++ (lib.read s n).1 <+: lib.serialize v ∧ (a ≠ lib.serialize v → (lib.read s n).1 ≠ [])
  serializerDone : ∀ {s a}, Yielded lib v s a → (lib.serializerDone s = true ↔ a = lib.serialize v)
  /-- the serialisation is a text, and white space is no end of it -/
  text : accepts (lib.serialize v) ∧ ∃ a b, lib.serialize v = a ++ [b] ∧ isSpace b = false
  /-- a number goes on with a digit, a point or an exponent -/
  goesOn : v.isNumber = true → ∃ b, Solid b ∧ accepts (lib.serialize v ++ b)
  /-- the pieces of a text are consumed completely -/
  writeSome : ∀ {t p a b}, accepts t → Consumed lib p a → a ++ b <+: t →
    (lib.writeSome p b).1 = (b.length, none)
  /-- after a complete value nothing but white space is consumed -/
  stops : ∀ {p a b}, Consumed lib p a → lib.parserDone p = true → Solid b →
    (lib.writeSome p b).1.1 < b.length
  /-- a value that shows where it ends is complete there -/
  parserDone : ∀ {p}, v.isNumber = false → Consumed lib p (lib.serialize v) →
    lib.parserDone p = true
  release : ∀ {p}, Consumed lib p (lib.serialize v) → lib.parserDone p = true →
    lib.equal (lib.release p).1 v

/-! ## what a body is for -/

/-- The writer passes on the whole serialisation, and nothing else. -/
def WritesWhole (lib : JsonLibrary) (v : Value) : Prop :=
  ∃ n pieces, writeBody lib n v = some pieces ∧ pieces.flatten = lib.serialize v

/-- The reader reads the value, however its text is cut. -/
def ReadsBack (lib : JsonLibrary) (v : Value) : Prop :=
  ∀ body contentLength pieces, pieces.flatten = lib.serialize v →
    (readBody lib body contentLength pieces).init = none ∧
    (∀ r ∈ (readBody lib body contentLength pieces).puts, r.2 = none) ∧
    (readBody lib body contentLength pieces).finish = none ∧
    lib.equal (readBody lib body contentLength pieces).body v

/-- The reader notices that a part of an array or an object is not all of it,
and leaves the body alone. -/
def RefusesPart (lib : JsonLibrary) (v : Value) : Prop :=
  v.isContainer = true → ∀ body contentLength pieces, pieces.flatten <+: lib.serialize v →
    pieces.flatten ≠ lib.serialize v →
    (readBody lib body contentLength pieces).finish = some .incomplete ∧
    (readBody lib body contentLength pieces).body = body

/-- What `json_body` is for. -/
structure RoundTrips (lib : JsonLibrary) (v : Value) : Prop where
  writesWhole : WritesWhole lib v
  readsBack : ReadsBack lib v
  refusesPart : RefusesPart lib v

/-! ## writing -/

variable {accepts : Bytes → Prop} {v : Value}

/-- The buffers of a writer, and the flag that there are more. -/
theorem extends_next (h : Documented lib accepts v) :
    Extends Writer.next (fun w : Writer lib => Yielded lib v w.serializer) (lib.serialize v) := by
  intro w a hw
  have hn : 0 < 32768 := by decide
  obtain ⟨-, hpart, hne⟩ := h.read hw hn
  refine ⟨_, _, _, rfl, hw.read hn, hpart, ?_, hne⟩
  rw [Bool.not_eq_true', ← Bool.not_eq_true, h.serializerDone (hw.read hn)]

theorem writesWhole (h : Documented lib accepts v) : WritesWhole lib v := by
  have hstart : Yielded lib v (Writer.make v : Writer lib).init.2.serializer [] :=
    .reset lib.serializer
  obtain ⟨pieces, hpieces, hall⟩ := drain_eq (extends_next h) hstart
    (n := (lib.serialize v).length + 1) (by simp) List.nil_prefix
  exact ⟨_, pieces, hpieces, hall⟩

/-! ## reading -/

/-- A reader that has consumed `a`, and has not touched the body. -/
def Reader.Has (body : Value) (r : Reader lib) (a : Bytes) : Prop :=
  Consumed lib r.parser a ∧ r.body = body

theorem has_init (lib : JsonLibrary) (body : Value) (contentLength : Option UInt64) :
    ((Reader.make body : Reader lib).init contentLength).1 = none ∧
      ((Reader.make body : Reader lib).init contentLength).2.Has body [] := by
  cases contentLength with
  | none => exact ⟨rfl, .make, rfl⟩
  | some n => exact ⟨rfl, .reset _ n, rfl⟩

theorem has_put (h : Documented lib accepts v) {t : Bytes} (ht : accepts t) {body : Value}
    {r : Reader lib} {a b : Bytes} (hr : r.Has body a) (hpart : a ++ b <+: t) :
    (r.put b).1 = (b.length, none) ∧ (r.put b).2.Has body (a ++ b) := by
  have hb := h.writeSome ht hr.1 hpart
  exact ⟨hb, hr.1.write hb, hr.2⟩

/-- Up to `finish` nothing goes wrong, as long as what is fed is the beginning
of a text. -/
theorem readBody_eq (h : Documented lib accepts v) {t : Bytes} (ht : accepts t) (body : Value)
    (contentLength : Option UInt64) {pieces : List Bytes} (hpart : pieces.flatten <+: t) :
    ∃ r : Reader lib, r.Has body pieces.flatten ∧
      readBody lib body contentLength pieces =
        ⟨none, pieces.map fun b => (b.length, none), r.finish.1, r.finish.2.body⟩ := by
  obtain ⟨hinit, hstart⟩ := has_init lib body contentLength
  obtain ⟨hputs, hfed⟩ := feed_eq (fun _ _ _ => has_put h ht) hstart hpart
  cases hi : (Reader.make body : Reader lib).init contentLength with
  | mk init r =>
      rw [hi] at hinit hputs hfed
      cases hf : feed Reader.put r pieces with
      | mk puts r' =>
          rw [hf] at hputs hfed
          obtain rfl : init = none := hinit
          obtain rfl : puts = _ := hputs
          refine ⟨r', hfed, ?_⟩
          simp only [readBody, hi, hf]

/-- As long as more than white space is to come, the parser is not done. -/
theorem parserDone_of_part (h : Documented lib accepts v) {t : Bytes} (ht : accepts t)
    {p : lib.StreamParser} {a b : Bytes} (hp : Consumed lib p a) (hab : a ++ b = t)
    (hb : Solid b) : lib.parserDone p = false := by
  rw [← Bool.not_eq_true]
  intro hdone
  have hpart : a ++ b <+: t := by rw [hab]
  have hall := h.writeSome ht hp hpart
  have hlt := h.stops hp hdone hb
  rw [hall] at hlt
  exact absurd hlt (Nat.lt_irrefl _)

/-- What is left of a serialisation is more than white space. -/
theorem solid_of_part (h : Documented lib accepts v) {a b : Bytes}
    (hab : a ++ b = lib.serialize v) (hb : b ≠ []) : Solid b := by
  obtain ⟨-, front, last, hlast, hsolid⟩ := h.text
  refine ⟨b.getLast hb, b.getLast_mem hb, ?_⟩
  have hsame : (a ++ b).getLast? = (front ++ [last]).getLast? := by rw [hab, hlast]
  rw [List.getLast?_append_of_ne_nil _ hb, List.getLast?_concat,
    List.getLast?_eq_some_getLast hb, Option.some.injEq] at hsame
  rw [hsame]
  exact hsolid

theorem finish_of_done {r : Reader lib} (h : lib.parserDone r.parser = true) :
    r.finish.1 = none ∧ r.finish.2.body = (lib.release r.parser).1 := by
  rw [Reader.finish, if_pos h]
  exact ⟨rfl, rfl⟩

theorem finish_of_not_done {r : Reader lib} (h : lib.parserDone r.parser = false) :
    r.finish = (some .incomplete, r) := by
  rw [Reader.finish, if_neg (by rw [h]; decide)]

theorem refusesPart (h : Documented lib accepts v) : RefusesPart lib v := by
  intro _ body contentLength pieces hpart hne
  obtain ⟨r, ⟨hr, hbody⟩, hread⟩ := readBody_eq h h.text.1 body contentLength hpart
  obtain ⟨rest, hrest⟩ := hpart
  have hsolid : Solid rest := by
    refine solid_of_part h hrest fun hnil => hne ?_
    rw [← hrest, hnil, List.append_nil]
  have hdone := parserDone_of_part h h.text.1 hr hrest hsolid
  rw [hread, finish_of_not_done hdone]
  exact ⟨rfl, hbody⟩

theorem readsBack (h : Documented lib accepts v) (hv : v.isNumber = false) : ReadsBack lib v := by
  intro body contentLength pieces hall
  have hwhole : pieces.flatten <+: lib.serialize v := by rw [hall]
  obtain ⟨r, ⟨hr, -⟩, hread⟩ := readBody_eq h h.text.1 body contentLength hwhole
  rw [hall] at hr
  have hdone := h.parserDone hv hr
  obtain ⟨hfinish, hbody⟩ := finish_of_done hdone
  rw [hread, hfinish, hbody]
  refine ⟨rfl, fun x hx => ?_, rfl, h.release hr hdone⟩
  obtain ⟨b, -, rfl⟩ := List.mem_map.mp hx
  rfl

/-- A number is refused as if it were a part of one, whatever it is fed in. -/
theorem refused_of_number (h : Documented lib accepts v) (hv : v.isNumber = true) (body : Value)
    (contentLength : Option UInt64) {pieces : List Bytes}
    (hall : pieces.flatten = lib.serialize v) :
    (readBody lib body contentLength pieces).finish = some .incomplete ∧
      (readBody lib body contentLength pieces).body = body := by
  obtain ⟨more, hmore, ht⟩ := h.goesOn hv
  have hwhole : pieces.flatten <+: lib.serialize v := by rw [hall]
  obtain ⟨r, ⟨hr, hbody⟩, hread⟩ := readBody_eq h h.text.1 body contentLength hwhole
  rw [hall] at hr
  have hdone := parserDone_of_part h ht hr rfl hmore
  rw [hread, finish_of_not_done hdone]
  exact ⟨rfl, hbody⟩

/-- **Bodies**: a value is written as a whole, read back from its text however
the text is cut, and missed if a part of its text is missing, exactly if it is
not a number. -/
theorem roundTrips_iff (lib : JsonLibrary) (accepts : Bytes → Prop) (v : Value)
    (h : Documented lib accepts v) :
    RoundTrips lib v ↔ v.isNumber = false := by
  constructor
  · intro htrips
    rw [← Bool.not_eq_true]
    intro hv
    have hall : [lib.serialize v].flatten = lib.serialize v := List.flatten_singleton
    have hnone := (htrips.readsBack .null none _ hall).2.2.1
    rw [(refused_of_number h hv .null none hall).1] at hnone
    contradiction
  · intro hv
    exact ⟨writesWhole h, readsBack h hv, refusesPart h⟩

/-! ## an object, and a number -/

/-- Has all of the one text been consumed, and is it not a number? -/
def oneDone (v : Value) (text fed : Bytes) : Bool := decide (fed = text) && !v.isNumber

/-- How much is consumed; what follows a complete value is white space at most. -/
def oneTaken (v : Value) (text fed b : Bytes) : Nat :=
  if oneDone v text fed = true then (b.takeWhile isSpace).length else b.length

/-- A library that knows the one text `text`, of `v`. -/
def oneText (v : Value) (text : Bytes) : JsonLibrary where
  serialize _ := text
  Serializer := Bytes
  serializer := []
  resetSerializer _ _ := text
  read s n := (s.take n, s.drop n)
  serializerDone s := s.isEmpty
  StreamParser := Bytes
  streamParser := []
  resetParser _ _ := []
  writeSome p b := ((oneTaken v text p b, none), p ++ b.take (oneTaken v text p b))
  parserDone := oneDone v text
  release _ := (v, [])
  equal := Eq

/-- The texts it accepts; that of a number may go on with a digit. -/
def oneAccepts (v : Value) (text t : Bytes) : Prop :=
  t = text ∨ v.isNumber = true ∧ t = text ++ bytesOf "0"

section

variable {v : Value} {text : Bytes}

theorem yielded_oneText {s : (oneText v text).Serializer} {a : Bytes}
    (h : Yielded (oneText v text) v s a) : List.append a s = text := by
  induction h with
  | reset s => rfl
  | @read s a n h hn ih =>
      have hsplit : ∀ left : Bytes, (a ++ left.take n) ++ left.drop n = a ++ left := fun left => by
        rw [List.append_assoc, List.take_append_drop]
      exact (hsplit s).trans ih

theorem consumed_oneText {p : (oneText v text).StreamParser} {a : Bytes}
    (h : Consumed (oneText v text) p a) : p = a := by
  induction h with
  | make => rfl
  | reset p n => rfl
  | @write p a b h hb ih =>
      have hn : oneTaken v text p b = b.length := congrArg Prod.fst hb
      show List.append p (b.take (oneTaken v text p b)) = a ++ b
      rw [hn, List.take_length, ih]
      rfl

theorem read_oneText {a left : Bytes} (n : Nat) (hn : 0 < n) (h : a ++ left = text) :
    (left.take n).length ≤ n ∧ a ++ left.take n <+: text ∧ (a ≠ text → left.take n ≠ []) := by
  refine ⟨List.length_take_le n left, ?_, fun hne hnil => hne ?_⟩
  · rw [← h, List.prefix_append_right_inj]
    exact List.take_prefix n left
  · rw [List.take_eq_nil_iff] at hnil
    obtain rfl : left = [] := hnil.resolve_left (by omega)
    rw [← h, List.append_nil]

theorem isEmpty_oneText {a left : Bytes} (h : a ++ left = text) :
    left.isEmpty = true ↔ a = text := by
  rw [List.isEmpty_iff, ← h]
  constructor
  · rintro rfl
    exact (List.append_nil a).symm
  · intro hself
    exact List.self_eq_append_right.mp hself

theorem oneTaken_of_part {t a b : Bytes} (ht : oneAccepts v text t) (hpart : a ++ b <+: t) :
    oneTaken v text a b = b.length := by
  unfold oneTaken
  split
  · next hdone =>
      -- nothing is left of the text
      simp only [oneDone, Bool.and_eq_true, decide_eq_true_eq, Bool.not_eq_true'] at hdone
      obtain ⟨rfl, hv⟩ := hdone
      obtain rfl | ⟨hnumber, -⟩ := ht
      · have hle := hpart.length_le
        rw [List.length_append] at hle
        obtain rfl : b = [] := List.eq_nil_of_length_eq_zero (by omega)
        rfl
      · rw [hv] at hnumber
        contradiction
  · rfl

theorem oneTaken_lt {fed b : Bytes} (hdone : oneDone v text fed = true) (hb : Solid b) :
    oneTaken v text fed b < b.length := by
  rw [oneTaken, if_pos hdone]
  have hfront := List.takeWhile_prefix isSpace (l := b)
  by_contra hle
  have hall := List.takeWhile_eq_self_iff.mp (hfront.eq_of_length_le (not_lt.mp hle))
  obtain ⟨x, hx, hsolid⟩ := hb
  rw [hall x hx] at hsolid
  contradiction

end

theorem documented_oneText (v : Value) (front : Bytes) (last : UInt8)
    (hlast : isSpace last = false) :
    Documented (oneText v (front ++ [last])) (oneAccepts v (front ++ [last])) v where
  read h hn := read_oneText _ hn (yielded_oneText h)
  serializerDone h := isEmpty_oneText (yielded_oneText h)
  text := ⟨.inl rfl, front, last, rfl, hlast⟩
  goesOn hv := ⟨bytesOf "0", ⟨48, by decide, rfl⟩, .inr ⟨hv, rfl⟩⟩
  writeSome ht hp hpart := by
    obtain rfl := consumed_oneText hp
    exact congrArg (·, none) (oneTaken_of_part ht hpart)
  stops _ hdone hb := oneTaken_lt hdone hb
  parserDone {p} hv hp := by
    show oneDone v _ p = true
    rw [consumed_oneText hp, oneDone, hv]
    exact Bool.and_eq_true_iff.mpr ⟨decide_eq_true rfl, rfl⟩
  release _ _ := rfl

/-- An object with a member, and its text. -/
def okObject : Value := .object [("ok", .bool true)]

def okText : Bytes := bytesOf "\x7b\"ok\":true" ++ [125]

/-- It is read back when its text is cut inside of the member, and its first
piece alone is refused. -/
theorem roundTrips_object :
    RoundTrips (oneText okObject okText) okObject ∧
      (readBody (oneText okObject okText) .null none [bytesOf "\x7b\"ok\":tr", bytesOf "ue\x7d"]).finish =
        none ∧
      (readBody (oneText okObject okText) .null none [bytesOf "\x7b\"ok\":tr", bytesOf "ue\x7d"]).body =
        okObject ∧
      (readBody (oneText okObject okText) .null none [bytesOf "\x7b\"ok\":tr"]).finish =
        some .incomplete := by
  have htrips : RoundTrips (oneText okObject okText) okObject :=
    (roundTrips_iff _ _ _ (documented_oneText okObject (bytesOf "\x7b\"ok\":true") 125 rfl)).mpr rfl
  obtain ⟨-, -, hfinish, hbody⟩ :=
    htrips.readsBack .null none [bytesOf "\x7b\"ok\":tr", bytesOf "ue\x7d"] rfl
  have hpart := htrips.refusesPart rfl .null none [bytesOf "\x7b\"ok\":tr"] (by decide) (by decide)
  exact ⟨htrips, hfinish, hbody, hpart.1⟩

/-- The number 5, read in one piece, is not complete. -/
theorem not_roundTrips_number :
    Documented (oneText (.int64 5) (bytesOf "5")) (oneAccepts (.int64 5) (bytesOf "5")) (.int64 5) ∧
      (readBody (oneText (.int64 5) (bytesOf "5")) .null none [bytesOf "5"]).finish =
        some .incomplete ∧
      ¬ RoundTrips (oneText (.int64 5) (bytesOf "5")) (.int64 5) := by
  have hfinish : (readBody (oneText (.int64 5) (bytesOf "5")) .null none [bytesOf "5"]).finish =
      some .incomplete := rfl
  refine ⟨documented_oneText (.int64 5) [] 53 rfl, hfinish, fun htrips => ?_⟩
  rw [(htrips.readsBack .null none [bytesOf "5"] rfl).2.2.1] at hfinish
  contradiction

end LearnWords
