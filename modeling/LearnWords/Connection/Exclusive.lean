import Mathlib.Data.List.Sigma
import LearnWords.Connection
import LearnWords.Lib.Sole

/-!
# LearnWords.Connection.Exclusive

Runs in which no call begins while another one is pending.

At any time all calls but the last one are settled, and `Stage` says how far
the last one is: it is writing, its request is on the way, or its response is.
In each stage one party only can take a step, the server or that call
(`stage_step`), so the bytes on the stream always belong together.
-/

namespace LearnWords

open Machine Framing

variable {http : Http} {token : String}

/-- A call that completed, and was given what it is owed. -/
def Answered (http : Http) (served : List Served) (i : Nat) (c : Call) : Prop :=
  ∃ received result, c.phase = .done received result ∧
    ∀ r, result = .ok r → Owed http served i c received r

/-- What calls that completed have written, one after the other. -/
def history (cs : List Call) : List (Nat × UInt8) :=
  cs.zipIdx.flatMap fun p => tagged p.2 p.1.request

/-- All calls `cs` are settled; after them the bytes `part` were written. -/
structure SettledCalls (http : Http) (w : Connection) (cs : List Call) (part : List UInt8) : Prop where
  answered : ∀ i c, cs[i]? = some c → Answered http w.served i c
  written : w.written = history cs ++ tagged cs.length part
  kept : w.lost = []

/-- How far the last call is. -/
inductive Stage (http : Http) (w : Connection) : Prop
  /-- no call is pending -/
  | idle (hs : SettledCalls http w w.calls []) (hout : w.outbound = []) (hin : w.inbound = [])
  /-- the last call has written `sent` of its request -/
  | writing (cs : List Call) (m : http.requests.Message) (sent rest : List UInt8)
      (hcalls : w.calls = cs ++ [⟨m.val, .writing rest⟩]) (hm : m.val = sent ++ rest)
      (hrest : rest ≠ []) (hs : SettledCalls http w cs sent)
      (hout : w.outbound = tagged cs.length sent) (hin : w.inbound = [])
  /-- its request is on the way -/
  | sent (cs : List Call) (m : http.requests.Message)
      (hcalls : w.calls = cs ++ [⟨m.val, .reading []⟩]) (hs : SettledCalls http w cs m.val)
      (hout : w.outbound = tagged cs.length m.val) (hin : w.inbound = [])
  /-- its response is, and `got` of it has arrived -/
  | answering (cs : List Call) (m : http.requests.Message) (r : http.responses.Message)
      (got rest : List UInt8) (before : List Served)
      (hcalls : w.calls = cs ++ [⟨m.val, .reading (tagged before.length got)⟩])
      (hr : r.val = got ++ rest) (hrest : rest ≠ []) (hs : SettledCalls http w cs m.val)
      (hserved : w.served = before ++ [⟨tagged cs.length m.val, r.val⟩])
      (hout : w.outbound = []) (hin : w.inbound = tagged before.length rest)

/-! ## settled calls -/

/-- What a call is owed stays in the server's record. -/
theorem Answered.append {served : List Served} {i : Nat} {c : Call}
    (h : Answered http served i c) (more : List Served) : Answered http (served ++ more) i c := by
  obtain ⟨received, result, hphase, howed⟩ := h
  refine ⟨received, result, hphase, fun r hr => ?_⟩
  obtain ⟨k, entry, hk, hentry⟩ := howed r hr
  refine ⟨k, entry, ?_, hentry⟩
  rw [List.getElem?_append_left (List.getElem?_eq_some_iff.mp hk).1]
  exact hk

theorem Answered.finished {served : List Served} {i : Nat} {c : Call}
    (h : Answered http served i c) : c.finished = true := by
  obtain ⟨received, result, hphase, -⟩ := h
  simp [Call.finished, hphase]

/-- With every call settled none is pending. -/
theorem SettledCalls.finished {w : Connection} {cs : List Call} {part : List UInt8} {c : Call} {i : Nat}
    (hs : SettledCalls http w cs part) (hc : cs[i]? = some c) : c.finished = true :=
  (hs.answered i c hc).finished

/-- A pending call is the last one. -/
theorem SettledCalls.eq_last {w : Connection} {cs : List Call} {part : List UInt8} {last c : Call}
    {i : Nat} (hs : SettledCalls http w cs part) (hc : (cs ++ [last])[i]? = some c)
    (hpending : c.finished = false) : i = cs.length ∧ c = last := by
  rcases getElem?_concat_or hc with hc | ⟨hi, hlast⟩
  · rw [hs.finished hc] at hpending
    contradiction
  · exact ⟨hi, hlast.symm⟩

theorem history_concat (cs : List Call) (c : Call) :
    history (cs ++ [c]) = history cs ++ tagged cs.length c.request := by
  simp [history, List.zipIdx_append]

/-! ## one event -/

theorem set_last {cs : List Call} (c d : Call) : (cs ++ [c]).set cs.length d = cs ++ [d] := by
  simp [List.set_append_right]

/-- A new call begins to write. -/
theorem stage_start {w : Connection} {m : http.requests.Message}
    (hs : SettledCalls http w w.calls []) (hout : w.outbound = []) (hin : w.inbound = []) :
    Stage http { w with calls := w.calls ++ [⟨m.val, .writing m.val⟩] } :=
  .writing w.calls m [] m.val rfl rfl m.ne_nil ⟨hs.answered, hs.written, hs.kept⟩ hout hin

/-- The last call writes. -/
theorem stage_write {w : Connection} {cs : List Call} {m : http.requests.Message}
    {sent rest : List UInt8} {n : Nat}
    (hcalls : w.calls = cs ++ [⟨m.val, .writing rest⟩]) (hm : m.val = sent ++ rest)
    (hs : SettledCalls http w cs sent) (hout : w.outbound = tagged cs.length sent)
    (hin : w.inbound = []) :
    Stage http { w with
      calls := w.calls.set cs.length ⟨m.val, Connection.afterWrite (rest.drop n)⟩
      written := w.written ++ tagged cs.length (rest.take n)
      outbound := w.outbound ++ tagged cs.length (rest.take n) } := by
  have hsplit : m.val = (sent ++ rest.take n) ++ rest.drop n := by
    rw [hm, List.append_assoc, List.take_append_drop]
  have hwritten : w.written ++ tagged cs.length (rest.take n) =
      history cs ++ tagged cs.length (sent ++ rest.take n) := by
    rw [hs.written, tagged_append, List.append_assoc]
  have houtbound : w.outbound ++ tagged cs.length (rest.take n) =
      tagged cs.length (sent ++ rest.take n) := by rw [hout, tagged_append]
  rw [hcalls, set_last]
  by_cases hrest : rest.drop n = []
  · rw [hrest, List.append_nil] at hsplit
    rw [← hsplit] at hwritten houtbound
    rw [Connection.afterWrite, if_pos hrest]
    exact .sent cs m rfl ⟨hs.answered, hwritten, hs.kept⟩ houtbound hin
  · rw [Connection.afterWrite, if_neg hrest]
    exact .writing cs m _ _ rfl hsplit hrest ⟨hs.answered, hwritten, hs.kept⟩ houtbound hin

/-- The server reads a whole request, and responds. -/
theorem stage_serve {w : Connection} {cs : List Call} {m : http.requests.Message}
    {r : http.responses.Message} (hcalls : w.calls = cs ++ [⟨m.val, .reading []⟩])
    (hs : SettledCalls http w cs m.val) (hout : w.outbound = tagged cs.length m.val)
    (hin : w.inbound = []) :
    Stage http { w with
      outbound := w.outbound.drop m.val.length
      inbound := w.inbound ++ tagged w.served.length r.val
      served := w.served ++ [⟨w.outbound.take m.val.length, r.val⟩] } := by
  refine .answering cs m r [] r.val w.served hcalls rfl r.ne_nil
    ⟨fun i c hc => (hs.answered i c hc).append _, hs.written, hs.kept⟩ ?_ ?_ ?_
  · simp [hout]
  · simp [hout]
  · simp [hin]

/-- The last call reads of its response. -/
theorem stage_read {w : Connection} {cs : List Call} {m : http.requests.Message}
    {r : http.responses.Message} {got rest : List UInt8} {before : List Served} {n : Nat}
    (hcalls : w.calls = cs ++ [⟨m.val, .reading (tagged before.length got)⟩])
    (hr : r.val = got ++ rest) (hs : SettledCalls http w cs m.val)
    (hserved : w.served = before ++ [⟨tagged cs.length m.val, r.val⟩])
    (hout : w.outbound = []) (hin : w.inbound = tagged before.length rest) :
    let after := Connection.afterRead http (tagged before.length got ++ w.inbound.take n)
    Stage http { w with
      calls := w.calls.set cs.length ⟨m.val, after.1⟩
      inbound := w.inbound.drop n
      lost := w.lost ++ after.2 } := by
  have hsplit : r.val = (got ++ rest.take n) ++ rest.drop n := by
    rw [hr, List.append_assoc, List.take_append_drop]
  have hbuffer : tagged before.length got ++ w.inbound.take n =
      tagged before.length (got ++ rest.take n) := by
    rw [hin, tagged_append, tagged_take]
  simp only [hbuffer, hcalls, set_last, Connection.afterRead, untagged_tagged]
  by_cases hrest : rest.drop n = []
  · -- the response is complete, and nothing follows it
    rw [hrest, List.append_nil] at hsplit
    rw [← hsplit, r.property]
    have hall : (tagged before.length r.val).take r.val.length = tagged before.length r.val := by
      simp
    have hnone : (tagged before.length r.val).drop r.val.length = [] := by simp
    simp only [hall, hnone, untagged_tagged]
    refine .idle ⟨fun i c hc => ?_, ?_, by simp [hs.kept]⟩ hout (by simp [hin, hrest])
    · rcases getElem?_concat_or hc with hc | ⟨rfl, rfl⟩
      · exact hs.answered i c hc
      · refine ⟨_, _, rfl, fun res hres => ⟨before.length, ⟨tagged cs.length m.val, r.val⟩,
          by simp [hserved], rfl, rfl, ?_⟩⟩
        cases hp : processResponse (http.body r.val) with
        | ok v => simpa [hp, Except.mapError] using hres
        | error e => simp [hp, Except.mapError] at hres
    · rw [hs.written, history_concat]
      simp
  · -- part of the response is missing
    rw [http.responses.scan_part (hsplit ▸ r.property) hrest]
    refine .answering cs m r _ _ before rfl hsplit hrest ⟨hs.answered, hs.written, ?_⟩ hserved hout ?_
    · simp [hs.kept]
    · simp [hin]

/-! ## who can take a step -/

/-- A call that can write is the last one. -/
theorem Stage.writing_of {w : Connection} {i : Nat} {request rest : List UInt8}
    (hw : Stage http w) (hc : w.calls[i]? = some ⟨request, .writing rest⟩) :
    ∃ (cs : List Call) (m : http.requests.Message) (sent : List UInt8), i = cs.length ∧
      request = m.val ∧ w.calls = cs ++ [⟨m.val, .writing rest⟩] ∧ m.val = sent ++ rest ∧
      SettledCalls http w cs sent ∧ w.outbound = tagged cs.length sent ∧ w.inbound = [] := by
  cases hw with
  | idle hs => exact absurd (hs.finished hc) (by simp [Call.finished])
  | writing cs m sent rest' hcalls hm _ hs hout hin =>
      rw [hcalls] at hc
      obtain ⟨rfl, hcall⟩ := hs.eq_last hc rfl
      simp only [Call.mk.injEq, CallPhase.writing.injEq] at hcall
      obtain ⟨rfl, rfl⟩ := hcall
      exact ⟨cs, m, sent, rfl, rfl, hcalls, hm, hs, hout, hin⟩
  | sent cs m hcalls hs | answering cs m r got rest before hcalls _ _ hs =>
      rw [hcalls] at hc
      obtain ⟨-, hcall⟩ := hs.eq_last hc rfl
      simp at hcall

/-- The server can respond only to the request of the last call, once it is
whole. -/
theorem Stage.sent_of {w : Connection} {n : Nat} (hw : Stage http w)
    (hscan : http.requests.scan (untagged w.outbound) = .complete n) :
    ∃ (cs : List Call) (m : http.requests.Message), n = m.val.length ∧
      w.calls = cs ++ [⟨m.val, .reading []⟩] ∧ SettledCalls http w cs m.val ∧
      w.outbound = tagged cs.length m.val ∧ w.inbound = [] := by
  cases hw with
  | idle hs hout | answering _ _ _ _ _ _ _ _ _ _ _ hout =>
      rw [hout] at hscan
      simp [untagged, http.requests.scan_nil] at hscan
  | writing cs m sent rest hcalls hm hrest hs hout hin =>
      rw [hout, untagged_tagged, http.requests.scan_part (hm ▸ m.property) hrest] at hscan
      contradiction
  | sent cs m hcalls hs hout hin =>
      rw [hout, untagged_tagged, m.property, Scan.complete.injEq] at hscan
      exact ⟨cs, m, hscan.symm, hcalls, hs, hout, hin⟩

/-- A call that can read is the last one, and what it reads is its response. -/
theorem Stage.answering_of {w : Connection} {i : Nat} {request : List UInt8}
    {buffer : List (Nat × UInt8)} (hw : Stage http w)
    (hc : w.calls[i]? = some ⟨request, .reading buffer⟩) (hne : w.inbound ≠ []) :
    ∃ (cs : List Call) (m : http.requests.Message) (r : http.responses.Message)
      (got rest : List UInt8) (before : List Served), i = cs.length ∧ request = m.val ∧
      buffer = tagged before.length got ∧
      w.calls = cs ++ [⟨m.val, .reading (tagged before.length got)⟩] ∧ r.val = got ++ rest ∧
      SettledCalls http w cs m.val ∧ w.served = before ++ [⟨tagged cs.length m.val, r.val⟩] ∧
      w.outbound = [] ∧ w.inbound = tagged before.length rest := by
  cases hw with
  | idle _ _ hin | writing _ _ _ _ _ _ _ _ _ hin | sent _ _ _ _ _ hin => exact absurd hin hne
  | answering cs m r got rest before hcalls hr _ hs hserved hout hin =>
      rw [hcalls] at hc
      obtain ⟨rfl, hcall⟩ := hs.eq_last hc rfl
      simp only [Call.mk.injEq, CallPhase.reading.injEq] at hcall
      obtain ⟨rfl, rfl⟩ := hcall
      exact ⟨cs, m, r, got, rest, before, rfl, rfl, rfl, hcalls, hr, hs, hserved, hout, hin⟩

/-- With no call pending the connection is idle. -/
theorem Stage.idle_of {w : Connection} (hw : Stage http w)
    (hall : ∀ c ∈ w.calls, c.finished = true) :
    SettledCalls http w w.calls [] ∧ w.outbound = [] ∧ w.inbound = [] := by
  cases hw with
  | idle hs hout hin => exact ⟨hs, hout, hin⟩
  | writing cs m sent rest hcalls | sent cs m hcalls | answering cs m r got rest before hcalls =>
      -- the last call is pending
      have hlast := hall ⟨m.val, _⟩ (by rw [hcalls]; exact List.mem_concat_self)
      simp [Call.finished] at hlast

/-- Every event of an exclusive run leads from a stage to a stage. -/
theorem stage_step {w w' : Connection} {e : ConnectionEvent http} (hw : Stage http w)
    (he : Exclusive w e) (h : w.step http token e = some w') : Stage http w' := by
  cases e with
  | start method json =>
      obtain ⟨m, rfl⟩ := Connection.step_start h
      obtain ⟨hs, hout, hin⟩ := hw.idle_of he
      exact stage_start hs hout hin
  | write i n =>
      obtain ⟨request, rest, hc, -, -, rfl⟩ := Connection.step_write h
      obtain ⟨cs, m, sent, rfl, rfl, hcalls, hm, hs, hout, hin⟩ := hw.writing_of hc
      exact stage_write hcalls hm hs hout hin
  | serve response =>
      obtain ⟨n, hscan, rfl⟩ := Connection.step_serve h
      obtain ⟨cs, m, rfl, hcalls, hs, hout, hin⟩ := hw.sent_of hscan
      exact stage_serve hcalls hs hout hin
  | read i n =>
      obtain ⟨request, buffer, hc, hpos, hle, rfl⟩ := Connection.step_read h
      have hne : w.inbound ≠ [] := List.ne_nil_of_length_pos (hpos.trans_le hle)
      obtain ⟨cs, m, r, got, rest, before, rfl, rfl, rfl, hcalls, hr, hs, hserved, hout, hin⟩ :=
        hw.answering_of hc hne
      exact stage_read hcalls hr hs hserved hout hin

/-! ## what a stage guarantees -/

theorem Answered.written {served : List Served} {i : Nat} {c : Call}
    (h : Answered http served i c) : c.written = c.request := by
  obtain ⟨received, result, hphase, -⟩ := h
  simp [Call.written, hphase]

/-- Settled calls have written their whole requests. -/
theorem SettledCalls.flatMap_written {w : Connection} {cs : List Call} {part : List UInt8}
    (hs : SettledCalls http w cs part) :
    cs.zipIdx.flatMap (fun p => tagged p.2 p.1.written) = history cs := by
  unfold history
  refine List.flatMap_congr fun p hp => ?_
  rw [(hs.answered p.2 p.1 (List.mem_zipIdx_iff_getElem?.mp hp)).written]

/-- All calls but the last one are settled: the requests are not mixed. -/
theorem SettledCalls.unmixed {w : Connection} {cs : List Call} {last : Call}
    (hs : SettledCalls http w cs last.written) (hcalls : w.calls = cs ++ [last]) : Unmixed w := by
  have hzip : w.calls.zipIdx = cs.zipIdx ++ [(last, cs.length)] := by
    rw [hcalls, List.zipIdx_append]
    simp
  refine ⟨w.calls.zipIdx, List.nodup_zipIdx_map_snd _, fun p hp => ?_, ?_, fun p hp => ?_⟩
  · exact List.mem_zipIdx_iff_getElem?.mp hp
  · rw [hzip, List.flatMap_append, hs.flatMap_written, hs.written]
    simp
  · rw [hzip, List.dropLast_concat] at hp
    exact (hs.answered p.2 p.1 (List.mem_zipIdx_iff_getElem?.mp hp)).written

/-- The last call is not done: the calls that are have got what they are
owed. -/
theorem SettledCalls.owed {w : Connection} {cs : List Call} {part : List UInt8} {last : Call}
    (hs : SettledCalls http w cs part) (hcalls : w.calls = cs ++ [last])
    (hlast : last.finished = false) :
    ∀ i c received r, w.calls[i]? = some c → c.phase = .done received (.ok r) →
      Owed http w.served i c received r := by
  intro i c received r hc hphase
  rw [hcalls] at hc
  rcases getElem?_concat_or hc with hc | ⟨rfl, rfl⟩
  · obtain ⟨received', result, hphase', howed⟩ := hs.answered i c hc
    rw [hphase, CallPhase.done.injEq] at hphase'
    obtain ⟨rfl, rfl⟩ := hphase'
    exact howed r rfl
  · simp [Call.finished, hphase] at hlast

/-- In every stage the connection is faithful. -/
theorem faithful_of_stage {w : Connection} (hw : Stage http w) : Faithful http w := by
  cases hw with
  | idle hs hout hin =>
      refine ⟨⟨w.calls.zipIdx, List.nodup_zipIdx_map_snd _, fun p hp => ?_, ?_, fun p hp => ?_⟩,
        fun i c received r hc hphase => ?_, hs.kept⟩
      · exact List.mem_zipIdx_iff_getElem?.mp hp
      · rw [hs.flatMap_written, hs.written]
        simp
      · have hmem := List.dropLast_subset _ hp
        exact (hs.answered p.2 p.1 (List.mem_zipIdx_iff_getElem?.mp hmem)).written
      · obtain ⟨received', result, hphase', howed⟩ := hs.answered i c hc
        rw [hphase, CallPhase.done.injEq] at hphase'
        obtain ⟨rfl, rfl⟩ := hphase'
        exact howed r rfl
  | writing cs m sent rest hcalls hm hrest hs hout hin =>
      have hwritten : (⟨m.val, .writing rest⟩ : Call).written = sent := by
        simp [Call.written, hm]
      exact ⟨SettledCalls.unmixed (hwritten.symm ▸ hs) hcalls, hs.owed hcalls rfl, hs.kept⟩
  | sent cs m hcalls hs hout hin => exact ⟨hs.unmixed hcalls, hs.owed hcalls rfl, hs.kept⟩
  | answering cs m r got rest before hcalls hr hrest hs hserved hout hin =>
      exact ⟨hs.unmixed hcalls, hs.owed hcalls rfl, hs.kept⟩

/-- **Exclusive calls**: as long as no call begins while another one is
pending, requests are not mixed on the stream, every call that completes
without an error code gets the response the server sent to its request, and no
byte of a response is lost. -/
theorem faithful_of_run (http : Http) (token : String) (es : List (ConnectionEvent http))
    (w : Connection) (h : Run (Connection.step http token) Exclusive Connection.make es w) :
    Faithful http w := by
  have hstart : Stage http Connection.make :=
    .idle ⟨fun i c hc => by simp [Connection.make] at hc, rfl, rfl⟩ rfl rfl
  exact faithful_of_stage (h.invariant (fun _ _ _ hw he hstep => stage_step hw he hstep) hstart)

/-! ## two requests of the bot -/

/-- `getUpdates`, as the bot with the token `1:a` writes it. -/
def getUpdatesRequest : Bytes := bytesOf ("POST /bot1:a/getUpdates HTTP/1.1\r\n" ++
  "Host: api.telegram.org\r\nContent-Type: application/json\r\nContent-Length: 27\r\n\r\n" ++
  "\x7b\"limit\":100,\"timeout\":100\x7d")

/-- `sendMessage`, likewise. -/
def sendMessageRequest : Bytes := bytesOf ("POST /bot1:a/sendMessage HTTP/1.1\r\n" ++
  "Host: api.telegram.org\r\nContent-Type: application/json\r\nContent-Length: 33\r\n\r\n" ++
  "\x7b\"chat_id\":7,\"text\":\"Greetings!\"\x7d")

/-- The response to `getUpdates` when there are none. -/
def noUpdatesResponse : Bytes := bytesOf ("HTTP/1.1 200 OK\r\nContent-Length: 23\r\n\r\n" ++
  "\x7b\"ok\":true,\"result\":[]\x7d")

/-- The response to `sendMessage`. -/
def messageResponse : Bytes := bytesOf ("HTTP/1.1 200 OK\r\nContent-Length: 37\r\n\r\n" ++
  "\x7b\"ok\":true,\"result\":\x7b\"message_id\":1\x7d\x7d")

/-- The HTTP library on these requests and responses. -/
def botApi : Http where
  requests := ofMessages [getUpdatesRequest, sendMessageRequest] (by decide +kernel)
    (by unfold Unambiguous; decide +kernel)
  responses := ofMessages [noUpdatesResponse, messageResponse] (by decide +kernel)
    (by unfold Unambiguous; decide +kernel)
  serialize request :=
    if request.target = "/bot1:a/getUpdates" then ⟨getUpdatesRequest, by decide +kernel⟩
    else ⟨sendMessageRequest, by decide +kernel⟩
  body response :=
    if response = noUpdatesResponse then .object [("ok", .bool true), ("result", .array [])]
    else .object [("ok", .bool true), ("result", .object [("message_id", .int64 1)])]

/-- A response to a request. -/
def botResponse (updates : Bool) : botApi.responses.Message :=
  if updates then ⟨noUpdatesResponse, by decide +kernel⟩ else ⟨messageResponse, by decide +kernel⟩

/-- Did the call complete without an error code? -/
def Call.succeeded (c : Call) : Bool :=
  match c.phase with
  | .done _ (.ok _) => true
  | _ => false

/-- A connection is not faithful if a call completed without an error code
though the server responded to other calls only. -/
theorem not_faithful_of_served {w : Connection} {i : Nat} {c : Call} (hc : w.calls[i]? = some c)
    (hsucceeded : c.succeeded = true) (hne : c.request ≠ [])
    (hserved : ∀ entry ∈ w.served, ∀ b ∈ entry.request, b.1 ≠ i) : ¬ Faithful http w := by
  intro h
  obtain ⟨received, r, hphase⟩ : ∃ received r, c.phase = .done received (.ok r) := by
    unfold Call.succeeded at hsucceeded
    split at hsucceeded
    · next received r hphase => exact ⟨received, r, hphase⟩
    · contradiction
  obtain ⟨k, entry, hk, hrequest, -, -⟩ := h.answered i c received r hc hphase
  obtain ⟨b, bs, hb⟩ := List.exists_cons_of_ne_nil hne
  have hmem : (i, b) ∈ entry.request := by rw [hrequest, hb]; simp [tagged]
  exact hserved entry (List.mem_of_getElem? hk) (i, b) hmem rfl

/-- While `getUpdates` is pending a message is sent; the server responds to
`getUpdates`, and the call of `sendMessage` reads that response. -/
def overlapping : List (ConnectionEvent botApi) :=
  [.start "getUpdates" [("limit", .int64 100), ("timeout", .int64 100)],
    .write 0 getUpdatesRequest.length,
    .start "sendMessage" [("chat_id", .uint64 7), ("text", .string "Greetings!")],
    .write 1 sendMessageRequest.length, .serve (botResponse true), .read 1 noUpdatesResponse.length]

/-- The bot's own calls overlap, and one gets the response of another. -/
theorem not_faithful_overlapping :
    ∃ w, runs (Connection.step botApi "1:a") Connection.make overlapping = some w ∧
      ¬ Faithful botApi w := by
  have hrun : (runs (Connection.step botApi "1:a") Connection.make overlapping).any (fun w =>
      (w.calls[1]?).any (fun c => c.succeeded && !c.request.isEmpty) &&
        w.served.all fun entry => entry.request.all fun b => b.1 ≠ 1) = true := by
    decide +kernel
  obtain ⟨w, hw, hcheck⟩ := (Option.any_eq_true _ _).mp hrun
  obtain ⟨hcall, hserved⟩ := Bool.and_eq_true_iff.mp hcheck
  obtain ⟨c, hc, hc'⟩ := (Option.any_eq_true _ _).mp hcall
  obtain ⟨hsucceeded, hne⟩ := Bool.and_eq_true_iff.mp hc'
  refine ⟨w, hw, not_faithful_of_served hc hsucceeded (by simpa using hne) ?_⟩
  simpa using hserved

/-- Two calls one after the other. -/
def successive : List (ConnectionEvent botApi) :=
  [.start "getUpdates" [("limit", .int64 100), ("timeout", .int64 100)], .write 0 5,
    .write 0 (getUpdatesRequest.length - 5), .serve (botResponse true), .read 0 20,
    .read 0 (noUpdatesResponse.length - 20),
    .start "sendMessage" [("chat_id", .uint64 7), ("text", .string "Greetings!")],
    .write 1 sendMessageRequest.length, .serve (botResponse false), .read 1 messageResponse.length]

theorem faithful_successive :
    ∃ w, runs (Connection.step botApi "1:a") Connection.make successive = some w ∧
      Faithful botApi w := by
  have hrun : (runs (guarded (Connection.step botApi "1:a") Exclusive) Connection.make
      successive).isSome = true := by decide +kernel
  obtain ⟨w, hw⟩ := Option.isSome_iff_exists.mp hrun
  have hexclusive := run_of_guarded hw
  exact ⟨w, hexclusive.runs, faithful_of_run botApi "1:a" successive w hexclusive⟩

end LearnWords
