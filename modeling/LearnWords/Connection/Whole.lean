import Mathlib.Data.List.Nodup
import LearnWords.Connection.Exclusive
import LearnWords.Lib.Sole

/-!
# LearnWords.Connection.Whole

Runs in which calls overlap, but no message is torn: no call writes while
another one is in the middle of its request, none reads while another one is in
the middle of a response, and none reads beyond the response it is reading.

The bot's calls do overlap, the long poll being almost always pending.  In such
a run the server still gets whole requests, each of them once, and every call
that completes has got one whole response (`whole_of_run`).  It may be the
response to another call; nothing else can go wrong.
-/

namespace LearnWords

open Machine Framing

variable {http : Http} {token : String}

/-! ## messages under way -/

/-- What call `i` has written of a request that is not whole yet. -/
def outgoing (i : Nat) (c : Call) : List (Nat × UInt8) :=
  match c.phase with
  | .writing _ => tagged i c.written
  | _ => []

/-- What a call has read of a response that is not whole yet. -/
def incoming (_ : Nat) (c : Call) : List (Nat × UInt8) :=
  match c.phase with
  | .reading buffer => buffer
  | _ => []

/-- No message is torn. -/
def Untorn (w : Connection) : ConnectionEvent http → Prop
  | .write i _ => ∀ p ∈ w.calls.zipIdx, p.2 ≠ i → outgoing p.2 p.1 = []
  | .read i n => (∀ p ∈ w.calls.zipIdx, p.2 ≠ i → incoming p.2 p.1 = []) ∧
      ∀ b ∈ w.inbound.take n, ∀ b' ∈ w.inbound.take n, b.1 = b'.1
  | _ => True

instance (w : Connection) : (e : ConnectionEvent http) → Decidable (Untorn w e)
  | .write i _ => inferInstanceAs (Decidable (∀ p ∈ w.calls.zipIdx, p.2 ≠ i → outgoing p.2 p.1 = []))
  | .read i n => inferInstanceAs (Decidable
      ((∀ p ∈ w.calls.zipIdx, p.2 ≠ i → incoming p.2 p.1 = []) ∧
        ∀ b ∈ w.inbound.take n, ∀ b' ∈ w.inbound.take n, b.1 = b'.1))
  | .start _ _ | .serve _ => isTrue trivial

/-- The request of call `i`. -/
def Connection.request (w : Connection) (i : Nat) : List UInt8 :=
  (w.calls[i]?.map Call.request).getD []

/-- The calls `order` have written their requests, the first of which were
served. -/
structure Requests (http : Http) (w : Connection) (order : List Nat) : Prop where
  nodup : order.Nodup
  made : ∀ i ∈ order, i < w.calls.length
  message : ∀ c ∈ w.calls, ∃ m : http.requests.Message, c.request = m.val
  writing : ∀ (i : Nat) request rest, w.calls[i]? = some ⟨request, .writing rest⟩ →
    i ∉ order ∧ rest ≠ [] ∧ ∃ sent, request = sent ++ rest
  served : w.served.map Served.request =
    (order.take w.served.length).map fun i => tagged i (w.request i)
  outbound : ∃ part, Sole outgoing w.calls part ∧ w.outbound =
    (order.drop w.served.length).flatMap (fun i => tagged i (w.request i)) ++ part

/-- The bytes of responses, from number `k` on. -/
def responseBytes (k : Nat) : List Served → List (Nat × UInt8)
  | [] => []
  | e :: es => tagged k e.response ++ responseBytes (k + 1) es

/-- The first `taken` responses have been read, and `got` of the next one. -/
structure Responses (http : Http) (w : Connection) (taken : Nat) (got : List UInt8) : Prop where
  taken_le : taken ≤ w.served.length
  message : ∀ e ∈ w.served, ∃ m : http.responses.Message, e.response = m.val
  inbound : tagged taken got ++ w.inbound = responseBytes taken (w.served.drop taken)
  part : Sole incoming w.calls (tagged taken got)
  missing : got = [] ∨ ∃ e rest, w.served[taken]? = some e ∧ e.response = got ++ rest ∧ rest ≠ []
  done : ∀ (i : Nat) request received result, w.calls[i]? = some ⟨request, .done received result⟩ →
    ∃ (k : Nat) (e : Served), k < taken ∧ w.served[k]? = some e ∧ received = tagged k e.response ∧
      result = (processResponse (http.body e.response)).mapError .json
  once : ∀ (i j : Nat) c d received r r', w.calls[i]? = some ⟨c, .done received r⟩ →
    w.calls[j]? = some ⟨d, .done received r'⟩ → i = j
  kept : w.lost = []

/-! ## requests -/

theorem request_append {w : Connection} {c : Call} {i : Nat} (hi : i < w.calls.length) :
    Connection.request { w with calls := w.calls ++ [c] } i = w.request i := by
  rw [Connection.request, Connection.request, List.getElem?_append_left hi]

/-- Going on, a call keeps its request. -/
theorem request_set {w w' : Connection} {i : Nat} {c d : Call} (hi : w.calls[i]? = some c)
    (hcalls : w'.calls = w.calls.set i d) (hd : d.request = c.request) : w'.request = w.request := by
  funext j
  rw [Connection.request, Connection.request, hcalls]
  by_cases hij : i = j
  · subst hij
    rw [List.getElem?_set_self (List.getElem?_eq_some_iff.mp hi).1, hi, Option.map_some,
      Option.map_some, hd]
  · rw [List.getElem?_set_ne hij]

theorem request_of {w : Connection} {i : Nat} {c : Call} (hi : w.calls[i]? = some c) :
    w.request i = c.request := by
  rw [Connection.request, hi]
  rfl

/-- A call begins. -/
theorem requests_start {w : Connection} {order : List Nat} (hw : Requests http w order)
    (m : http.requests.Message) :
    Requests http { w with calls := w.calls ++ [⟨m.val, .writing m.val⟩] } order := by
  have hsame : ∀ l : List Nat, (∀ i ∈ l, i ∈ order) → ∀ i ∈ l,
      tagged i (Connection.request { w with calls := w.calls ++ [⟨m.val, .writing m.val⟩] } i) =
        tagged i (w.request i) := by
    intro l hl i hi
    rw [request_append (hw.made i (hl i hi))]
  obtain ⟨part, hpart, hout⟩ := hw.outbound
  refine ⟨hw.nodup, fun i hi => ?_, fun c hc => ?_, fun i request rest hc => ?_, ?_, part,
    hpart.append (by simp [outgoing, Call.written]), ?_⟩
  · have hlt := hw.made i hi
    rw [List.length_append]
    omega
  · rcases List.mem_append.mp hc with hc | hc
    · exact hw.message c hc
    · rw [List.mem_singleton.mp hc]
      exact ⟨m, rfl⟩
  · rcases getElem?_concat_or hc with hc | ⟨rfl, hnew⟩
    · exact hw.writing i request rest hc
    · rw [Call.mk.injEq, CallPhase.writing.injEq] at hnew
      obtain ⟨rfl, rfl⟩ := hnew
      exact ⟨fun hmem => absurd (hw.made _ hmem) (Nat.lt_irrefl _), m.ne_nil, [], rfl⟩
  · show w.served.map Served.request = _
    rw [hw.served]
    exact (List.map_congr_left (hsame _ fun i => List.mem_of_mem_take)).symm
  · show w.outbound = _
    rw [hout]
    congr 1
    exact (List.flatMap_congr (hsame _ fun i => List.mem_of_mem_drop)).symm

/-- A call goes on that is not writing, or not any more. -/
theorem Requests.set {w : Connection} {order : List Nat} {i : Nat} {c : Call}
    (hw : Requests http w order) (hi : w.calls[i]? = some c) (phase : CallPhase)
    (hwriting : ∀ rest, phase = .writing rest →
      i ∉ order ∧ rest ≠ [] ∧ ∃ sent, c.request = sent ++ rest) :
    (∀ j ∈ order, j < (w.calls.set i ⟨c.request, phase⟩).length) ∧
    (∀ d ∈ w.calls.set i ⟨c.request, phase⟩, ∃ m : http.requests.Message, d.request = m.val) ∧
    (∀ j request rest, (w.calls.set i ⟨c.request, phase⟩)[j]? = some ⟨request, .writing rest⟩ →
      j ∉ order ∧ rest ≠ [] ∧ ∃ sent, request = sent ++ rest) := by
  refine ⟨fun j hj => ?_, fun d hd => ?_, fun j request rest hj => ?_⟩
  · rw [List.length_set]
    exact hw.made j hj
  · rcases List.mem_or_eq_of_mem_set hd with hd | rfl
    · exact hw.message d hd
    · exact hw.message c (List.mem_of_getElem? hi)
  · rcases getElem?_set_or hi hj with ⟨rfl, hnew⟩ | ⟨-, hj⟩
    · rw [Call.mk.injEq] at hnew
      obtain ⟨rfl, hphase⟩ := hnew
      exact hwriting rest hphase.symm
    · exact hw.writing j request rest hj

/-- What a call in the middle of its request has written. -/
theorem outgoing_writing {i : Nat} {sent rest : List UInt8} :
    outgoing i ⟨sent ++ rest, .writing rest⟩ = tagged i sent := by
  simp [outgoing, Call.written]

/-- What was served was written before. -/
theorem Requests.served_le {w : Connection} {order : List Nat} (hw : Requests http w order) :
    w.served.length ≤ order.length := by
  have hlen := congrArg List.length hw.served
  rw [List.length_map, List.length_map, List.length_take] at hlen
  omega

/-- A call writes the end of its request. -/
theorem requests_written {w w' : Connection} {order : List Nat} {i : Nat} {sent rest : List UInt8}
    (hw : Requests http w order) (hi : w.calls[i]? = some ⟨sent ++ rest, .writing rest⟩)
    (hothers : ∀ j c, w.calls[j]? = some c → j ≠ i → outgoing j c = [])
    (hcalls : w'.calls = w.calls.set i ⟨sent ++ rest, .reading []⟩) (hserved : w'.served = w.served)
    (hout : w'.outbound = w.outbound ++ tagged i rest) : Requests http w' (order ++ [i]) := by
  have hlt := (List.getElem?_eq_some_iff.mp hi).1
  have hsame : w'.request = w.request := request_set hi hcalls rfl
  obtain ⟨hmade, hmessage, hwriting⟩ := hw.set hi (.reading []) (fun _ h => by cases h)
  rw [← hcalls] at hmade hmessage hwriting
  obtain ⟨part, hpart, hbefore⟩ := hw.outbound
  rw [hpart.eq_of_others hi hothers, outgoing_writing] at hbefore
  have hnew := (hw.writing i _ rest hi).1
  refine ⟨?_, fun j hj => ?_, hmessage, fun j request' rest' hj => ?_, ?_, [], ?_, ?_⟩
  · exact hw.nodup.append (List.nodup_singleton i) (List.disjoint_singleton.mpr hnew)
  · rcases List.mem_append.mp hj with hj | hj
    · exact hmade j hj
    · rw [List.mem_singleton.mp hj, hcalls, List.length_set]
      exact hlt
  · obtain ⟨hj', hrest⟩ := hwriting j request' rest' hj
    refine ⟨fun hmem => ?_, hrest⟩
    rcases List.mem_append.mp hmem with hmem | hmem
    · exact hj' hmem
    · rw [hcalls, List.mem_singleton.mp hmem, List.getElem?_set_self hlt] at hj
      simp at hj
  · rw [hserved, hsame, List.take_append_of_le_length hw.served_le]
    exact hw.served
  · rw [hcalls]
    exact sole_set ⟨sent ++ rest, .reading []⟩ hi hothers
  · rw [hout, hbefore, hserved, hsame, List.drop_append_of_le_length hw.served_le,
      List.flatMap_append, List.flatMap_singleton, request_of hi, tagged_append]
    simp

/-- A call writes a part of its request. -/
theorem requests_writing {w w' : Connection} {order : List Nat} {i : Nat} {sent more rest : List UInt8}
    (hw : Requests http w order)
    (hi : w.calls[i]? = some ⟨sent ++ (more ++ rest), .writing (more ++ rest)⟩)
    (hothers : ∀ j c, w.calls[j]? = some c → j ≠ i → outgoing j c = []) (hrest : rest ≠ [])
    (hcalls : w'.calls = w.calls.set i ⟨sent ++ (more ++ rest), .writing rest⟩)
    (hserved : w'.served = w.served) (hout : w'.outbound = w.outbound ++ tagged i more) :
    Requests http w' order := by
  have hsame : w'.request = w.request := request_set hi hcalls rfl
  obtain ⟨part, hpart, hbefore⟩ := hw.outbound
  rw [hpart.eq_of_others hi hothers, outgoing_writing] at hbefore
  have hnew := (hw.writing i _ _ hi).1
  obtain ⟨hmade, hmessage, hwriting⟩ := hw.set hi (.writing rest) (fun rest' h => by
    obtain rfl := CallPhase.writing.inj h
    exact ⟨hnew, hrest, sent ++ more, (List.append_assoc ..).symm⟩)
  rw [← hcalls] at hmade hmessage hwriting
  refine ⟨hw.nodup, hmade, hmessage, hwriting, ?_, tagged i (sent ++ more), ?_, ?_⟩
  · rw [hserved, hsame]
    exact hw.served
  · have hsole := sole_set ⟨sent ++ (more ++ rest), .writing rest⟩ hi hothers
    rw [← List.append_assoc, outgoing_writing, List.append_assoc] at hsole
    rw [hcalls]
    exact hsole
  · rw [hout, hbefore, hserved, hsame, tagged_append, List.append_assoc]

/-- A call writes on, while no other one is in the middle of its request. -/
theorem requests_write {w : Connection} {order : List Nat} {i n : Nat} {request rest : List UInt8}
    (hw : Requests http w order) (hi : w.calls[i]? = some ⟨request, .writing rest⟩)
    (hothers : ∀ j c, w.calls[j]? = some c → j ≠ i → outgoing j c = []) :
    ∃ more, Requests http { w with
      calls := w.calls.set i ⟨request, Connection.afterWrite (rest.drop n)⟩
      written := w.written ++ tagged i (rest.take n)
      outbound := w.outbound ++ tagged i (rest.take n) } (order ++ more) := by
  obtain ⟨-, -, sent, rfl⟩ := hw.writing i request rest hi
  by_cases hrest : rest.drop n = []
  · have hall : rest.take n = rest := List.take_of_length_le (List.drop_eq_nil_iff.mp hrest)
    rw [Connection.afterWrite, if_pos hrest, hall]
    exact ⟨[i], requests_written hw hi hothers rfl rfl rfl⟩
  · rw [Connection.afterWrite, if_neg hrest]
    refine ⟨[], ?_⟩
    rw [List.append_nil]
    have hsplit := List.take_append_drop n rest
    rw [← hsplit] at hi
    have hcalls : w.calls.set i ⟨sent ++ rest, .writing (rest.drop n)⟩ =
        w.calls.set i ⟨sent ++ (rest.take n ++ rest.drop n), .writing (rest.drop n)⟩ := by
      rw [hsplit]
    exact requests_writing hw hi hothers hrest hcalls rfl rfl

/-- The server reads a whole request of a call that was not served yet. -/
theorem Requests.next {w : Connection} {order : List Nat} {n : Nat} (hw : Requests http w order)
    (hscan : http.requests.scan (untagged w.outbound) = .complete n) :
    ∃ i, order[w.served.length]? = some i ∧ w.outbound.take n = tagged i (w.request i) := by
  obtain ⟨part, hpart, hout⟩ := hw.outbound
  cases hdrop : order.drop w.served.length with
  | nil =>
      -- there is at most a part of a request, and that is incomplete
      rw [hdrop, List.flatMap_nil, List.nil_append] at hout
      have hincomplete : http.requests.scan (untagged w.outbound) = .incomplete := by
        rw [hout]
        cases hpart with
        | none => exact http.requests.scan_nil
        | one i c hi =>
            obtain ⟨request, phase⟩ := c
            cases phase with
            | reading | done => exact http.requests.scan_nil
            | writing rest =>
                obtain ⟨m, hm⟩ := hw.message _ (List.mem_of_getElem? hi)
                obtain ⟨-, hne, sent, rfl⟩ := hw.writing i request rest hi
                have hm : sent ++ rest = m.val := hm
                rw [outgoing_writing, untagged_tagged]
                exact http.requests.scan_part (hm ▸ m.property) hne
      rw [hincomplete] at hscan
      contradiction
  | cons i is =>
      have hi : order[w.served.length]? = some i := by
        rw [← List.head?_drop, hdrop]
        rfl
      have hlt := hw.made i (List.mem_of_getElem? hi)
      obtain ⟨m, hm⟩ := hw.message _ (List.getElem_mem hlt)
      have hrequest : w.request i = m.val := by
        rw [← hm, request_of (List.getElem?_eq_getElem hlt)]
      have hbytes : untagged w.outbound = m.val ++
          untagged (is.flatMap (fun i => tagged i (w.request i)) ++ part) := by
        rw [hout, hdrop, List.flatMap_cons, hrequest, untagged, untagged, List.append_assoc,
          List.map_append, ← untagged, untagged_tagged]
      rw [hbytes, http.requests.scan_append m.property, Scan.complete.injEq] at hscan
      refine ⟨i, hi, ?_⟩
      rw [hout, hdrop, List.flatMap_cons, List.append_assoc, ← hscan, hrequest]
      exact List.take_left' (by simp [tagged])

/-- The server responds to it. -/
theorem requests_serve {w w' : Connection} {order : List Nat} {i n : Nat} {entry : Served}
    (hw : Requests http w order) (hi : order[w.served.length]? = some i)
    (htake : w.outbound.take n = tagged i (w.request i)) (hcalls : w'.calls = w.calls)
    (hserved : w'.served = w.served ++ [entry]) (hentry : entry.request = w.outbound.take n)
    (hout : w'.outbound = w.outbound.drop n) : Requests http w' order := by
  have hsame : w'.request = w.request := by
    funext j
    rw [Connection.request, hcalls]
    rfl
  have hlen : w'.served.length = w.served.length + 1 := by
    rw [hserved, List.length_append, List.length_singleton]
  obtain ⟨part, hpart, hbefore⟩ := hw.outbound
  refine ⟨hw.nodup, ?_, ?_, ?_, ?_, part, ?_, ?_⟩
  · rw [hcalls]
    exact hw.made
  · rw [hcalls]
    exact hw.message
  · rw [hcalls]
    exact hw.writing
  · rw [hlen, hserved, hsame, List.take_add_one, hi, List.map_append, List.map_append, hw.served,
      List.map_singleton, hentry, htake]
    rfl
  · rw [hcalls]
    exact hpart
  · have hdrop : order.drop w.served.length = i :: order.drop (w.served.length + 1) := by
      obtain ⟨hlt, rfl⟩ := List.getElem?_eq_some_iff.mp hi
      exact List.drop_eq_getElem_cons hlt
    rw [hdrop, List.flatMap_cons, List.append_assoc, ← htake] at hbefore
    rw [hlen, hout, hsame]
    exact List.append_cancel_left ((List.take_append_drop n w.outbound).trans hbefore)

/-- A call reads. -/
theorem requests_read {w w' : Connection} {order : List Nat} {i : Nat} {request : List UInt8}
    {buffer : List (Nat × UInt8)} {phase : CallPhase} (hw : Requests http w order)
    (hi : w.calls[i]? = some ⟨request, .reading buffer⟩) (hphase : ∀ rest, phase ≠ .writing rest)
    (hcalls : w'.calls = w.calls.set i ⟨request, phase⟩) (hserved : w'.served = w.served)
    (hout : w'.outbound = w.outbound) : Requests http w' order := by
  have hsame : w'.request = w.request := request_set hi hcalls rfl
  obtain ⟨part, hpart, hbefore⟩ := hw.outbound
  obtain ⟨hmade, hmessage, hwriting⟩ := hw.set hi phase
    (fun rest h => absurd h (hphase rest))
  rw [← hcalls] at hmade hmessage hwriting
  refine ⟨hw.nodup, hmade, hmessage, hwriting, ?_, part, ?_, ?_⟩
  · rw [hserved, hsame]
    exact hw.served
  · rw [hcalls]
    refine hpart.set hi ?_
    cases phase with
    | writing rest => exact absurd rfl (hphase rest)
    | reading | done => rfl
  · rw [hout, hserved, hsame]
    exact hbefore

/-! ## responses -/

theorem responseBytes_append (k : Nat) (es : List Served) (e : Served) :
    responseBytes k (es ++ [e]) = responseBytes k es ++ tagged (k + es.length) e.response := by
  induction es generalizing k with
  | nil => simp [responseBytes]
  | cons e' es ih =>
      rw [List.cons_append, responseBytes, ih, responseBytes, List.append_assoc, List.length_cons,
        Nat.add_assoc, Nat.add_comm 1]

/-- The bytes carry the number of their response. -/
theorem le_of_mem_responseBytes {k : Nat} {es : List Served} {b : Nat × UInt8}
    (hb : b ∈ responseBytes k es) : k ≤ b.1 := by
  induction es generalizing k with
  | nil => simp [responseBytes] at hb
  | cons e es ih =>
      rcases List.mem_append.mp hb with hb | hb
      · obtain ⟨x, -, rfl⟩ := List.mem_map.mp hb
        exact le_rfl
      · have hle := ih hb
        omega

/-- Nothing is read, and no call completes. -/
theorem Responses.frame {w w' : Connection} {taken : Nat} {got : List UInt8}
    (hw : Responses http w taken got) (hserved : w'.served = w.served)
    (hin : w'.inbound = w.inbound) (hlost : w'.lost = w.lost)
    (hpart : Sole incoming w'.calls (tagged taken got))
    (hdone : ∀ (i : Nat) request received result,
      w'.calls[i]? = some ⟨request, .done received result⟩ →
        w.calls[i]? = some ⟨request, .done received result⟩) : Responses http w' taken got := by
  obtain ⟨hle, hmessage, hinbound, -, hmissing, hcalls, honce, hkept⟩ := hw
  refine ⟨hserved ▸ hle, hserved ▸ hmessage, ?_, hpart, hserved ▸ hmissing, ?_, ?_, hlost.trans hkept⟩
  · rw [hserved, hin]
    exact hinbound
  · intro i request received result hi
    rw [hserved]
    exact hcalls i request received result (hdone i request received result hi)
  · intro i j c d received r r' hi hj
    exact honce i j c d received r r' (hdone i c received r hi) (hdone j d received r' hj)

/-- A call begins. -/
theorem responses_start {w : Connection} {taken : Nat} {got : List UInt8} {request : List UInt8}
    (hw : Responses http w taken got) :
    Responses http { w with calls := w.calls ++ [⟨request, .writing request⟩] } taken got := by
  refine hw.frame rfl rfl rfl (hw.part.append rfl) fun i request' received result hi => ?_
  rcases getElem?_concat_or hi with hi | ⟨-, hi⟩
  · exact hi
  · simp at hi

/-- A call that goes on writing, or begins to read. -/
theorem responses_write {w w' : Connection} {taken : Nat} {got : List UInt8} {i : Nat}
    {request rest rest' : List UInt8} (hw : Responses http w taken got)
    (hi : w.calls[i]? = some ⟨request, .writing rest⟩)
    (hcalls : w'.calls = w.calls.set i ⟨request, Connection.afterWrite rest'⟩)
    (hserved : w'.served = w.served) (hin : w'.inbound = w.inbound) (hlost : w'.lost = w.lost) :
    Responses http w' taken got := by
  refine hw.frame hserved hin hlost ?_ fun j request' received result hj => ?_
  · rw [hcalls]
    refine hw.part.set hi ?_
    unfold Connection.afterWrite
    split <;> rfl
  · rw [hcalls] at hj
    rcases getElem?_set_or hi hj with ⟨-, hnew⟩ | ⟨-, hj⟩
    · rw [Call.mk.injEq, Connection.afterWrite] at hnew
      split at hnew <;> simp at hnew
    · exact hj

/-- The server responds. -/
theorem responses_serve {w w' : Connection} {taken : Nat} {got : List UInt8} {entry : Served}
    (hw : Responses http w taken got) (m : http.responses.Message) (hm : entry.response = m.val)
    (hcalls : w'.calls = w.calls) (hserved : w'.served = w.served ++ [entry])
    (hin : w'.inbound = w.inbound ++ tagged w.served.length entry.response)
    (hlost : w'.lost = w.lost) : Responses http w' taken got := by
  obtain ⟨hle, hmessage, hinbound, hpart, hmissing, hdone, honce, hkept⟩ := hw
  have hold : ∀ {k : Nat} {e : Served}, w.served[k]? = some e → w'.served[k]? = some e := by
    intro k e hk
    rw [hserved, List.getElem?_append_left (List.getElem?_eq_some_iff.mp hk).1]
    exact hk
  refine ⟨?_, fun e he => ?_, ?_, hcalls ▸ hpart, ?_, fun i request received result hi => ?_, ?_,
    hlost.trans hkept⟩
  · rw [hserved, List.length_append]
    omega
  · rw [hserved] at he
    rcases List.mem_append.mp he with he | he
    · exact hmessage e he
    · rw [List.mem_singleton.mp he]
      exact ⟨m, hm⟩
  · have hlast : taken + (w.served.drop taken).length = w.served.length := by
      rw [List.length_drop]
      omega
    rw [hin, hserved, List.drop_append_of_le_length hle, responseBytes_append, ← hinbound, hlast,
      List.append_assoc]
  · rcases hmissing with hnil | ⟨e, rest, he, hsplit⟩
    · exact .inl hnil
    · exact .inr ⟨e, rest, hold he, hsplit⟩
  · rw [hcalls] at hi
    obtain ⟨k, e, hk, he, hreceived⟩ := hdone i request received result hi
    exact ⟨k, e, hk, hold he, hreceived⟩
  · rw [hcalls]
    exact honce

/-- The response that is read next, and what is left of it. -/
theorem Responses.next {w : Connection} {taken : Nat} {got : List UInt8}
    (hw : Responses http w taken got) (hin : w.inbound ≠ []) :
    ∃ e rest es, w.served.drop taken = e :: es ∧ e.response = got ++ rest ∧ rest ≠ [] ∧
      w.inbound = tagged taken rest ++ responseBytes (taken + 1) es := by
  have hinbound := hw.inbound
  cases hdrop : w.served.drop taken with
  | nil =>
      rw [hdrop, responseBytes] at hinbound
      exact absurd (List.append_eq_nil_iff.mp hinbound).2 hin
  | cons e es =>
      have he : w.served[taken]? = some e := by
        rw [← List.head?_drop, hdrop]
        rfl
      have hsplit : ∃ rest, e.response = got ++ rest ∧ rest ≠ [] := by
        rcases hw.missing with rfl | ⟨e', rest, he', hsplit⟩
        · obtain ⟨m, hm⟩ := hw.message e (List.mem_of_getElem? he)
          exact ⟨e.response, rfl, hm ▸ m.ne_nil⟩
        · rw [he, Option.some.injEq] at he'
          exact ⟨rest, he' ▸ hsplit⟩
      obtain ⟨rest, hresponse, hrest⟩ := hsplit
      refine ⟨e, rest, es, rfl, hresponse, hrest, ?_⟩
      rw [hdrop, responseBytes, hresponse, tagged_append, List.append_assoc] at hinbound
      exact List.append_cancel_left hinbound

/-- What is read of one response is not beyond it. -/
theorem take_of_one {taken n : Nat} {rest : List UInt8} {es : List Served} (hrest : rest ≠ [])
    (hn : n ≤ (tagged taken rest ++ responseBytes (taken + 1) es).length)
    (hone : ∀ b ∈ (tagged taken rest ++ responseBytes (taken + 1) es).take n,
      ∀ b' ∈ (tagged taken rest ++ responseBytes (taken + 1) es).take n, b.1 = b'.1) :
    n ≤ rest.length := by
  by_contra hlt
  have hlen : (tagged taken rest).length = rest.length := by simp [tagged]
  obtain ⟨x, xs, rfl⟩ := List.exists_cons_of_ne_nil hrest
  rw [List.take_append, List.take_of_length_le (by omega)] at hone
  have hmore : (responseBytes (taken + 1) es).take (n - (tagged taken (x :: xs)).length) ≠ [] := by
    intro hnil
    have hlength := congrArg List.length hnil
    rw [List.length_take, List.length_nil] at hlength
    rw [List.length_append] at hn
    omega
  obtain ⟨b, hb⟩ := List.exists_mem_of_ne_nil _ hmore
  have hle := le_of_mem_responseBytes (List.mem_of_mem_take hb)
  have hsame := hone (taken, x) (by simp [tagged]) b (List.mem_append_right _ hb)
  have htag : taken = b.1 := hsame
  omega

/-- What a call reads, while no other one is in the middle of a response, makes
the response whole, or does not yet. -/
theorem Responses.afterRead {w : Connection} {taken n : Nat} {got : List UInt8}
    (hw : Responses http w taken got) (hn : 0 < n) (hle : n ≤ w.inbound.length)
    (hone : ∀ b ∈ w.inbound.take n, ∀ b' ∈ w.inbound.take n, b.1 = b'.1) :
    ∃ e, w.served[taken]? = some e ∧
      ((w.inbound.drop n = responseBytes (taken + 1) (w.served.drop (taken + 1)) ∧
        Connection.afterRead http (tagged taken got ++ w.inbound.take n) =
          (.done (tagged taken e.response) ((processResponse (http.body e.response)).mapError .json),
            [])) ∨
      ∃ more rest, e.response = (got ++ more) ++ rest ∧ rest ≠ [] ∧
        tagged taken (got ++ more) ++ w.inbound.drop n = responseBytes taken (w.served.drop taken) ∧
        Connection.afterRead http (tagged taken got ++ w.inbound.take n) =
          (.reading (tagged taken (got ++ more)), [])) := by
  obtain ⟨e, rest, es, hdrop, hresponse, hrest, hin⟩ :=
    hw.next (List.ne_nil_of_length_pos (hn.trans_le hle))
  have he : w.served[taken]? = some e := by
    rw [← List.head?_drop, hdrop]
    rfl
  have hes : es = w.served.drop (taken + 1) := by
    rw [← List.tail_drop, hdrop]
    rfl
  obtain ⟨m, hm⟩ := hw.message e (List.mem_of_getElem? he)
  rw [hin] at hle hone
  have hshort := take_of_one hrest hle hone
  have hlen : (tagged taken rest).length = rest.length := by simp [tagged]
  have htake : w.inbound.take n = tagged taken (rest.take n) := by
    rw [hin, List.take_append_of_le_length (by omega), tagged_take]
  have hleft : w.inbound.drop n = tagged taken (rest.drop n) ++ responseBytes (taken + 1) es := by
    rw [hin, List.drop_append_of_le_length (by omega), tagged_drop]
  have hsplit : e.response = (got ++ rest.take n) ++ rest.drop n := by
    rw [hresponse, List.append_assoc, List.take_append_drop]
  refine ⟨e, he, ?_⟩
  rw [htake, hleft, hes, ← tagged_append]
  by_cases hall : rest.drop n = []
  · rw [hall, List.append_nil] at hsplit
    rw [← hsplit, Connection.afterRead, untagged_tagged, hm, m.property, hall]
    refine .inl ⟨rfl, ?_⟩
    simp only [tagged_take, tagged_drop, List.take_length, List.drop_length, untagged_tagged,
      tagged_nil]
  · refine .inr ⟨rest.take n, rest.drop n, hsplit, hall, ?_, ?_⟩
    · rw [hdrop, responseBytes, ← hes, ← List.append_assoc, ← tagged_append, ← hsplit]
    · have hwhole : http.responses.scan ((got ++ rest.take n) ++ rest.drop n) =
          .complete ((got ++ rest.take n) ++ rest.drop n).length := by
        rw [← hsplit, hm]
        exact m.property
      have hpart := http.responses.scan_part hwhole hall
      rw [Connection.afterRead, untagged_tagged, hpart]

/-- A call completes with a whole response. -/
theorem responses_done {w w' : Connection} {taken i : Nat} {got request : List UInt8}
    {buffer : List (Nat × UInt8)} {e : Served} (hw : Responses http w taken got)
    (hi : w.calls[i]? = some ⟨request, .reading buffer⟩)
    (hothers : ∀ j c, w.calls[j]? = some c → j ≠ i → incoming j c = [])
    (he : w.served[taken]? = some e)
    (hcalls : w'.calls = w.calls.set i ⟨request, .done (tagged taken e.response)
      ((processResponse (http.body e.response)).mapError .json)⟩)
    (hserved : w'.served = w.served) (hlost : w'.lost = w.lost)
    (hin : w'.inbound = responseBytes (taken + 1) (w.served.drop (taken + 1))) :
    Responses http w' (taken + 1) [] := by
  -- a call that is done was done before, or is this one
  have hcases : ∀ (j : Nat) request' received result,
      w'.calls[j]? = some ⟨request', .done received result⟩ →
      (j ≠ i ∧ w.calls[j]? = some ⟨request', .done received result⟩) ∨
      (j = i ∧ received = tagged taken e.response ∧
        result = (processResponse (http.body e.response)).mapError .json) := by
    intro j request' received result hj
    rw [hcalls] at hj
    rcases getElem?_set_or hi hj with ⟨rfl, hnew⟩ | hold
    · rw [Call.mk.injEq, CallPhase.done.injEq] at hnew
      exact .inr ⟨rfl, hnew.2⟩
    · exact .inl hold
  -- nobody has got this response yet
  have hnew : ∀ (j : Nat) request' result,
      w.calls[j]? ≠ some ⟨request', .done (tagged taken e.response) result⟩ := by
    intro j request' result hj
    obtain ⟨k, e', hk, -, hreceived, -⟩ := hw.done j request' _ result hj
    obtain ⟨m, hm⟩ := hw.message e (List.mem_of_getElem? he)
    obtain ⟨b, bs, hb⟩ := List.exists_cons_of_ne_nil (hm ▸ m.ne_nil : e.response ≠ [])
    have hmem : (taken, b) ∈ tagged k e'.response := by
      rw [← hreceived, hb]
      exact List.mem_cons_self
    obtain ⟨x, -, hx⟩ := List.mem_map.mp hmem
    have htag : k = taken := congrArg Prod.fst hx
    omega
  refine ⟨?_, hserved ▸ hw.message, ?_, ?_, .inl rfl, ?_, ?_, hlost.trans hw.kept⟩
  · rw [hserved]
    exact (List.getElem?_eq_some_iff.mp he).1
  · rw [hin, hserved]
    rfl
  · rw [hcalls]
    exact sole_set ⟨request, .done (tagged taken e.response) _⟩ hi hothers
  · intro j request' received result hj
    rw [hserved]
    rcases hcases j request' received result hj with ⟨-, hj⟩ | ⟨-, rfl, rfl⟩
    · obtain ⟨k, e', hk, hrest⟩ := hw.done j request' received result hj
      exact ⟨k, e', Nat.lt_succ_of_lt hk, hrest⟩
    · exact ⟨taken, e, Nat.lt_succ_self _, he, rfl, rfl⟩
  · intro j j' c d received r r' hj hj'
    rcases hcases j c received r hj with ⟨-, hj⟩ | ⟨rfl, hreceived, -⟩
    · rcases hcases j' d received r' hj' with ⟨-, hj'⟩ | ⟨-, rfl, -⟩
      · exact hw.once j j' c d received r r' hj hj'
      · exact absurd hj (hnew j c r)
    · rcases hcases j' d received r' hj' with ⟨-, hj'⟩ | ⟨rfl, -, -⟩
      · exact absurd (hreceived ▸ hj') (hnew j' d r')
      · rfl

/-- A call reads a part of a response. -/
theorem responses_reading {w w' : Connection} {taken i : Nat} {got more rest request : List UInt8}
    {buffer : List (Nat × UInt8)} {e : Served} (hw : Responses http w taken got)
    (hi : w.calls[i]? = some ⟨request, .reading buffer⟩)
    (hothers : ∀ j c, w.calls[j]? = some c → j ≠ i → incoming j c = [])
    (he : w.served[taken]? = some e) (hsplit : e.response = (got ++ more) ++ rest) (hrest : rest ≠ [])
    (hcalls : w'.calls = w.calls.set i ⟨request, .reading (tagged taken (got ++ more))⟩)
    (hserved : w'.served = w.served) (hlost : w'.lost = w.lost)
    (hin : tagged taken (got ++ more) ++ w'.inbound = responseBytes taken (w.served.drop taken)) :
    Responses http w' taken (got ++ more) := by
  have hold : ∀ (j : Nat) request' received result,
      w'.calls[j]? = some ⟨request', .done received result⟩ →
        w.calls[j]? = some ⟨request', .done received result⟩ := by
    intro j request' received result hj
    rw [hcalls] at hj
    rcases getElem?_set_or hi hj with ⟨-, hnew⟩ | ⟨-, hj⟩
    · simp at hnew
    · exact hj
  refine ⟨hserved ▸ hw.taken_le, hserved ▸ hw.message, ?_, ?_, .inr ⟨e, rest, ?_, hsplit, hrest⟩, ?_, ?_,
    hlost.trans hw.kept⟩
  · rw [hserved]
    exact hin
  · rw [hcalls]
    exact sole_set ⟨request, .reading (tagged taken (got ++ more))⟩ hi hothers
  · rw [hserved]
    exact he
  · intro j request' received result hj
    rw [hserved]
    exact hw.done j request' received result (hold j request' received result hj)
  · intro j j' c d received r r' hj hj'
    exact hw.once j j' c d received r r' (hold j c received r hj) (hold j' d received r' hj')

/-! ## runs -/

theorem requests_make : Requests http Connection.make [] := by
  refine ⟨.nil, ?_, ?_, ?_, rfl, [], .none ?_, rfl⟩ <;> simp [Connection.make]

theorem responses_make : Responses http Connection.make 0 [] := by
  refine ⟨le_rfl, ?_, rfl, .none ?_, .inl rfl, ?_, ?_, rfl⟩ <;> simp [Connection.make]

/-- What no other call holds. -/
theorem others_of_zipIdx {f : Nat → Call → List (Nat × UInt8)} {w : Connection} {i : Nat}
    (h : ∀ p ∈ w.calls.zipIdx, p.2 ≠ i → f p.2 p.1 = []) :
    ∀ j c, w.calls[j]? = some c → j ≠ i → f j c = [] :=
  fun j c hj hne => h (c, j) (List.mem_zipIdx_iff_getElem?.mpr hj) hne

/-- Every event that tears no message keeps the messages whole. -/
theorem messages_step {w w' : Connection} {e : ConnectionEvent http} {order : List Nat} {taken : Nat}
    {got : List UInt8} (hreq : Requests http w order) (hres : Responses http w taken got)
    (he : Untorn w e) (h : w.step http token e = some w') :
    ∃ order' taken' got', Requests http w' order' ∧ Responses http w' taken' got' := by
  cases e with
  | start method json =>
      obtain ⟨m, rfl⟩ := Connection.step_start h
      exact ⟨order, taken, got, requests_start hreq m, responses_start hres⟩
  | write i n =>
      obtain ⟨request, rest, hi, -, -, rfl⟩ := Connection.step_write h
      obtain ⟨more, hreq'⟩ := requests_write (n := n) hreq hi (others_of_zipIdx he)
      exact ⟨order ++ more, taken, got, hreq', responses_write hres hi rfl rfl rfl rfl⟩
  | serve response =>
      obtain ⟨n, hscan, rfl⟩ := Connection.step_serve h
      obtain ⟨i, hi, htake⟩ := hreq.next hscan
      exact ⟨order, taken, got, requests_serve hreq hi htake rfl rfl rfl rfl,
        responses_serve hres response rfl rfl rfl rfl rfl⟩
  | read i n =>
      obtain ⟨request, buffer, hi, hn, hle, rfl⟩ := Connection.step_read h
      obtain ⟨hothers, hone⟩ := he
      have hothers := others_of_zipIdx hothers
      have hbuffer : tagged taken got = buffer := hres.part.eq_of_others hi hothers
      obtain ⟨e, hserved, hcases⟩ := hres.afterRead hn hle hone
      rw [hbuffer] at hcases
      rcases hcases with ⟨hin, hafter⟩ | ⟨more, rest, hsplit, hrest, hin, hafter⟩
      · rw [hafter]
        exact ⟨order, taken + 1, [],
          requests_read hreq hi (fun _ h => by cases h) rfl rfl rfl,
          responses_done hres hi hothers hserved rfl rfl (List.append_nil _) hin⟩
      · rw [hafter]
        exact ⟨order, taken, got ++ more,
          requests_read hreq hi (fun _ h => by cases h) rfl rfl rfl,
          responses_reading hres hi hothers hserved hsplit hrest rfl rfl (List.append_nil _) hin⟩

/-- All messages arrive as they were sent. -/
structure Whole (http : Http) (w : Connection) : Prop where
  /-- the server reads whole requests, -/
  requests : ∀ (k : Nat) entry, w.served[k]? = some entry →
    ∃ (i : Nat) (c : Call), w.calls[i]? = some c ∧ entry.request = tagged i c.request
  /-- none of them twice, -/
  served_once : (w.served.map Served.request).Nodup
  /-- and a call that completes has got a whole response, -/
  responses : ∀ (i : Nat) request received result,
    w.calls[i]? = some ⟨request, .done received result⟩ →
    ∃ (k : Nat) (entry : Served), w.served[k]? = some entry ∧
      received = tagged k entry.response ∧
      result = (processResponse (http.body entry.response)).mapError .json
  /-- which no other call has got -/
  read_once : ∀ (i j : Nat) c d received r r', w.calls[i]? = some ⟨c, .done received r⟩ →
    w.calls[j]? = some ⟨d, .done received r'⟩ → i = j
  kept : w.lost = []

/-- Requests of different calls are different on the stream. -/
theorem Requests.nodup_tagged {w : Connection} {order : List Nat} (hw : Requests http w order) :
    (order.map fun i => tagged i (w.request i)).Nodup := by
  refine hw.nodup.map_on fun i hi j hj hij => ?_
  have hlt := hw.made i hi
  obtain ⟨m, hm⟩ := hw.message _ (List.getElem_mem hlt)
  have hne : w.request i ≠ [] := by
    rw [request_of (List.getElem?_eq_getElem hlt), hm]
    exact m.ne_nil
  obtain ⟨b, bs, hb⟩ := List.exists_cons_of_ne_nil hne
  have hmem : (i, b) ∈ tagged j (w.request j) := by
    rw [← hij, hb]
    exact List.mem_cons_self
  obtain ⟨x, -, hx⟩ := List.mem_map.mp hmem
  exact (congrArg Prod.fst hx).symm

theorem whole_of_messages {w : Connection} {order : List Nat} {taken : Nat} {got : List UInt8}
    (hreq : Requests http w order) (hres : Responses http w taken got) : Whole http w := by
  refine ⟨fun k entry hk => ?_, ?_, fun i request received result hi => ?_, hres.once, hres.kept⟩
  · have hrequest : (w.served.map Served.request)[k]? = some entry.request := by
      rw [List.getElem?_map, hk]
      rfl
    rw [hreq.served, List.getElem?_map] at hrequest
    obtain ⟨i, hi, hentry⟩ := Option.map_eq_some_iff.mp hrequest
    have hlt := hreq.made i (List.mem_of_mem_take (List.mem_of_getElem? hi))
    refine ⟨i, w.calls[i], List.getElem?_eq_getElem hlt, ?_⟩
    rw [← hentry, request_of (List.getElem?_eq_getElem hlt)]
  · rw [hreq.served]
    exact hreq.nodup_tagged.sublist ((List.take_sublist _ order).map _)
  · obtain ⟨k, entry, -, hk⟩ := hres.done i request received result hi
    exact ⟨k, entry, hk⟩

/-- **Overlapping calls**: as long as no message is torn, the server reads each
request once and as it was written, and a call completes with a whole response
that no other call gets. -/
theorem whole_of_run (http : Http) (token : String) (es : List (ConnectionEvent http))
    (w : Connection) (h : Run (Connection.step http token) Untorn Connection.make es w) :
    Whole http w := by
  have hall : ∃ order taken got, Requests http w order ∧ Responses http w taken got :=
    h.invariant (I := fun w => ∃ order taken got, Requests http w order ∧ Responses http w taken got)
      (fun _ _ _ ⟨_, _, _, hreq, hres⟩ he hstep => messages_step hreq hres he hstep)
      ⟨[], 0, [], requests_make, responses_make⟩
  obtain ⟨order, taken, got, hreq, hres⟩ := hall
  exact whole_of_messages hreq hres

/-- The calls that overlap, one of which gets the response of the other, get
whole responses nevertheless. -/
theorem whole_of_run_overlapping :
    ∃ w, runs (Connection.step botApi "1:a") Connection.make overlapping = some w ∧ Whole botApi w := by
  have hrun : (runs (guarded (Connection.step botApi "1:a") Untorn) Connection.make
      overlapping).isSome = true := by decide +kernel
  obtain ⟨w, hw⟩ := Option.isSome_iff_exists.mp hrun
  have huntorn := run_of_guarded hw
  exact ⟨w, huntorn.runs, whole_of_run botApi "1:a" overlapping w huntorn⟩

end LearnWords
