import LearnWords.Connection

/-!
# LearnWords.Connection.Completion

How a call of `async_request` completes: once, with the processed response it
has read, or with the code of the exception that was raised instead.
-/

namespace LearnWords

open Machine Framing

/-- The result of a call that has completed. -/
def Call.result (c : Call) : Option (Except RequestError ProcessedResult) :=
  match c.phase with
  | .done _ result => some result
  | _ => none

/-- The result of call `i`, once it has completed. -/
def Connection.result (w : Connection) (i : Nat) : Option (Except RequestError ProcessedResult) :=
  w.calls[i]?.bind Call.result

/-- What the completion handler is called with, `co_return {ec, std::move(ret)}`;
`code` is the value of the error code of an exception. -/
def completion (code : RequestError → Int) :
    Except RequestError ProcessedResult → Int × ProcessedResult
  | .ok ret => (0, ret)
  | .error e => (code e, .ok .null)

/-- The completions of call `i` in a run of a connection. -/
def completions (http : Http) (token : String) (code : RequestError → Int) (i : Nat)
    (es : List (ConnectionEvent http)) : List (Int × ProcessedResult) :=
  (appearances (Connection.step http token) (fun w => w.result i) Connection.make es).map
    (completion code)

/-- The event completes a response with the body `r` in the buffer of call `i`. -/
def Receives {http : Http} (w : Connection) (i : Nat) (r : Value) : ConnectionEvent http → Prop
  | .read j n => i = j ∧ ∃ request buffer m, w.calls[i]? = some ⟨request, .reading buffer⟩ ∧
      http.responses.scan (untagged (buffer ++ w.inbound.take n)) = .complete m ∧
      r = http.body (untagged ((buffer ++ w.inbound.take n).take m))
  | _ => False

/-! ## a result stays -/

variable {http : Http} {token : String} {w w' : Connection} {i : Nat}

/-- A call that is replaced in its place keeps the results of the others, and
has no result to lose. -/
theorem result_set {c d : Call} {j : Nat} {cs : List Call} {x : Except RequestError ProcessedResult}
    (hj : cs[j]? = some c) (hc : c.result = none) (h : cs[i]?.bind Call.result = some x) :
    (cs.set j d)[i]?.bind Call.result = some x := by
  have hne : j ≠ i := by
    rintro rfl
    rw [hj, Option.bind_some, hc] at h
    contradiction
  rw [List.getElem?_set_ne hne]
  exact h

theorem result_step {e : ConnectionEvent http} {x : Except RequestError ProcessedResult}
    (hstep : w.step http token e = some w') (h : w.result i = some x) : w'.result i = some x := by
  cases e with
  | start method json =>
      obtain ⟨m, rfl⟩ := Connection.step_start hstep
      obtain ⟨c, hc, hx⟩ := Option.bind_eq_some_iff.mp h
      have hi := (List.getElem?_eq_some_iff.mp hc).choose
      rw [Connection.result, List.getElem?_append_left hi]
      exact h
  | write j n =>
      obtain ⟨request, rest, hj, -, -, rfl⟩ := Connection.step_write hstep
      exact result_set hj rfl h
  | serve response =>
      obtain ⟨n, -, rfl⟩ := Connection.step_serve hstep
      exact h
  | read j n =>
      obtain ⟨request, buffer, hj, -, -, rfl⟩ := Connection.step_read hstep
      exact result_set hj rfl h

/-- The step that completes a response completes the call. -/
theorem result_of_receives {e : ConnectionEvent http} {r : Value}
    (hstep : w.step http token e = some w') (h : Receives w i r e) :
    w'.result i = some ((processResponse r).mapError .json) := by
  cases e with
  | read j n =>
      obtain ⟨rfl, request, buffer, m, hi, hscan, rfl⟩ := h
      obtain ⟨request', buffer', hj, -, -, rfl⟩ := Connection.step_read hstep
      rw [hi, Option.some.injEq, Call.mk.injEq, CallPhase.reading.injEq] at hj
      obtain ⟨rfl, rfl⟩ := hj
      have hlt := (List.getElem?_eq_some_iff.mp hi).choose
      rw [Connection.result, List.getElem?_set_self hlt, Connection.afterRead, hscan]
      rfl
  | _ => exact absurd h id

/-- A call that receives a response body completes once, whatever the other
calls and the server do before and after. -/
theorem completions_of_receives {pre post : List (ConnectionEvent http)} {e : ConnectionEvent http}
    {w'' : Connection} {r : Value} (code : RequestError → Int)
    (hpre : runs (Connection.step http token) Connection.make pre = some w)
    (hrun : runs (Connection.step http token) Connection.make (pre ++ e :: post) = some w'')
    (h : Receives w i r e) :
    completions http token code i (pre ++ e :: post) =
      [completion code ((processResponse r).mapError .json)] := by
  have hstay : ∀ (s : Connection) (e : ConnectionEvent http) t x,
      s.step http token e = some t → s.result i = some x → t.result i = some x :=
    fun _ _ _ _ => result_step
  have hrest := hrun
  rw [runs_append, hpre, Option.bind_some, runs_cons] at hrest
  obtain ⟨w', hstep, hpost⟩ := Option.bind_eq_some_iff.mp hrest
  have hresult := runs_invariant (I := fun s => s.result i = some _)
    (fun s e t hs hstep => hstay s e t _ hstep hs) hpost (result_of_receives hstep h)
  rw [completions, appearances_eq hstay hrun rfl, hresult]
  rfl

/-- **Responses**: a response body is the result of a call, or the error of
one, and `process_response` returns just that; any other one raises, and the
call that reads it completes once, with the code of the exception.  An error
written as a response is read back. -/
theorem processResponse_spec (http : Http) (token : String) (code : RequestError → Int)
    (hcode : ∀ e, code (.json e) ≠ 0) (r : Value) :
    (∀ v, processResponse r = .ok (.ok v) ↔ IsResult r v) ∧
    (∀ err, processResponse r = .ok (.error err) ↔ IsError r err) ∧
    ((∀ v, ¬ IsResult r v) → (∀ err, ¬ IsError r err) →
      (∃ e, processResponse r = .error e) ∧
      ∀ pre e post w w' i, runs (Connection.step http token) Connection.make pre = some w →
        runs (Connection.step http token) Connection.make (pre ++ e :: post) = some w' →
        Receives w i r e →
        ∃ c, c ≠ 0 ∧ completions http token code i (pre ++ e :: post) = [(c, .ok .null)]) ∧
    ∀ err, processResponse (encodeError err) = .ok (.error err) := by
  refine ⟨fun _ => processResponse_result_iff, fun _ => processResponse_error_iff, ?_,
    fun err => processResponse_of_isError (isError_encodeError err)⟩
  intro hresult herror
  obtain ⟨e, he⟩ := processResponse_raises hresult herror
  refine ⟨⟨e, he⟩, fun pre _ post w w' i hpre hrun hreceives => ⟨code (.json e), hcode e, ?_⟩⟩
  rw [completions_of_receives code hpre hrun hreceives, he]
  rfl

/-! ## a failure without a description -/

/-- A server that has one response, a failure without a description. -/
def terseApi : Http where
  requests := ofMessages [[1]] (by decide) (by unfold Unambiguous; decide)
  responses := ofMessages [[2]] (by decide) (by unfold Unambiguous; decide)
  serialize _ := ⟨[1], by decide⟩
  body _ := .object [("ok", .bool false)]

/-- One call, up to its response. -/
def terseCall : List (ConnectionEvent terseApi) :=
  [.start "getMe" [], .write 0 1, .serve ⟨[2], by decide⟩]

theorem processResponse_spec_terse :
    ∃ c, c ≠ 0 ∧ completions terseApi "1:a" (fun _ => 1) 0 (terseCall ++ [.read 0 1]) =
      [(c, .ok .null)] := by
  have hspec := processResponse_spec terseApi "1:a" (fun _ => 1) (fun _ => by decide)
    (.object [("ok", .bool false)])
  have hresult : ∀ v, ¬ IsResult (.object [("ok", .bool false)]) v := by
    rintro v ⟨o, ho, -, hv⟩
    obtain rfl := Value.object.inj ho
    contradiction
  have herror : ∀ err, ¬ IsError (.object [("ok", .bool false)]) err := by
    rintro err ⟨o, ho, -, hdescription, -⟩
    obtain rfl := Value.object.inj ho
    contradiction
  exact (hspec.2.2.1 hresult herror).2 terseCall (.read 0 1) [] _ _ 0 rfl rfl
    ⟨rfl, [1], [], 1, rfl, rfl, rfl⟩

end LearnWords
