import LearnWords.Json

/-!
# LearnWords.Response

`telegram::process_response`: a response body of the Bot API is either the
`result` of a successful call or a `proto::error`; anything else raises.

`IsResult` and `IsError` say of a JSON tree alone which of the three it is, and
`process_response` tells them apart (`processResponse_result_iff`,
`processResponse_error_iff`, `processResponse_raises`).  An error survives the
way through a response (`isError_encodeError`).
-/

namespace LearnWords

/-- `proto::error::response_parameters`; `retry_after` counts seconds. -/
structure ResponseParameters where
  migrateToChatId : Option Int64
  retryAfter : Option Int64
deriving DecidableEq

/-- `proto::error`. -/
structure ProtoError where
  description : String
  errorCode : Int64
  parameters : Option ResponseParameters
deriving DecidableEq

/-- `processed_result`: the value of a successful call, or the error Telegram
reported. -/
abbrev ProcessedResult := Except ProtoError Value

/-- `make_params`. -/
def makeParams (obj : Object) : ResponseParameters where
  migrateToChatId := (ifContains obj "migrate_to_chat_id").bind ifInt64
  retryAfter := (ifContains obj "retry_after").bind ifInt64

/-- `process_response`. -/
def processResponse (rawResponse : Value) : Except JsonError ProcessedResult := do
  let response ← rawResponse.asObject
  if ← (← Object.at response "ok").asBool then
    return .ok (← Object.at response "result")
  else
    let description ← (← Object.at response "description").asString
    let errorCode ← (← Object.at response "error_code").asInt64
    let parameters := ((ifContains response "parameters").bind ifObject).map makeParams
    return .error { description, errorCode, parameters }

/-! ## what a response says -/

/-- The response of a successful call with the result `v`. -/
def IsResult (r v : Value) : Prop :=
  ∃ o, r = .object o ∧ o.lookup "ok" = some (.bool true) ∧ o.lookup "result" = some v

/-- What a response with the members `o` says about its parameters: those that
are integers are present, whatever else there is. -/
def IsParameters (o : Object) : Option ResponseParameters → Prop
  | none => ∀ q, o.lookup "parameters" ≠ some (.object q)
  | some p => ∃ q, o.lookup "parameters" = some (.object q) ∧
      (∀ i, p.migrateToChatId = some i ↔ q.lookup "migrate_to_chat_id" = some (.int64 i)) ∧
      ∀ i, p.retryAfter = some i ↔ q.lookup "retry_after" = some (.int64 i)

/-- The response of a failed call with the error `err`. -/
def IsError (r : Value) (err : ProtoError) : Prop :=
  ∃ o, r = .object o ∧ o.lookup "ok" = some (.bool false) ∧
    o.lookup "description" = some (.string err.description) ∧
    o.lookup "error_code" = some (.int64 err.errorCode) ∧ IsParameters o err.parameters

/-! ## reading a response -/

/-- `make_params` finds what there is. -/
theorem isParameters_map (o : Object) :
    IsParameters o (((ifContains o "parameters").bind ifObject).map makeParams) := by
  cases hq : (ifContains o "parameters").bind ifObject with
  | none =>
      intro q h
      rw [ifContains_object.mpr h] at hq
      contradiction
  | some q =>
      exact ⟨q, ifContains_object.mp hq, fun _ => ifContains_int64, fun _ => ifContains_int64⟩

theorem IsParameters.unique {o : Object} {p p' : Option ResponseParameters}
    (h : IsParameters o p) (h' : IsParameters o p') : p = p' := by
  cases p with
  | none =>
      cases p' with
      | none => rfl
      | some p' => exact absurd h'.choose_spec.1 (h _)
  | some p =>
      obtain ⟨q, hq, hmigrate, hretry⟩ := h
      cases p' with
      | none => exact absurd hq (h' q)
      | some p' =>
          obtain ⟨q', hq', hmigrate', hretry'⟩ := h'
          rw [hq, Option.some.injEq, Value.object.injEq] at hq'
          subst hq'
          have hm : p.migrateToChatId = p'.migrateToChatId :=
            Option.ext fun i => (hmigrate i).trans (hmigrate' i).symm
          have hr : p.retryAfter = p'.retryAfter :=
            Option.ext fun i => (hretry i).trans (hretry' i).symm
          cases p
          cases p'
          simp only at hm hr
          rw [hm, hr]

theorem processResponse_of_isResult {r v : Value} (h : IsResult r v) :
    processResponse r = .ok (.ok v) := by
  obtain ⟨o, rfl, hok, hresult⟩ := h
  simp only [processResponse, asObject_object, ok_bind, Object.at, hok, orThrow_some, asBool_bool,
    hresult, if_true]
  rfl

theorem processResponse_of_isError {r : Value} {err : ProtoError} (h : IsError r err) :
    processResponse r = .ok (.error err) := by
  obtain ⟨o, rfl, hok, hdescription, hcode, hparameters⟩ := h
  simp only [processResponse, asObject_object, ok_bind, Object.at, hok, orThrow_some, asBool_bool,
    hdescription, asString_string, hcode, asInt64_int64, (isParameters_map o).unique hparameters]
  rfl

/-- What a response says that does not raise. -/
theorem exists_of_processResponse {r : Value} {x : ProcessedResult}
    (h : processResponse r = .ok x) :
    (∃ v, IsResult r v ∧ x = .ok v) ∨ ∃ err, IsError r err ∧ x = .error err := by
  obtain ⟨o, ho, h₁⟩ := bind_eq_ok.mp h
  obtain ⟨ok, hok, h₂⟩ := bind_eq_ok.mp h₁
  obtain ⟨b, hb, h₃⟩ := bind_eq_ok.mp h₂
  have hr : r = .object o := ifObject_eq_some.mp (orThrow_eq_ok.mp ho)
  have hmember : o.lookup "ok" = some (.bool b) := by
    rw [← asBool_eq_ok.mp hb]
    exact orThrow_eq_ok.mp hok
  cases b with
  | true =>
      obtain ⟨v, hv, h₄⟩ := bind_eq_ok.mp h₃
      exact .inl ⟨v, ⟨o, hr, hmember, orThrow_eq_ok.mp hv⟩, (Except.ok.inj h₄).symm⟩
  | false =>
      obtain ⟨d, hd, h₄⟩ := bind_eq_ok.mp h₃
      obtain ⟨description, hdescription, h₅⟩ := bind_eq_ok.mp h₄
      obtain ⟨c, hc, h₆⟩ := bind_eq_ok.mp h₅
      obtain ⟨code, hcode, h₇⟩ := bind_eq_ok.mp h₆
      obtain rfl := ifString_eq_some.mp (orThrow_eq_ok.mp hdescription)
      obtain rfl := ifInt64_eq_some.mp (orThrow_eq_ok.mp hcode)
      have herror : IsError r
          ⟨description, code, ((ifContains o "parameters").bind ifObject).map makeParams⟩ :=
        ⟨o, hr, hmember, orThrow_eq_ok.mp hd, orThrow_eq_ok.mp hc, isParameters_map o⟩
      exact .inr ⟨_, herror, (Except.ok.inj h₇).symm⟩

/-- `process_response` returns the results. -/
theorem processResponse_result_iff {r v : Value} :
    processResponse r = .ok (.ok v) ↔ IsResult r v := by
  constructor
  · intro h
    obtain ⟨w, hw, hv⟩ | ⟨err, -, hv⟩ := exists_of_processResponse h
    · obtain rfl := Except.ok.inj hv
      exact hw
    · contradiction
  · exact processResponse_of_isResult

/-- `process_response` returns the errors. -/
theorem processResponse_error_iff {r : Value} {err : ProtoError} :
    processResponse r = .ok (.error err) ↔ IsError r err := by
  constructor
  · intro h
    obtain ⟨v, -, hv⟩ | ⟨err', herr, hv⟩ := exists_of_processResponse h
    · contradiction
    · obtain rfl := Except.error.inj hv
      exact herr
  · exact processResponse_of_isError

/-- A response that says neither raises. -/
theorem processResponse_raises {r : Value} (hresult : ∀ v, ¬ IsResult r v)
    (herror : ∀ err, ¬ IsError r err) : ∃ e, processResponse r = .error e := by
  cases h : processResponse r with
  | error e => exact ⟨e, rfl⟩
  | ok x =>
      obtain ⟨v, hv, -⟩ | ⟨err, herr, -⟩ := exists_of_processResponse h
      · exact absurd hv (hresult v)
      · exact absurd herr (herror err)

/-! ## writing an error -/

/-- The parameters of an error, as Telegram sends them. -/
def encodeParams (p : ResponseParameters) : Object :=
  (p.migrateToChatId.map fun i => ("migrate_to_chat_id", Value.int64 i)).toList ++
    (p.retryAfter.map fun i => ("retry_after", Value.int64 i)).toList

/-- A response that reports an error, as Telegram sends it. -/
def encodeError (err : ProtoError) : Value :=
  .object ([("ok", .bool false), ("error_code", .int64 err.errorCode),
    ("description", .string err.description)] ++
    (err.parameters.map fun p => ("parameters", Value.object (encodeParams p))).toList)

theorem isError_encodeError (err : ProtoError) : IsError (encodeError err) err := by
  refine ⟨_, rfl, rfl, rfl, rfl, ?_⟩
  obtain ⟨description, code, _ | ⟨migrate, retry⟩⟩ := err
  · intro q h
    contradiction
  · refine ⟨_, rfl, fun i => ?_, fun i => ?_⟩
    · cases migrate <;> cases retry <;> simp [encodeParams, List.lookup_cons]
    · cases migrate <;> cases retry <;> simp [encodeParams, List.lookup_cons]

end LearnWords
