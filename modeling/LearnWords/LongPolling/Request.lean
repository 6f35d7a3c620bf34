import Mathlib.Data.List.Nodup
import LearnWords.LongPolling

/-!
# LearnWords.LongPolling.Request

What a receiver reads out of a `getUpdates` request.

The object is read by the names of its members, and the kinds of updates by
their names in the array `allowed_updates`, which is left out where no kind is
selected.  Reading it back gives the arguments of `long_polling` and the offset
the request was made for (`readRequest_getUpdatesParams`).
-/

namespace LearnWords

namespace AllowedUpdate

/-- Every kind has a name. -/
theorem exists_name (kind : AllowedUpdate) : ∃ name, (kind, name) ∈ names := by
  have hmem : kind ∈ names.map Prod.fst := by cases kind <;> decide
  obtain ⟨⟨kind, name⟩, hp, rfl⟩ := List.mem_map.mp hmem
  exact ⟨name, hp⟩

/-- No two entries have the same name. -/
theorem nodup_names : (names.map Prod.snd).Nodup := by
  decide +kernel

/-- So a name stands for one kind. -/
theorem eq_of_name {p q : AllowedUpdate × String} (hp : p ∈ names) (hq : q ∈ names)
    (h : p.2 = q.2) : p = q :=
  List.inj_on_of_nodup_map nodup_names hp hq h

end AllowedUpdate

open AllowedUpdate

/-- The kinds whose names stand in an array. -/
def readAllowedUpdates (vs : List Value) : AllowedUpdates := fun kind =>
  names.any fun p => p.1 = kind && vs.any fun v => ifString v = some p.2

/-- The configuration and the offset of a request, read by the names of its
members. -/
def readRequest (params : Object) : Option (PollConfig × Option Int64) := do
  let limit ← (ifContains params "limit").bind ifInt64
  let timeout ← (ifContains params "timeout").bind ifInt64
  let allowed := ((ifContains params "allowed_updates").bind ifArray).getD []
  return (⟨timeout, limit.toInt32, readAllowedUpdates allowed⟩,
    (ifContains params "offset").bind ifInt64)

/-- The array holds the name of an entry exactly if its kind is selected. -/
theorem string_mem_makeAllowedUpdates {allowed : AllowedUpdates} {p : AllowedUpdate × String}
    (hp : p ∈ names) : .string p.2 ∈ makeAllowedUpdates allowed ↔ allowed p.1 = true := by
  constructor
  · intro h
    obtain ⟨q, hq, hname⟩ := List.mem_map.mp h
    obtain ⟨hmem, hallowed⟩ := List.mem_filter.mp hq
    rw [Value.string.injEq] at hname
    rwa [← eq_of_name hmem hp hname]
  · intro h
    exact List.mem_map.mpr ⟨p, List.mem_filter.mpr ⟨hp, h⟩, rfl⟩

/-- A kind is read out of the array exactly if it was selected. -/
theorem readAllowedUpdates_make (allowed : AllowedUpdates) :
    readAllowedUpdates (makeAllowedUpdates allowed) = allowed := by
  funext kind
  rw [Bool.eq_iff_iff]
  simp only [readAllowedUpdates, List.any_eq_true, Bool.and_eq_true, decide_eq_true_eq]
  constructor
  · rintro ⟨p, hp, rfl, v, hv, hname⟩
    rw [ifString_eq_some] at hname
    subst hname
    exact (string_mem_makeAllowedUpdates hp).mp hv
  · intro h
    obtain ⟨name, hname⟩ := exists_name kind
    exact ⟨_, hname, rfl, _, (string_mem_makeAllowedUpdates hname).mpr h, rfl⟩

/-- Without a selection the array would be empty. -/
theorem makeAllowedUpdates_eq_nil {allowed : AllowedUpdates}
    (h : ¬ (names.any fun p => allowed p.1) = true) : makeAllowedUpdates allowed = [] := by
  simp only [List.any_eq_true, not_exists, not_and] at h
  rw [makeAllowedUpdates, List.map_eq_nil_iff, List.filter_eq_nil_iff]
  exact h

/-- The array of a request, or its absence. -/
theorem allowed_getUpdatesParams (cfg : PollConfig) (offset : Option Int64) :
    ((ifContains (getUpdatesParams cfg offset) "allowed_updates").bind ifArray).getD [] =
      makeAllowedUpdates cfg.allowed := by
  unfold getUpdatesParams
  split
  · rfl
  · next hnone =>
      rw [makeAllowedUpdates_eq_nil hnone]
      cases offset <;> rfl

@[simp] theorem timeout_getUpdatesParams (cfg : PollConfig) (offset : Option Int64) :
    (ifContains (getUpdatesParams cfg offset) "timeout").bind ifInt64 = some cfg.timeout := rfl

/-- **Round trip**: a request is read back as the configuration and the offset
it was made for, whatever is selected. -/
theorem readRequest_getUpdatesParams (cfg : PollConfig) (offset : Option Int64) :
    readRequest (getUpdatesParams cfg offset) = some (cfg, offset) := by
  simp only [readRequest, limit_getUpdatesParams, timeout_getUpdatesParams,
    offset_getUpdatesParams, allowed_getUpdatesParams, readAllowedUpdates_make,
    Int32.toInt32_toInt64, Option.bind_eq_bind, Option.bind_some]
  rfl

end LearnWords
