import LearnWords.Lib.Coro
import Mathlib.Data.List.Perm.Basic

/-!
# LearnWords.Lib.Interleaving

When it makes no difference how coroutines interleave.  Nothing here mentions a
particular program.

Coroutines with atomic calls share a state; of it, `view` is what their calls
may depend on, and `log` is what they append to.  A *reader* (`Coro.Reads`)
leaves the view alone, and appends the same entries whatever it reads.  A
*writer* (`Coro.Writes`) takes the view from `v₀` to `v₁`, and relies on nobody
else changing it.

A crew of readers and at most one writer ends, in every interleaving, with the
view and the log entries it ends with when its members run one after the
other, up to the order of the entries (`execAll_crew`, `runs_crew`).
-/

namespace Coro

variable {Op : Type} {Res : Op → Type} {ε α β σ τ : Type}

/-- In every state whose view has `J`, each call of the coroutine succeeds,
leaves the view alone, and appends to the log; `ws` is what is appended in
all, whatever the calls answer. -/
inductive Reads (handler : σ → (op : Op) → Option (Res op × σ)) (view : σ → τ) (J : τ → Prop)
    (log : σ → List β) : Coro Op Res ε α → List β → Prop
  | ret (a : α) : Reads handler view J log (.ret a) []
  | raise (e : ε) : Reads handler view J log (.raise e) []
  | call {op : Op} {k : Res op → Coro Op Res ε α} (P : Res op → Prop) (ws rest : List β)
      (performs : ∀ s, J (view s) → ∃ r t, handler s op = some (r, t) ∧ P r ∧
        view t = view s ∧ log t = log s ++ ws)
      (continues : ∀ r, P r → Reads handler view J log (k r) rest) :
      Reads handler view J log (.call op k) (ws ++ rest)

/-- From a state with the view `v`, the coroutine goes through views with `J`
to `v₁`, and appends `ws` to the log. -/
inductive Writes (handler : σ → (op : Op) → Option (Res op × σ)) (view : σ → τ) (J : τ → Prop)
    (log : σ → List β) (v₁ : τ) : τ → Coro Op Res ε α → List β → Prop
  | ret (a : α) : Writes handler view J log v₁ v₁ (.ret a) []
  | raise (e : ε) : Writes handler view J log v₁ v₁ (.raise e) []
  | call {v w : τ} {op : Op} {k : Res op → Coro Op Res ε α} (r : Res op) (ws rest : List β)
      (performs : ∀ s, view s = v → ∃ t, handler s op = some (r, t) ∧ view t = w ∧
        log t = log s ++ ws)
      (within : J w) (continues : Writes handler view J log v₁ w (k r) rest) :
      Writes handler view J log v₁ v (.call op k) (ws ++ rest)

variable {handler : σ → (op : Op) → Option (Res op × σ)} {view : σ → τ} {J : τ → Prop}
  {log : σ → List β} {v v₁ : τ}

/-! ## one coroutine -/

theorem Reads.exec {p : Coro Op Res ε α} {ws : List β} (h : Reads handler view J log p ws) {s : σ}
    (hs : J (view s)) :
    ∃ a t, p.exec handler s = some (a, t) ∧ view t = view s ∧ log t = log s ++ ws := by
  induction h generalizing s with
  | ret a => exact ⟨.ok a, s, rfl, rfl, (List.append_nil _).symm⟩
  | raise e => exact ⟨.error e, s, rfl, rfl, (List.append_nil _).symm⟩
  | call P ws rest performs _ ih =>
      obtain ⟨r, t, ht, hr, hview, hlog⟩ := performs s hs
      obtain ⟨a, u, hu, hviewu, hlogu⟩ := ih r hr (hview ▸ hs)
      refine ⟨a, u, ?_, hviewu.trans hview, by rw [hlogu, hlog, List.append_assoc]⟩
      simp only [Coro.exec, ht, Option.bind_some]
      exact hu

theorem Writes.exec {p : Coro Op Res ε α} {ws : List β} (h : Writes handler view J log v₁ v p ws)
    {s : σ} (hs : view s = v) :
    ∃ a t, p.exec handler s = some (a, t) ∧ view t = v₁ ∧ log t = log s ++ ws := by
  induction h generalizing s with
  | ret a => exact ⟨.ok a, s, rfl, hs, (List.append_nil _).symm⟩
  | raise e => exact ⟨.error e, s, rfl, hs, (List.append_nil _).symm⟩
  | call r ws rest performs _ _ ih =>
      obtain ⟨t, ht, hview, hlog⟩ := performs s hs
      obtain ⟨a, u, hu, hviewu, hlogu⟩ := ih hview
      refine ⟨a, u, ?_, hviewu, by rw [hlogu, hlog, List.append_assoc]⟩
      simp only [Coro.exec, ht, Option.bind_some]
      exact hu

/-- A reader that has ended has nothing left to append. -/
theorem Reads.eq_nil_of_finished {p : Coro Op Res ε α} {ws : List β}
    (h : Reads handler view J log p ws) (hf : p.finished = true) : ws = [] := by
  cases h with
  | ret | raise => rfl
  | call => simp [finished] at hf

/-- Nor has a writer, and the view is the one it goes to. -/
theorem Writes.of_finished {p : Coro Op Res ε α} {ws : List β}
    (h : Writes handler view J log v₁ v p ws) (hf : p.finished = true) : ws = [] ∧ v = v₁ := by
  cases h with
  | ret | raise => exact ⟨rfl, rfl⟩
  | call => simp [finished] at hf

/-! ## a crew, one after the other -/

/-- The part of the coroutine in place `i` of a crew: `writer` is the place of
the writer, if there is one, and `v` is the view it goes on from. -/
def Plays (handler : σ → (op : Op) → Option (Res op × σ)) (view : σ → τ) (J : τ → Prop)
    (log : σ → List β) (writer : Option Nat) (v₁ v : τ) (i : Nat) (p : Coro Op Res ε α)
    (ws : List β) : Prop :=
  if writer = some i then Writes handler view J log v₁ v p ws else Reads handler view J log p ws

/-- The view after the first `n` places. -/
def viewAfter (writer : Option Nat) (v₀ v₁ : τ) (n : Nat) : τ :=
  match writer with
  | some i => if i < n then v₁ else v₀
  | none => v₀

variable {writer : Option Nat} {v₀ : τ}

theorem viewAfter_of_eq {n : Nat} (h : writer = some n) : viewAfter writer v₀ v₁ n = v₀ := by
  simp [viewAfter, h]

theorem viewAfter_succ (n : Nat) : viewAfter writer v₀ v₁ (n + 1) =
    if writer = some n then v₁ else viewAfter writer v₀ v₁ n := by
  cases writer with
  | none => rfl
  | some i =>
      simp only [viewAfter, Option.some.injEq]
      by_cases hin : i = n
      · rw [if_pos hin, if_pos (by omega)]
      · rw [if_neg hin]
        by_cases hlt : i < n
        · rw [if_pos hlt, if_pos (by omega)]
        · rw [if_neg hlt, if_neg (by omega)]

/-- It is one of the two views. -/
theorem viewAfter_within (hJ₀ : J v₀) (hJ₁ : J v₁) (n : Nat) : J (viewAfter writer v₀ v₁ n) := by
  unfold viewAfter
  split
  · split
    · exact hJ₁
    · exact hJ₀
  · exact hJ₀

theorem execAll_concat (ps : List (Coro Op Res ε α)) (p : Coro Op Res ε α) (s : σ) :
    execAll handler (ps ++ [p]) s =
      (execAll handler ps s).bind fun t => (p.exec handler t).map Prod.snd := by
  induction ps generalizing s with
  | nil => cases h : p.exec handler s <;> simp [execAll, h]
  | cons q ps ih =>
      simp only [List.cons_append, execAll, Option.bind_assoc]
      congr 1
      funext r
      exact ih r.2

/-- **A crew in sequence**: run one after the other, its members take the view
to where the writer takes it, and append their entries in order. -/
theorem execAll_crew {ps : List (Coro Op Res ε α)} {new : Coro Op Res ε α → List β} (hJ₀ : J v₀)
    (hJ₁ : J v₁)
    (hps : ∀ i p, ps[i]? = some p → Plays handler view J log writer v₁ v₀ i p (new p)) {s : σ}
    (hs : view s = v₀) :
    ∃ t, execAll handler ps s = some t ∧ view t = viewAfter writer v₀ v₁ ps.length ∧
      log t = log s ++ (ps.map new).flatten := by
  induction ps using List.reverseRecOn with
  | nil =>
      refine ⟨s, rfl, ?_, by simp⟩
      rw [hs]
      cases writer <;> rfl
  | append_singleton ps p ih =>
      obtain ⟨t, ht, hview, hlog⟩ := ih fun i q hq => hps i q (by
        rw [List.getElem?_append_left (List.getElem?_eq_some_iff.mp hq).1]
        exact hq)
      have hp := hps ps.length p (by simp)
      have hlast : ∃ a u, p.exec handler t = some (a, u) ∧
          view u = viewAfter writer v₀ v₁ (ps.length + 1) ∧ log u = log t ++ new p := by
        rw [viewAfter_succ]
        unfold Plays at hp
        split at hp
        · next hw =>
            rw [if_pos hw]
            exact hp.exec (hview.trans (viewAfter_of_eq hw))
        · next hw =>
            rw [if_neg hw, ← hview]
            exact hp.exec (hview ▸ viewAfter_within hJ₀ hJ₁ _)
      obtain ⟨a, u, hu, hviewu, hlogu⟩ := hlast
      refine ⟨u, by simp [execAll_concat, ht, hu], by simpa using hviewu, ?_⟩
      rw [hlogu, hlog]
      simp

end Coro

/-! ## a crew, interleaved -/

namespace Pool

open Machine Coro

variable {Op : Type} {Res : Op → Type} {ε β σ τ : Type}
variable {handler : σ → (op : Op) → Option (Res op × σ)} {view : σ → τ} {J : τ → Prop}
  {log : σ → List β} {writer : Option Nat} {v₀ v₁ : τ}

/-- Moving a prefix of one entry to the front only reorders a flattened list. -/
theorem perm_flatten_set {l : List (List β)} {i : Nat} {ws rest : List β}
    (hi : l[i]? = some (ws ++ rest)) : (ws ++ (l.set i rest).flatten).Perm l.flatten := by
  induction l generalizing i with
  | nil => simp at hi
  | cons x xs ih =>
      cases i with
      | zero =>
          simp only [List.getElem?_cons_zero, Option.some.injEq] at hi
          simp [hi]
      | succ i =>
          have hxs := ih (i := i) (by simpa using hi)
          simp only [List.set_cons_succ, List.flatten_cons]
          calc ws ++ (x ++ (xs.set i rest).flatten)
              |>.Perm (x ++ (ws ++ (xs.set i rest).flatten)) := by
                simp only [← List.append_assoc]
                exact (List.perm_append_comm).append_right _
            _ |>.Perm (x ++ xs.flatten) := hxs.append_left x

/-- The fibers of a pool are a crew at work; `wss` is what they have still to
append. -/
structure Crew (handler : σ → (op : Op) → Option (Res op × σ)) (view : σ → τ) (J : τ → Prop)
    (log : σ → List β) (writer : Option Nat) (v₀ v₁ : τ) (s : Pool Op Res ε σ)
    (wss : List (List β)) : Prop where
  length : s.fibers.length = wss.length
  plays : ∀ i f ws, s.fibers[i]? = some f → wss[i]? = some ws →
    ∃ p, f = .ready p ∧ Plays handler view J log writer v₁ (view s.world) i p ws
  /-- until the writer is spawned the view is the first one -/
  ahead : (∀ i, writer = some i → s.fibers.length ≤ i) → view s.world = v₀
  within : J (view s.world)

/-- Only the writer's own part depends on the view. -/
theorem plays_congr {v w : τ} {i : Nat} {p : Coro Op Res ε Unit} {ws : List β}
    (h : Plays handler view J log writer v₁ v i p ws) (hw : w = v ∨ writer ≠ some i) :
    Plays handler view J log writer v₁ w i p ws := by
  rcases hw with rfl | hne
  · exact h
  · unfold Plays at h ⊢
    rw [if_neg hne] at h ⊢
    exact h

/-- One member goes on: the writer, or another one without changing the
view. -/
theorem Crew.set {s : Pool Op Res ε σ} {wss : List (List β)} {i : Nat} {world : σ}
    {p : Coro Op Res ε Unit} {ws : List β} (hs : Crew handler view J log writer v₀ v₁ s wss)
    (hi : i < s.fibers.length)
    (hplays : Plays handler view J log writer v₁ (view world) i p ws)
    (hview : view world = view s.world ∨ writer = some i) (hJ : J (view world)) :
    Crew handler view J log writer v₀ v₁ ⟨world, s.fibers.set i (.ready p)⟩ (wss.set i ws) where
  length := by rw [List.length_set, List.length_set, hs.length]
  plays := by
    intro j f ws' hf hws
    by_cases hij : i = j
    · subst hij
      rw [List.getElem?_set_self hi, Option.some.injEq] at hf
      rw [List.getElem?_set_self (hs.length ▸ hi), Option.some.injEq] at hws
      subst hf hws
      exact ⟨p, rfl, hplays⟩
    · rw [List.getElem?_set_ne hij] at hf hws
      obtain ⟨q, hq, hother⟩ := hs.plays j f ws' hf hws
      refine ⟨q, hq, plays_congr hother (hview.imp id fun hw => ?_)⟩
      simpa [hw] using hij
  ahead := by
    intro hahead
    rcases hview with hview | hw
    · rw [hview]
      refine hs.ahead fun i hw => ?_
      simpa using hahead i hw
    · have hle := hahead i hw
      rw [List.length_set] at hle
      omega
  within := hJ

/-- A new member in the next place. -/
theorem Crew.spawn {s : Pool Op Res ε σ} {wss : List (List β)} {p : Coro Op Res ε Unit}
    {ws : List β} (hs : Crew handler view J log writer v₀ v₁ s wss)
    (hp : Plays handler view J log writer v₁ v₀ s.fibers.length p ws) :
    Crew handler view J log writer v₀ v₁ { s with fibers := s.fibers ++ [.ready p] }
      (wss ++ [ws]) where
  length := by simp [hs.length]
  plays := by
    intro j f ws' hf hws
    rcases Nat.lt_or_ge j s.fibers.length with hlt | hge
    · rw [List.getElem?_append_left hlt] at hf
      rw [List.getElem?_append_left (hs.length ▸ hlt)] at hws
      exact hs.plays j f ws' hf hws
    · have hj : j = s.fibers.length := by
        have hbound := (List.getElem?_eq_some_iff.mp hf).1
        rw [List.length_append, List.length_singleton] at hbound
        omega
      subst hj
      rw [List.getElem?_concat_length, Option.some.injEq] at hf
      rw [hs.length, List.getElem?_concat_length, Option.some.injEq] at hws
      subst hf hws
      refine ⟨p, rfl, plays_congr hp ?_⟩
      by_cases hw : writer = some s.fibers.length
      · refine .inl (hs.ahead fun i hi => ?_)
        rw [hw, Option.some.injEq] at hi
        omega
      · exact .inr hw
  ahead := fun hahead => hs.ahead fun i hi => by
    have hle := hahead i hi
    rw [List.length_append, List.length_singleton] at hle
    omega
  within := hs.within

/-- One atomic event keeps the crew at work, and only reorders what is logged
together with what is still to be logged. -/
theorem crew_step {s t : Pool Op Res ε σ} {e : AtomicEvent Op Res ε} {wss : List (List β)}
    {new : Coro Op Res ε Unit → List β} (hs : Crew handler view J log writer v₀ v₁ s wss)
    (hnew : ∀ p, e.spawned = some p →
      Plays handler view J log writer v₁ v₀ s.fibers.length p (new p))
    (h : atomicStep handler s e = some t) :
    ∃ wss', Crew handler view J log writer v₀ v₁ t wss' ∧
      t.fibers.length = s.fibers.length + e.spawned.toList.length ∧
      (log t.world ++ wss'.flatten).Perm
        (log s.world ++ wss.flatten ++ (e.spawned.toList.map new).flatten) := by
  cases e with
  | spawn p =>
      simp only [atomicStep, AtomicEvent.expand, runs_cons, runs_nil, step, Option.bind_some,
        Option.some.injEq] at h
      subst h
      exact ⟨wss ++ [new p], hs.spawn (hnew p rfl), by simp [AtomicEvent.spawned],
        by simp [AtomicEvent.spawned]⟩
  | advance i =>
      obtain ⟨op, k, r, hi, hr, rfl⟩ := atomicStep_advance h
      have hlt : i < s.fibers.length := (List.getElem?_eq_some_iff.mp hi).1
      obtain ⟨ws, hws⟩ : ∃ ws, wss[i]? = some ws :=
        ⟨_, List.getElem?_eq_getElem (hs.length ▸ hlt)⟩
      obtain ⟨p, hp, hplays⟩ := hs.plays i _ ws hi hws
      cases hp
      -- the writer goes on, or a reader does
      obtain ⟨ws', rest, rfl, hlog, hview, hJ, hrest⟩ : ∃ ws' rest, ws = ws' ++ rest ∧
          log r.2 = log s.world ++ ws' ∧ (view r.2 = view s.world ∨ writer = some i) ∧
          J (view r.2) ∧ Plays handler view J log writer v₁ (view r.2) i (k r.1) rest := by
        unfold Plays at hplays ⊢
        split at hplays
        · next hw =>
            cases hplays with
            | call r' ws' rest performs within continues =>
                obtain ⟨u, hu, hviewu, hlogu⟩ := performs s.world rfl
                rw [hr, Option.some.injEq] at hu
                subst hu hviewu
                exact ⟨ws', rest, rfl, hlogu, .inr hw, within, by rw [if_pos hw]; exact continues⟩
        · next hw =>
            cases hplays with
            | call P ws' rest performs continues =>
                obtain ⟨r', u, hu, hP, hviewu, hlogu⟩ := performs s.world hs.within
                rw [hr, Option.some.injEq] at hu
                subst hu
                exact ⟨ws', rest, rfl, hlogu, .inl hviewu, hviewu ▸ hs.within,
                  by rw [if_neg hw]; exact continues r' hP⟩
      refine ⟨wss.set i rest, hs.set hlt hrest hview hJ, by simp [AtomicEvent.spawned], ?_⟩
      simp only [AtomicEvent.spawned, Option.toList_none, List.map_nil, List.flatten_nil,
        List.append_nil, hlog, List.append_assoc]
      exact (perm_flatten_set hws).append_left _

/-- However atomic calls interleave, the crew stays at work, and what is logged
together with what is still to be logged is what its members append, in some
order. -/
theorem runs_crew {s t : Pool Op Res ε σ} {es : List (AtomicEvent Op Res ε)}
    {new : Coro Op Res ε Unit → List β} (hempty : s.fibers = []) (hs : view s.world = v₀)
    (hJ₀ : J v₀)
    (hnew : ∀ i p, (es.filterMap AtomicEvent.spawned)[i]? = some p →
      Plays handler view J log writer v₁ v₀ i p (new p))
    (h : runs (atomicStep handler) s es = some t) :
    ∃ wss, Crew handler view J log writer v₀ v₁ t wss ∧
      t.fibers.length = (es.filterMap AtomicEvent.spawned).length ∧
      (log t.world ++ wss.flatten).Perm
        (log s.world ++ ((es.filterMap AtomicEvent.spawned).map new).flatten) := by
  induction es using List.reverseRecOn generalizing t with
  | nil =>
      simp only [runs_nil, Option.some.injEq] at h
      subst h
      exact ⟨[], ⟨by simp [hempty], by simp, fun _ => hs, hs ▸ hJ₀⟩, by simp [hempty], by simp⟩
  | append_singleton es e ih =>
      rw [runs_concat] at h
      obtain ⟨u, hu, hstep⟩ := Option.bind_eq_some_iff.mp h
      have hsplit : (es ++ [e]).filterMap AtomicEvent.spawned =
          es.filterMap AtomicEvent.spawned ++ e.spawned.toList := by
        rw [List.filterMap_append]
        cases hsp : e.spawned <;> simp [hsp]
      rw [hsplit] at hnew ⊢
      obtain ⟨wss, hcrew, hlen, hperm⟩ := ih (fun i p hp => hnew i p (by
        rw [List.getElem?_append_left (List.getElem?_eq_some_iff.mp hp).1]
        exact hp)) hu
      have hspawned : ∀ p, e.spawned = some p →
          Plays handler view J log writer v₁ v₀ u.fibers.length p (new p) := by
        intro p hp
        exact hnew _ p (by simp [hlen, hp])
      obtain ⟨wss', hcrew', hlen', hperm'⟩ := crew_step hcrew hspawned hstep
      refine ⟨wss', hcrew', by simp [hlen', hlen], hperm'.trans ?_⟩
      rw [List.map_append, List.flatten_append, ← List.append_assoc]
      exact hperm.append_right _

/-- When every member has ended, nothing is left to append, and the view is
where the writer took it. -/
theorem Crew.of_finished {s : Pool Op Res ε σ} {wss : List (List β)}
    (hs : Crew handler view J log writer v₀ v₁ s wss) (hend : ∀ f ∈ s.fibers, f.finished = true) :
    wss.flatten = [] ∧ view s.world = viewAfter writer v₀ v₁ s.fibers.length := by
  constructor
  · rw [List.flatten_eq_nil_iff]
    intro ws hws
    obtain ⟨i, hi, rfl⟩ := List.getElem_of_mem hws
    have hi' : i < s.fibers.length := hs.length ▸ hi
    obtain ⟨p, hp, hplays⟩ := hs.plays i _ _ (List.getElem?_eq_getElem hi')
      (List.getElem?_eq_getElem hi)
    have hfinished : p.finished = true := by
      have hready := hend _ (List.getElem_mem hi')
      rwa [hp] at hready
    unfold Plays at hplays
    split at hplays
    · exact (hplays.of_finished hfinished).1
    · exact hplays.eq_nil_of_finished hfinished
  · by_cases hwriter : ∀ i, writer = some i → s.fibers.length ≤ i
    · rw [hs.ahead hwriter]
      cases hw : writer with
      | none => rfl
      | some i =>
          have hle := hwriter i hw
          simp [viewAfter, Nat.not_lt.mpr hle]
    · simp only [not_forall, Nat.not_le] at hwriter
      obtain ⟨i, hw, hi⟩ := hwriter
      obtain ⟨p, hp, hplays⟩ := hs.plays i _ _ (List.getElem?_eq_getElem hi)
        (List.getElem?_eq_getElem (hs.length ▸ hi))
      have hfinished : p.finished = true := by
        have hready := hend _ (List.getElem_mem hi)
        rwa [hp] at hready
      unfold Plays at hplays
      rw [if_pos hw] at hplays
      simp [viewAfter, hw, hi, (hplays.of_finished hfinished).2]

/-- **A crew, interleaved**: once every member has ended, the view is where the
writer took it, and the log holds exactly the entries of the members, in some
order. -/
theorem runs_crew_finished {s t : Pool Op Res ε σ} {es : List (AtomicEvent Op Res ε)}
    {new : Coro Op Res ε Unit → List β} (hempty : s.fibers = []) (hs : view s.world = v₀)
    (hJ₀ : J v₀)
    (hnew : ∀ i p, (es.filterMap AtomicEvent.spawned)[i]? = some p →
      Plays handler view J log writer v₁ v₀ i p (new p))
    (h : runs (atomicStep handler) s es = some t) (hend : ∀ f ∈ t.fibers, f.finished = true) :
    view t.world = viewAfter writer v₀ v₁ (es.filterMap AtomicEvent.spawned).length ∧
      (log t.world).Perm (log s.world ++ ((es.filterMap AtomicEvent.spawned).map new).flatten) := by
  obtain ⟨wss, hcrew, hlen, hperm⟩ := runs_crew hempty hs hJ₀ hnew h
  obtain ⟨hnil, hview⟩ := hcrew.of_finished hend
  rw [hnil, List.append_nil] at hperm
  exact ⟨hlen ▸ hview, hperm⟩

end Pool
