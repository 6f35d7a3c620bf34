import LearnWords.Lib.Coro

/-!
# LearnWords.Lib.Script

Coroutines whose calls may fail, and *scripts*: coroutines that make a fixed
sequence of calls, each after the success of the one before it, and end with
the first failure.  Nothing here mentions a particular program.

A call is answered by a server, unless something outside both parties fails;
then the server has got the call or has not (`Reply`).  Each kind of call needs
some facts, makes some, and does away with some (`Effects`).  What the calls of
a script have made is there as long as the script goes on, and it ends with the
first call that fails (`Script.runs_cases`).  Where every call finds what it
needs among what there was and what the calls before it left
(`Effects.Ordered`), the server refuses none of them (`Script.completes`).
-/

namespace Coro

open Machine

variable {Op : Type} {Val : Op → Type} {ε α β σ C : Type}

/-- A coroutine whose calls end with a value or with a failure. -/
abbrev Fallible (Op : Type) (Val : Op → Type) (ε α : Type) :=
  Coro Op (fun op => Except ε (Val op)) ε α

/-- Await a call; its failure is raised. -/
def attempt (op : Op) : Fallible Op Val ε (Val op) := call op ofExcept

/-- Catch what is raised, and return it. -/
def settle : Fallible Op Val ε Unit → Fallible Op Val ε (Option ε)
  | ret _ => ret none
  | raise e => ret (some e)
  | call op k => call op fun r => settle (k r)

/-- Raise what was returned as a failure. -/
def rethrow (p : Fallible Op Val ε (Option ε)) : Fallible Op Val ε Unit :=
  p >>= fun
    | none => ret ()
    | some e => raise e

/-- What was caught is raised again. -/
@[simp] theorem rethrow_settle (p : Fallible Op Val ε Unit) : rethrow (settle p) = p := by
  induction p with
  | ret a => rfl
  | raise e => rfl
  | call op k ih =>
      simp only [rethrow, settle, call_bind] at ih ⊢
      congr 1
      funext r
      exact ih r

/-! ## scripts -/

/-- The coroutine makes calls of the kinds `cs`. -/
inductive Script (kind : Op → C) : List C → Fallible Op Val ε α → Prop
  | ret (a : α) : Script kind [] (.ret a)
  | call {op : Op} {k : Except ε (Val op) → Fallible Op Val ε α} {c : C} {cs : List C}
      (hc : kind op = c) (goesOn : ∀ v, Script kind cs (k (.ok v)))
      (stops : ∀ e, k (.error e) = .raise e) : Script kind (c :: cs) (.call op k)

variable {kind : Op → C}

/-- A script that has returned has nothing left. -/
theorem Script.of_ret {cs : List C} {a : α} (h : Script kind cs (.ret a : Fallible Op Val ε α)) :
    cs = [] := by
  cases h
  rfl

theorem not_script_raise {cs : List C} {e : ε} :
    ¬ Script kind cs (.raise e : Fallible Op Val ε α) := by
  intro h
  cases h

theorem script_attempt {op : Op} {c : C} (hc : kind op = c) :
    Script kind [c] (attempt op : Fallible Op Val ε _) :=
  .call hc (fun v => .ret v) fun _ => rfl

/-- One script after another. -/
theorem Script.bind {cs ds : List C} {p : Fallible Op Val ε α} {f : α → Fallible Op Val ε β}
    (hp : Script kind cs p) (hf : ∀ a, Script kind ds (f a)) : Script kind (cs ++ ds) (p >>= f) := by
  induction hp with
  | ret a => exact hf a
  | call hc _ stops ih =>
      refine .call hc ih fun e => ?_
      rw [stops]
      rfl

/-- A call, and a script after it. -/
theorem Script.attempt_bind {op : Op} {c : C} {cs : List C} {f : Val op → Fallible Op Val ε α}
    (hc : kind op = c) (hf : ∀ v, Script kind cs (f v)) : Script kind (c :: cs) (attempt op >>= f) :=
  (script_attempt hc).bind hf

end Coro

/-! ## replies -/

/-- What becomes of a call. -/
inductive Reply (ε : Type) where
  /-- the server answers it -/
  | served
  /-- it fails before it reaches the server -/
  | refused (e : ε)
  /-- it reaches the server, and the answer is lost -/
  | lost (e : ε)
deriving DecidableEq

namespace Reply

/-- The failure of a reply that is not the server's. -/
def failure {ε : Type} : Reply ε → Option ε
  | served => none
  | refused e | lost e => some e

end Reply

namespace Coro

open Machine

variable {Op : Type} {Val : Op → Type} {ε α β σ C F : Type}
variable (serve : σ → (op : Op) → Except ε (Val op × σ))

/-- The result of a call, and the server after it. -/
def answer (s : σ) (op : Op) : Reply ε → Except ε (Val op) × σ
  | .served =>
      match serve s op with
      | .ok (v, t) => (.ok v, t)
      | .error e => (.error e, s)
  | .refused e => (.error e, s)
  | .lost e =>
      match serve s op with
      | .ok (_, t) => (.error e, t)
      | .error _ => (.error e, s)

/-- The call a coroutine waits for comes to an end, and the coroutine goes on
to its next call. -/
def callStep (x : Fallible Op Val ε α × σ) (r : Reply ε) : Option (Fallible Op Val ε α × σ) :=
  match x.1 with
  | call op k => some (k (answer serve x.2 op r).1, (answer serve x.2 op r).2)
  | _ => none

variable {serve} {kind : Op → C}

/-- The server is changed by what it serves only. -/
theorem answer_cases (serve : σ → (op : Op) → Except ε (Val op × σ)) (s : σ) (op : Op) (r : Reply ε) :
    (answer serve s op r).2 = s ∨ ∃ v, serve s op = .ok (v, (answer serve s op r).2) := by
  cases r with
  | refused e => exact .inl rfl
  | served | lost e =>
      cases h : serve s op with
      | error e' => exact .inl (by simp [answer, h])
      | ok x => exact .inr ⟨x.1, by simp [answer, h]⟩

/-- What a call that is not served ends with. -/
theorem answer_failure {s : σ} {op : Op} {r : Reply ε} {e : ε} (h : r.failure = some e) :
    (answer serve s op r).1 = .error e := by
  cases r with
  | served => simp [Reply.failure] at h
  | refused e' =>
      obtain rfl := Option.some.inj h
      rfl
  | lost e' =>
      obtain rfl := Option.some.inj h
      simp only [answer]
      split <;> rfl

/-! ## dependencies -/

/-- What a kind of call needs, what it makes, and what it does away with. -/
structure Effects (C F : Type) where
  needs : C → List F
  makes : C → List F
  breaks : C → F → Bool

namespace Effects

variable (E : Effects C F)

/-- The facts available after a call. -/
def after (available : List F) (c : C) : List F :=
  available.filter (fun f => !E.breaks c f) ++ E.makes c

/-- The facts available after some calls. -/
def afterAll (available : List F) (cs : List C) : List F := cs.foldl E.after available

/-- Each call finds what it needs among what the calls before it left. -/
def Ordered : List F → List C → Prop
  | _, [] => True
  | available, c :: cs => (∀ f ∈ E.needs c, f ∈ available) ∧ Ordered (E.after available c) cs

instance decidableOrdered [DecidableEq F] :
    (available : List F) → (cs : List C) → Decidable (E.Ordered available cs)
  | _, [] => .isTrue trivial
  | available, c :: cs => @instDecidableAnd _ _ _ (decidableOrdered (E.after available c) cs)

/-- The calls in order are in order up to any of them, and from there on. -/
theorem ordered_append {available : List F} {cs ds : List C} :
    E.Ordered available (cs ++ ds) ↔
      E.Ordered available cs ∧ E.Ordered (E.afterAll available cs) ds := by
  induction cs generalizing available with
  | nil => exact ⟨fun h => ⟨trivial, h⟩, fun h => h.2⟩
  | cons c cs ih =>
      show _ ∧ E.Ordered (E.after available c) (cs ++ ds) ↔ _
      rw [ih, ← and_assoc]
      rfl

/-- What is available after a call grows with what was available before it. -/
theorem after_subset {a b : List F} {c : C} (h : a ⊆ b) : E.after a c ⊆ E.after b c := by
  intro f hf
  rcases List.mem_append.mp hf with hf | hf
  · obtain ⟨hmem, hbreaks⟩ := List.mem_filter.mp hf
    exact List.mem_append_left _ (List.mem_filter.mpr ⟨h hmem, hbreaks⟩)
  · exact List.mem_append_right _ hf

theorem afterAll_subset {a b : List F} (cs : List C) (h : a ⊆ b) :
    E.afterAll a cs ⊆ E.afterAll b cs := by
  induction cs generalizing a b with
  | nil => exact h
  | cons c cs ih => exact ih (E.after_subset h)

/-- What is available after some calls was so before, or is left by them. -/
theorem mem_afterAll_append {a b : List F} {cs : List C} {f : F} (h : f ∈ E.afterAll (a ++ b) cs) :
    f ∈ a ∨ f ∈ E.afterAll b cs := by
  induction cs generalizing a b with
  | nil => exact List.mem_append.mp h
  | cons c cs ih =>
      have hsplit : E.after (a ++ b) c = a.filter (fun f => !E.breaks c f) ++ E.after b c := by
        simp [after]
      rw [afterAll, List.foldl_cons, hsplit] at h
      rcases ih h with hf | hf
      · exact .inl (List.mem_of_mem_filter hf)
      · exact .inr hf

/-- A call that is served has these effects. -/
def Keeps (serve : σ → (op : Op) → Except ε (Val op × σ)) (kind : Op → C)
    (facts : σ → F → Prop) : Prop :=
  ∀ s op v t, serve s op = .ok (v, t) →
    (∀ f, facts s f → E.breaks (kind op) f = false → facts t f) ∧ ∀ f ∈ E.makes (kind op), facts t f

/-- A call that has what it needs is served. -/
def Accepts (serve : σ → (op : Op) → Except ε (Val op × σ)) (kind : Op → C)
    (facts : σ → F → Prop) : Prop :=
  ∀ s op, (∀ f ∈ E.needs (kind op), facts s f) → ∃ x, serve s op = .ok x

end Effects

section Dependencies

variable {facts : σ → F → Prop} {E : Effects C F}
variable {p q : Fallible Op Val ε α} {cs : List C} {available : List F} {s t : σ}

/-- What no call does away with lasts, whatever becomes of a call. -/
theorem callStep_keeps {r : Reply ε} {f : F} (hkeeps : E.Keeps serve kind facts)
    (hbreaks : ∀ c, E.breaks c f = false) (h : callStep serve (p, s) r = some (q, t))
    (hf : facts s f) : facts t f := by
  cases p with
  | ret | raise => simp [callStep] at h
  | call op k =>
      simp only [callStep, Option.some.injEq, Prod.mk.injEq] at h
      obtain ⟨-, rfl⟩ := h
      rcases answer_cases serve s op r with hsame | ⟨v, hv⟩
      · rwa [hsame]
      · exact (hkeeps _ _ _ _ hv).1 f hf (hbreaks _)

/-- One reply takes a script to its next call, or ends it; the latter only by a
failure, if the call has what it needs. -/
theorem Script.step {c : C} {r : Reply ε} (hkeeps : E.Keeps serve kind facts)
    (hp : Script kind (c :: cs) p) (havailable : ∀ f ∈ available, facts s f) :
    ∃ q t, callStep serve (p, s) r = some (q, t) ∧
      ((r = .served ∧ Script kind cs q ∧ ∀ f ∈ E.after available c, facts t f) ∨
        ∃ e, q = .raise e ∧
          (E.Accepts serve kind facts → (∀ f ∈ E.needs c, facts s f) → r.failure = some e)) := by
  cases hp with
  | @call op k _ _ hc goesOn stops =>
      subst hc
      refine ⟨_, _, rfl, ?_⟩
      cases r with
      | served =>
          cases hserve : serve s op with
          | ok x =>
              obtain ⟨v, t⟩ := x
              obtain ⟨hkept, hmade⟩ := hkeeps s op v t hserve
              have hanswer : answer serve s op .served = (.ok v, t) := by simp [answer, hserve]
              rw [hanswer]
              refine .inl ⟨rfl, goesOn v, fun f hf => ?_⟩
              rcases List.mem_append.mp hf with hf | hf
              · obtain ⟨hmem, hbreaks⟩ := List.mem_filter.mp hf
                exact hkept f (havailable f hmem) (by simpa using hbreaks)
              · exact hmade f hf
          | error e =>
              have hanswer : answer serve s op .served = (.error e, s) := by simp [answer, hserve]
              rw [hanswer]
              refine .inr ⟨e, stops e, fun haccepts hneeds => ?_⟩
              obtain ⟨x, hx⟩ := haccepts s op hneeds
              rw [hserve] at hx
              contradiction
      | refused e | lost e =>
          rw [answer_failure (e := e) rfl]
          exact .inr ⟨e, stops e, fun _ _ => rfl⟩

/-- **Completion**: served throughout, a script in order of its dependencies
is refused nothing, and makes what its calls make. -/
theorem Script.completes (hkeeps : E.Keeps serve kind facts) (haccepts : E.Accepts serve kind facts)
    (hordered : E.Ordered available cs) (hp : Script kind cs p)
    (havailable : ∀ f ∈ available, facts s f) :
    ∃ a t, runs (callStep serve) (p, s) (List.replicate cs.length .served) = some (.ret a, t) ∧
      ∀ f ∈ E.afterAll available cs, facts t f := by
  induction cs generalizing p s available with
  | nil =>
      cases hp with
      | ret a => exact ⟨a, s, rfl, havailable⟩
  | cons c cs ih =>
      obtain ⟨hneeds, hrest⟩ := hordered
      obtain ⟨q, u, hstep, ⟨-, hq, hfacts⟩ | ⟨e, -, hfailure⟩⟩ :=
        hp.step (r := .served) hkeeps havailable
      · obtain ⟨a, t, hruns, hall⟩ := ih hrest hq hfacts
        refine ⟨a, t, ?_, hall⟩
        rw [List.length_cons, List.replicate_succ, runs_cons, hstep, Option.bind_some, hruns]
      · have hfailed := hfailure haccepts fun f hf => havailable f (hneeds f hf)
        simp [Reply.failure] at hfailed

/-- Where a script can be: it has been served so far, and the rest of it is
still to come; or its last call has failed. -/
theorem Script.runs_cases (hkeeps : E.Keeps serve kind facts) (hp : Script kind cs p)
    (havailable : ∀ f ∈ available, facts s f) {rs : List (Reply ε)}
    (h : runs (callStep serve) (p, s) rs = some (q, t)) :
    (∃ n, rs = List.replicate n .served ∧ n ≤ cs.length ∧ Script kind (cs.drop n) q ∧
      ∀ f ∈ E.afterAll available (cs.take n), facts t f) ∨
    (∃ n r e, rs = List.replicate n .served ++ [r] ∧ n < cs.length ∧ q = .raise e ∧
      (E.Accepts serve kind facts → E.Ordered available cs → r.failure = some e)) := by
  induction rs generalizing p s available cs with
  | nil =>
      simp only [runs_nil, Option.some.injEq, Prod.mk.injEq] at h
      obtain ⟨rfl, rfl⟩ := h
      exact .inl ⟨0, rfl, Nat.zero_le _, hp, havailable⟩
  | cons r rs ih =>
      rw [runs_cons] at h
      obtain ⟨⟨q₁, u⟩, hstep, hrest⟩ := Option.bind_eq_some_iff.mp h
      cases cs with
      | nil =>
          cases hp
          simp [callStep] at hstep
      | cons c cs =>
          obtain ⟨q₂, u₂, hstep', hcases⟩ := hp.step (r := r) hkeeps havailable
          rw [hstep, Option.some.injEq, Prod.mk.injEq] at hstep'
          obtain ⟨rfl, rfl⟩ := hstep'
          rcases hcases with ⟨rfl, hq, hfacts⟩ | ⟨e, rfl, hfailure⟩
          · rcases ih hq hfacts hrest with
              ⟨n, rfl, hle, hscript, hall⟩ | ⟨n, r', e, rfl, hlt, rfl, hfailure⟩
            · exact .inl ⟨n + 1, rfl, Nat.succ_le_succ hle, hscript, hall⟩
            · exact .inr ⟨n + 1, r', e, rfl, Nat.succ_lt_succ hlt, rfl,
                fun haccepts hordered => hfailure haccepts hordered.2⟩
          · cases rs with
            | nil =>
                simp only [runs_nil, Option.some.injEq, Prod.mk.injEq] at hrest
                exact .inr ⟨0, r, e, rfl, Nat.zero_lt_succ _, hrest.1.symm,
                  fun haccepts hordered => hfailure haccepts fun f hf => havailable f (hordered.1 f hf)⟩
            | cons r' rs => simp [callStep] at hrest

end Dependencies

end Coro
