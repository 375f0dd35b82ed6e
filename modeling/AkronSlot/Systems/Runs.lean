import Mathlib

/-!
# Runs of partial step functions

A system is a step function `σ → ε → Option σ`: `none` means that the event
cannot happen in the state.  `run` follows a list of events.  `Along` says that
every step of a run meets a condition on the state before it and the event; it
is how a result about runs that stay clear of some event is stated.

## Two ways to state a result about runs

A result about every run is an invariant, and `run_invariant` is the induction. Where the
program goes wrong on some events, the result is an equivalence: the good thing holds of a run
exactly if every step of it meets a condition. The condition is about the state before a step
and the event, never about what the step makes, so it can be read without running the step.
`run_along_iff` and `steps_iff_along` turn an equivalence for one step into one for runs; the
first is about the state that is reached, the second about each step on the way.

## Main Results

* `run_append`, `along_iff_forall`
* `run_invariant`, `run_along_invariant`, `exists_run_iff_reflTransGen`
* `run_project` — the runs of a part of a system
* `run_along_iff`, `run_along_iff_of_invariant`, `along_congr`
* `steps_iff_along_of_cond`, `steps_iff_along`
* `register_eq_iff` — a register holds what was written last
-/

namespace Systems

variable {σ ε : Type*} (step : σ → ε → Option σ)

/-- Follow a list of events. A run that contains an event that cannot happen is no run. -/
def run : σ → List ε → Option σ
  | s, [] => some s
  | s, e :: es => (step s e).bind fun s' => run s' es

/-- Every step of the run meets a condition on its state and its event. It is defined by recursion
on the events, so a concrete run is unfolded by evaluation. -/
def Along (cond : σ → ε → Prop) : σ → List ε → Prop
  | _, [] => True
  | s, e :: es => cond s e ∧ ∀ s', step s e = some s' → Along cond s' es

@[simp] theorem run_nil (s : σ) : run step s [] = some s := rfl

theorem run_cons {s s' : σ} {e : ε} {es : List ε} :
    run step s (e :: es) = some s' ↔ ∃ t, step s e = some t ∧ run step t es = some s' := by
  simp [run, Option.bind_eq_some_iff]

/-- A condition along a run, taken apart at a step that can happen. -/
theorem along_cons {cond : σ → ε → Prop} {s t : σ} {e : ε} (h : step s e = some t) (es : List ε) :
    Along step cond s (e :: es) ↔ cond s e ∧ Along step cond t es := by
  simp [Along, h]

/-- A run over two lists passes through a state between them. -/
theorem run_append {s s' : σ} {es fs : List ε} :
    run step s (es ++ fs) = some s' ↔ ∃ t, run step s es = some t ∧ run step t fs = some s' := by
  induction es generalizing s with
  | nil => simp
  | cons e es ih =>
      simp only [List.cons_append, run_cons, ih]
      constructor
      · rintro ⟨t, ht, u, hu, hs⟩
        exact ⟨u, ⟨t, ht, hu⟩, hs⟩
      · rintro ⟨u, ⟨t, ht, hu⟩, hs⟩
        exact ⟨t, ht, u, hu, hs⟩

/-- A condition along a run says what holds whenever an event's turn comes. -/
theorem along_iff_forall {cond : σ → ε → Prop} {s : σ} {es : List ε} :
    Along step cond s es ↔ ∀ before e after t, es = before ++ e :: after →
      run step s before = some t → cond t e := by
  induction es generalizing s with
  | nil => exact iff_of_true trivial fun before e after t h => by simp at h
  | cons e es ih =>
      constructor
      · rintro ⟨hcond, hrest⟩ before e' after t heq hrun
        cases before with
        | nil =>
            cases heq
            cases hrun
            exact hcond
        | cons b before =>
            obtain ⟨rfl, rfl⟩ := List.cons.inj heq
            obtain ⟨u, hu, hrun⟩ := (run_cons step).mp hrun
            exact ih.mp (hrest u hu) before e' after t rfl hrun
      · intro h
        refine ⟨h [] e es s rfl rfl, fun u hu => ih.mpr ?_⟩
        intro before e' after t heq hrun
        refine h (e :: before) e' after t (by rw [heq]; rfl) ?_
        exact (run_cons step).mpr ⟨u, hu, hrun⟩

/-- A condition along a run goes on along the rest of it. -/
theorem Along.of_append {cond : σ → ε → Prop} {s t : σ} {es fs : List ε}
    (h : Along step cond s (es ++ fs)) (hrun : run step s es = some t) : Along step cond t fs := by
  induction es generalizing s with
  | nil =>
      cases hrun
      exact h
  | cons e es ih =>
      obtain ⟨u, hu, hrest⟩ := (run_cons step).mp hrun
      exact ih (h.2 u hu) hrest

/-- A condition along a run goes along its beginning. -/
theorem Along.left {cond : σ → ε → Prop} {s : σ} {es fs : List ε}
    (h : Along step cond s (es ++ fs)) : Along step cond s es := by
  induction es generalizing s with
  | nil => trivial
  | cons e es ih => exact ⟨h.1, fun t ht => ih (h.2 t ht)⟩

variable {step}

/-- **The invariant rule with a condition**: what every step that meets the
condition preserves holds at the end of every run along the condition. -/
theorem run_along_invariant {cond : σ → ε → Prop} {Inv : σ → Prop}
    (hstep : ∀ s e s', Inv s → cond s e → step s e = some s' → Inv s')
    {s s' : σ} {es : List ε} (hinv : Inv s) (halong : Along step cond s es)
    (hrun : run step s es = some s') : Inv s' := by
  induction es generalizing s with
  | nil =>
      cases hrun
      exact hinv
  | cons e es ih =>
      obtain ⟨t, ht, hrest⟩ := (run_cons step).mp hrun
      exact ih (hstep s e t hinv halong.1 ht) (halong.2 t ht) hrest

theorem along_true (s : σ) (es : List ε) : Along step (fun _ _ => True) s es := by
  induction es generalizing s with
  | nil => trivial
  | cons e es ih => exact ⟨trivial, fun t _ => ih t⟩

/-- A condition on the events alone. -/
theorem along_of_forall {kind : ε → Prop} {es : List ε} (h : ∀ e ∈ es, kind e) (s : σ) :
    Along step (fun _ e => kind e) s es := by
  induction es generalizing s with
  | nil => trivial
  | cons e es ih =>
      obtain ⟨he, hes⟩ := List.forall_mem_cons.mp h
      exact ⟨he, fun t _ => ih hes t⟩

/-- **The invariant rule.** -/
theorem run_invariant {Inv : σ → Prop} (hstep : ∀ s e s', Inv s → step s e = some s' → Inv s')
    {s s' : σ} {es : List ε} (hinv : Inv s) (hrun : run step s es = some s') : Inv s' :=
  run_along_invariant (fun s e s' hI _ h => hstep s e s' hI h) hinv (along_true s es) hrun

/-- **The projection rule**: when every step of a system is a step of one of its parts, or
leaves the part alone, a run of the system is a run of the part. -/
theorem run_project {σ' ε' : Type*} {step' : σ' → ε' → Option σ'} (π : σ → σ')
    (proj : ε → Option ε')
    (hstep : ∀ s e s', step s e = some s' →
      (proj e).elim (π s' = π s) fun e' => step' (π s) e' = some (π s'))
    {s s' : σ} {es : List ε} (hrun : run step s es = some s') :
    run step' (π s) (es.filterMap proj) = some (π s') := by
  induction es generalizing s with
  | nil =>
      cases hrun
      rfl
  | cons e es ih =>
      obtain ⟨t, ht, hrest⟩ := (run_cons step).mp hrun
      have hpart := hstep s e t ht
      cases he : proj e with
      | none =>
          rw [he] at hpart
          rw [List.filterMap_cons_none he, ← show π t = π s from hpart]
          exact ih hrest
      | some e' =>
          rw [he] at hpart
          rw [List.filterMap_cons_some he]
          exact (run_cons step').mpr ⟨π t, hpart, ih hrest⟩

/-- **Runs of events of a kind**: they reach what is reached step by step. -/
theorem exists_run_iff_reflTransGen {kind : ε → Prop} {s s' : σ} :
    (∃ es, (∀ e ∈ es, kind e) ∧ run step s es = some s') ↔
      Relation.ReflTransGen (fun s t => ∃ e, kind e ∧ step s e = some t) s s' := by
  constructor
  · rintro ⟨es, hes, hrun⟩
    induction es generalizing s with
    | nil =>
        cases hrun
        exact .refl
    | cons e es ih =>
        obtain ⟨he, hes⟩ := List.forall_mem_cons.mp hes
        obtain ⟨t, ht, hrest⟩ := (run_cons step).mp hrun
        exact .head ⟨e, he, ht⟩ (ih hes hrest)
  · intro h
    induction h using Relation.ReflTransGen.head_induction_on with
    | refl => exact ⟨[], by simp, rfl⟩
    | head hstep _ ih =>
        obtain ⟨e, he, ht⟩ := hstep
        obtain ⟨es, hes, hrun⟩ := ih
        exact ⟨e :: es, List.forall_mem_cons.mpr ⟨he, hes⟩, (run_cons step).mpr ⟨_, ht, hrun⟩⟩

/-- **The exact rule with an invariant**: what is exact for a step that starts in a
state with the invariant is exact for a run. -/
theorem run_along_iff_of_invariant {cond : σ → ε → Prop} {Good Inv : σ → Prop}
    (hinv : ∀ s e s', Inv s → step s e = some s' → Inv s')
    (hstep : ∀ s e s', Inv s → step s e = some s' → (Good s' ↔ Good s ∧ cond s e))
    {s s' : σ} {es : List ε} (hs : Inv s) (hrun : run step s es = some s') :
    Good s' ↔ Good s ∧ Along step cond s es := by
  induction es generalizing s with
  | nil =>
      cases hrun
      simp [Along]
  | cons e es ih =>
      obtain ⟨t, ht, hrest⟩ := (run_cons step).mp hrun
      rw [ih (hinv s e t hs ht) hrest, hstep s e t hs ht, along_cons step ht, and_assoc]

/-- **The exchange rule**: two conditions that say the same of every step that
starts in a good state say the same of a run, when the second one keeps states
good. -/
theorem along_congr {cond cond' : σ → ε → Prop} {Inv : σ → Prop}
    (hiff : ∀ s e s', Inv s → step s e = some s' → (cond s e ↔ cond' s e))
    (hstep : ∀ s e s', Inv s → cond' s e → step s e = some s' → Inv s')
    {s s' : σ} {es : List ε} (hinv : Inv s) (hrun : run step s es = some s') :
    Along step cond s es ↔ Along step cond' s es := by
  induction es generalizing s with
  | nil => exact Iff.rfl
  | cons e es ih =>
      obtain ⟨t, ht, hrest⟩ := (run_cons step).mp hrun
      rw [along_cons step ht, along_cons step ht, hiff s e t hinv ht]
      exact and_congr_right fun hc => ih (hstep s e t hinv hc ht) hrest

/-- **The step rule with a condition**: what is exact for a step that starts in a state
with the invariant is exact for all the steps of a run, when steps that meet the condition
preserve the invariant. -/
theorem steps_iff_along_of_cond {P : σ → ε → σ → Prop} {cond : σ → ε → Prop} {Inv : σ → Prop}
    (hiff : ∀ s e s', Inv s → step s e = some s' → (P s e s' ↔ cond s e))
    (hinv : ∀ s e s', Inv s → cond s e → step s e = some s' → Inv s')
    {s s' : σ} {es : List ε} (hs : Inv s) (hrun : run step s es = some s') :
    (∀ before e after t t', es = before ++ e :: after → run step s before = some t →
      step t e = some t' → P t e t') ↔ Along step cond s es := by
  have hlaw : ∀ s e s', Inv s → step s e = some s' →
      ((∀ t', step s e = some t' → P s e t') ↔ cond s e) := by
    intro s e s' hs hstep
    rw [← hiff s e s' hs hstep]
    refine ⟨fun hall => hall s' hstep, fun hP t' ht' => ?_⟩
    obtain rfl := Option.some.inj (hstep.symm.trans ht')
    exact hP
  rw [← along_congr hlaw hinv hs hrun, along_iff_forall]
  constructor
  · exact fun hall before e after t hes hbefore t' hstep =>
      hall before e after t t' hes hbefore hstep
  · exact fun hall before e after t t' hes hbefore hstep =>
      hall before e after t hes hbefore t' hstep

/-- **The step rule**: what is exact for a step that starts in a state with the
invariant is exact for all the steps of a run. -/
theorem steps_iff_along {P : σ → ε → σ → Prop} {cond : σ → ε → Prop} {Inv : σ → Prop}
    (hiff : ∀ s e s', Inv s → step s e = some s' → (P s e s' ↔ cond s e))
    (hinv : ∀ s e s', Inv s → step s e = some s' → Inv s')
    {s s' : σ} {es : List ε} (hs : Inv s) (hrun : run step s es = some s') :
    (∀ before e after t t', es = before ++ e :: after → run step s before = some t →
      step t e = some t' → P t e t') ↔ Along step cond s es :=
  steps_iff_along_of_cond hiff (fun s e s' hs _ hstep => hinv s e s' hs hstep) hs hrun

/-! ## Registers -/

section Registers

variable {α : Type*} (step : σ → ε → Option σ) (writes : σ → ε → Option α)

/-- No step of a run writes. -/
def Unwritten : σ → List ε → Prop := Along step fun s e => writes s e = none

/-- The last step of a run that writes, writes `a`: the run is split at that step, and no step
after it writes. -/
def LastWrote (s : σ) (es : List ε) (a : α) : Prop :=
  ∃ before e after t u, es = before ++ e :: after ∧ run step s before = some t ∧
    step t e = some u ∧ writes t e = some a ∧ Unwritten step writes u after

variable {step writes}

theorem lastWrote_nil (s : σ) (a : α) : ¬ LastWrote step writes s [] a := by
  rintro ⟨before, e, after, t, u, heq, -⟩
  simp at heq

/-- The last write of a run is in the rest of it, or it is the first step. -/
theorem lastWrote_cons {s t : σ} {e : ε} (ht : step s e = some t) (es : List ε) (a : α) :
    LastWrote step writes s (e :: es) a ↔
      LastWrote step writes t es a ∨ (writes s e = some a ∧ Unwritten step writes t es) := by
  constructor
  · rintro ⟨before, e', after, u, v, heq, hbefore, hstep, hwrite, hafter⟩
    cases before with
    | nil =>
        cases heq
        cases hbefore
        obtain rfl := Option.some.inj (ht.symm.trans hstep)
        exact .inr ⟨hwrite, hafter⟩
    | cons b before =>
        obtain ⟨rfl, rfl⟩ := List.cons.inj heq
        obtain ⟨t', ht', hbefore⟩ := (run_cons step).mp hbefore
        obtain rfl := Option.some.inj (ht.symm.trans ht')
        exact .inl ⟨before, e', after, u, v, rfl, hbefore, hstep, hwrite, hafter⟩
  · rintro (⟨before, e', after, u, v, rfl, hbefore, hstep, hwrite, hafter⟩ | ⟨hwrite, hrest⟩)
    · exact ⟨e :: before, e', after, u, v, rfl, (run_cons step).mpr ⟨t, ht, hbefore⟩, hstep,
        hwrite, hafter⟩
    · exact ⟨[], e, es, s, t, rfl, rfl, ht, hwrite, hrest⟩

/-- **The register rule**: a part of the state that every step sets to what it writes, or
leaves alone, holds what was written last. -/
theorem register_eq_iff {f : σ → α}
    (hf : ∀ s e t, step s e = some t → f t = (writes s e).getD (f s))
    {s s' : σ} {es : List ε} (hrun : run step s es = some s') (a : α) :
    f s' = a ↔ LastWrote step writes s es a ∨ (Unwritten step writes s es ∧ f s = a) := by
  induction es generalizing s with
  | nil =>
      cases hrun
      exact ⟨fun h => .inr ⟨trivial, h⟩, fun h => (h.resolve_left (lastWrote_nil _ a)).2⟩
  | cons e es ih =>
      obtain ⟨t, ht, hrest⟩ := (run_cons step).mp hrun
      have hunwritten : Unwritten step writes s (e :: es) ↔
          writes s e = none ∧ Unwritten step writes t es := along_cons step ht es
      rw [ih hrest, lastWrote_cons ht, hunwritten, hf s e t ht, or_assoc]
      refine or_congr_right ?_
      cases writes s e with
      | none => simp
      | some b => simp [and_comm]

end Registers

end Systems
