import Mathlib.Logic.Basic
import Mathlib.Logic.Function.Basic

/-!
# Runs of a labelled system

A system is a partial step function: `step s e` is the state after event `e`, or nothing where
`e` is not enabled.  `Runs step ok s t` says that some sequence of enabled events leads from `s`
to `t`, each of which meets `ok` in the state it happens in.  What every such event preserves
holds of every state such a run reaches (`Runs.invariant`), and a system whose steps another one can
follow is followed through whole runs (`Runs.simulate`).

Systems that serve requests keep them in tables; `update_eq_some` says what a table holds after a
step that changes one entry.
-/

namespace Lib

variable {σ ε : Type} {step : σ → ε → Option σ} {ok ok' : σ → ε → Prop}

/-- The runs whose events all meet `ok`. -/
inductive Runs (step : σ → ε → Option σ) (ok : σ → ε → Prop) : σ → σ → Prop
  | refl (s : σ) : Runs step ok s s
  | tail {s t u : σ} {e : ε} : Runs step ok s t → ok t e → step t e = some u → Runs step ok s u

namespace Runs

theorem single {s t : σ} {e : ε} (h : ok s e) (hs : step s e = some t) : Runs step ok s t :=
  (refl s).tail h hs

theorem trans {s t u : σ} (h₁ : Runs step ok s t) (h₂ : Runs step ok t u) : Runs step ok s u := by
  induction h₂ with
  | refl => exact h₁
  | tail _ hok hstep ih => exact ih.tail hok hstep

theorem mono {s t : σ} (h : Runs step ok s t) (himp : ∀ s e, ok s e → ok' s e) :
    Runs step ok' s t := by
  induction h with
  | refl => exact refl _
  | tail _ hok hstep ih => exact ih.tail (himp _ _ hok) hstep

/-- What every step of a run preserves holds at its end. -/
theorem invariant {s t : σ} (h : Runs step ok s t) (inv : σ → Prop) (h0 : inv s)
    (hstep : ∀ s e t, inv s → ok s e → step s e = some t → inv t) : inv t := by
  induction h with
  | refl => exact h0
  | tail _ hok hs ih => exact hstep _ _ _ ih hok hs

/-- If every step is followed by a run of another system that keeps the two related, then so is every
run. -/
theorem simulate {τ δ : Type} {step' : τ → δ → Option τ} {ok' : τ → δ → Prop} {R : σ → τ → Prop}
    {s t : σ} {a : τ} (h : Runs step ok s t) (h0 : R s a)
    (hstep : ∀ s e t a, R s a → ok s e → step s e = some t → ∃ b, Runs step' ok' a b ∧ R t b) :
    ∃ b, Runs step' ok' a b ∧ R t b := by
  induction h with
  | refl => exact ⟨a, refl a, h0⟩
  | tail _ hok hs ih =>
    obtain ⟨b, hb, hR⟩ := ih
    obtain ⟨c, hc, hR⟩ := hstep _ _ _ b hR hok hs
    exact ⟨c, hb.trans hc, hR⟩

end Runs

/-- Take a list of events in order. -/
def exec (step : σ → ε → Option σ) (s : σ) : List ε → Option σ
  | [] => some s
  | e :: es => (step s e).bind fun t => exec step t es

theorem exec_append (s : σ) (es fs : List ε) :
    exec step s (es ++ fs) = (exec step s es).bind fun t => exec step t fs := by
  induction es generalizing s with
  | nil => rfl
  | cons e es ih => simp only [List.cons_append, exec, Option.bind_assoc, ih]

/-- A system that is part of another one: its runs are runs of the whole. -/
theorem exec_map {σ' ε' : Type} {step' : σ' → ε' → Option σ'} (f : σ' → σ) (g : ε' → ε)
    (h : ∀ s e, step (f s) (g e) = (step' s e).map f) (s : σ') (es : List ε') :
    exec step (f s) (es.map g) = (exec step' s es).map f := by
  induction es generalizing s with
  | nil => rfl
  | cons e es ih =>
    simp only [List.map_cons, exec, h]
    cases step' s e with
    | none => rfl
    | some t => exact ih t

/-- Every event of a list meets `ok` where it happens. -/
def AllOk (step : σ → ε → Option σ) (ok : σ → ε → Prop) : σ → List ε → Prop
  | _, [] => True
  | s, e :: es => ok s e ∧
    match step s e with
    | some t => AllOk step ok t es
    | none => True

instance decidableAllOk [∀ s e, Decidable (ok s e)] : ∀ s es, Decidable (AllOk step ok s es)
  | _, [] => isTrue trivial
  | s, e :: es =>
    match hs : step s e with
    | some t =>
      have := decidableAllOk t es
      decidable_of_iff (ok s e ∧ AllOk step ok t es) (by simp only [AllOk, hs])
    | none => decidable_of_iff (ok s e) (by simp only [AllOk, hs, and_true])

theorem Runs.of_exec {s t : σ} {es : List ε} (h : exec step s es = some t)
    (hok : AllOk step ok s es) : Runs step ok s t := by
  induction es generalizing s with
  | nil =>
    obtain rfl := Option.some.inj h
    exact Runs.refl _
  | cons e es ih =>
    obtain ⟨u, hu, ht⟩ := Option.bind_eq_some_iff.1 h
    simp only [AllOk, hu] at hok
    exact (Runs.single hok.1 hu).trans (ih ht hok.2)

theorem allOk_of_forall {s : σ} {es : List ε} (h : ∀ e ∈ es, ∀ s, ok s e) :
    AllOk step ok s es := by
  induction es generalizing s with
  | nil => trivial
  | cons e es ih =>
    refine ⟨h e List.mem_cons_self s, ?_⟩
    split
    · exact ih fun e he => h e (List.mem_cons_of_mem _ he)
    · trivial

/-- A measure that every step lowers bounds the number of steps. -/
theorem length_le_of_exec {s t : σ} {es : List ε} {left : σ → Nat}
    (hleft : ∀ s e t, step s e = some t → left t < left s) (h : exec step s es = some t) :
    es.length + left t ≤ left s := by
  induction es generalizing s with
  | nil =>
    obtain rfl := Option.some.inj h
    exact Nat.le_of_eq (Nat.zero_add _)
  | cons e es ih =>
    obtain ⟨u, hu, hrest⟩ := Option.bind_eq_some_iff.1 h
    have hlt := hleft s e u hu
    have hle := ih hrest
    rw [List.length_cons]
    omega

/-- A list of events whose outcome has been computed gives a run. -/
theorem Runs.exists_of_exec {τ : Type} (step : σ → ε → Option σ) (ok : σ → ε → Prop) (s : σ)
    (es : List ε) (f : σ → τ) {v : τ} (h : (exec step s es).map f = some v)
    (hok : AllOk step ok s es) : ∃ t, Runs step ok s t ∧ f t = v := by
  obtain ⟨t, ht, hv⟩ := Option.map_eq_some_iff.1 h
  exact ⟨t, Runs.of_exec ht hok, hv⟩

/-- The state after a list of events, the first one if they cannot all happen. -/
def stateAfter (step : σ → ε → Option σ) (s : σ) (es : List ε) : σ := (exec step s es).getD s

theorem exec_eq_stateAfter {s : σ} {es : List ε} (h : (exec step s es).isSome = true) :
    exec step s es = some (stateAfter step s es) := by
  obtain ⟨t, ht⟩ := Option.isSome_iff_exists.1 h
  rw [stateAfter, ht, Option.getD_some]

theorem step_eq_stateAfter {s : σ} {e : ε} (h : (exec step s [e]).isSome = true) :
    step s e = some (stateAfter step s [e]) :=
  (Option.bind_fun_some _).symm.trans (exec_eq_stateAfter h)

/-- A list of enabled events gives a run to the state after it.  The two conditions are one
hypothesis, so that evaluating them on a concrete list computes each step once. -/
theorem Runs.stateAfter {s : σ} {es : List ε}
    (h : (exec step s es).isSome = true ∧ AllOk step ok s es) :
    Runs step ok s (stateAfter step s es) :=
  Runs.of_exec (exec_eq_stateAfter h.1) h.2

/-! ## Tables of requests -/

/-- An entry of a table of which one entry has changed is the changed one, or was there before. -/
theorem update_eq_some {ι α : Type} [DecidableEq ι] {f : ι → Option α} {i k : ι} {o : Option α}
    {x : α} (h : Function.update f i o k = some x) : (k = i ∧ o = some x) ∨ f k = some x := by
  by_cases hk : k = i
  · rw [hk, Function.update_self] at h
    exact Or.inl ⟨hk, h⟩
  · rw [Function.update_of_ne hk] at h
    exact Or.inr h

end Lib
