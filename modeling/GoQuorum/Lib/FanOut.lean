import GoQuorum.Lib.Runs
import Mathlib.Data.List.Forall2
import Mathlib.Data.List.Perm.Subperm
import Mathlib.Algebra.Order.Group.Nat
import Mathlib.Algebra.GroupWithZero.Nat
import Mathlib.Tactic.Common

/-!
# Workers that answer over a buffered channel

A number of workers run at the same time.  Each has one answer, which it sends over one channel with
a buffer, or gives up sending.  Whatever the order of their steps, what is in the buffer or has been
received is what the workers have sent, each one answer (`Balanced`).  So if the buffer has room for
an answer of every worker, no worker ever waits to send (`Balanced.room`).
-/

namespace Lib.FanOut

variable {α : Type}

inductive Worker (α : Type) where
  | running
  | ready (answer : α)
  | sent (answer : α)
  | gone

/-- What a worker has sent. -/
def Worker.value : Worker α → Option α
  | .sent a => some a
  | _ => none

/-- What a worker has found out. -/
def Worker.answer : Worker α → Option α
  | .ready a | .sent a => some a
  | _ => none

/-- The workers, the buffer, and what has been taken out of it. -/
structure State (α : Type) where
  workers : List (Worker α)
  buffer : List α
  received : List α

/-- `n` workers begin. -/
def start (n : ℕ) : State α := ⟨List.replicate n .running, [], []⟩

inductive Event (α : Type) where
  | finish (i : ℕ) (answer : α)
  | send (i : ℕ)
  | abandon (i : ℕ)
  | receive

def State.set (s : State α) (i : ℕ) (w : Worker α) : State α :=
  { s with workers := s.workers.set i w }

/-- One step, with a buffer of the given capacity. -/
def step (capacity : ℕ) (s : State α) : Event α → Option (State α)
  | .finish i a =>
    match s.workers[i]? with
    | some .running => some (s.set i (.ready a))
    | _ => none
  | .send i =>
    match s.workers[i]? with
    | some (.ready a) =>
      if s.buffer.length < capacity then some { s.set i (.sent a) with buffer := s.buffer ++ [a] }
      else none
    | _ => none
  | .abandon i =>
    match s.workers[i]? with
    | some (.ready _) => some (s.set i .gone)
    | _ => none
  | .receive =>
    match s.buffer with
    | [] => none
    | a :: rest => some { s with buffer := rest, received := s.received ++ [a] }

/-- What a step does. -/
inductive Moved (capacity : ℕ) (s : State α) : Event α → State α → Prop
  | finish (i : ℕ) (a : α) (h : s.workers[i]? = some .running) :
      Moved capacity s (.finish i a) (s.set i (.ready a))
  | send (i : ℕ) (a : α) (h : s.workers[i]? = some (.ready a))
      (hroom : s.buffer.length < capacity) :
      Moved capacity s (.send i) { s.set i (.sent a) with buffer := s.buffer ++ [a] }
  | abandon (i : ℕ) (a : α) (h : s.workers[i]? = some (.ready a)) :
      Moved capacity s (.abandon i) (s.set i .gone)
  | receive (a : α) (rest : List α) (h : s.buffer = a :: rest) :
      Moved capacity s .receive { s with buffer := rest, received := s.received ++ [a] }

variable {capacity : ℕ} {s t : State α} {e : Event α} {answers : List α}

theorem moved_of_step (h : step capacity s e = some t) : Moved capacity s e t := by
  cases e with
  | finish i a =>
    simp only [step] at h
    split at h
    · cases h
      apply Moved.finish
      assumption
    · cases h
  | send i =>
    simp only [step] at h
    split at h
    · split_ifs at h
      cases h
      apply Moved.send <;> assumption
    · cases h
  | abandon i =>
    simp only [step] at h
    split at h
    · cases h
      apply Moved.abandon
      assumption
    · cases h
  | receive =>
    simp only [step] at h
    split at h
    · cases h
    · cases h
      apply Moved.receive
      assumption

/-! ## What has been sent -/

/-- Changing one element of a list changes what a filter finds there. -/
theorem filterMap_set {β γ : Type} (f : β → Option γ) {l : List β} {i : ℕ} {b : β}
    (h : l[i]? = some b) (hb : f b = none) (new : β) :
    ((l.set i new).filterMap f).Perm ((f new).toList ++ l.filterMap f) := by
  induction l generalizing i with
  | nil => cases h
  | cons x l ih =>
    cases i with
    | zero =>
      cases h
      rw [List.set_cons_zero, List.filterMap_cons_none hb]
      cases hnew : f new with
      | none => rw [List.filterMap_cons_none hnew]; exact List.Perm.refl _
      | some c => rw [List.filterMap_cons_some hnew]; exact List.Perm.refl _
    | succ i =>
      rw [List.set_cons_succ]
      cases hx : f x with
      | none =>
        rw [List.filterMap_cons_none hx, List.filterMap_cons_none hx]
        exact ih h
      | some c =>
        rw [List.filterMap_cons_some hx, List.filterMap_cons_some hx]
        exact (List.Perm.cons c (ih h)).trans List.perm_middle.symm

/-- Each worker has its answer of a list or none, and what has been sent is in the buffer or has
been received. -/
structure Balanced (answers : List α) (s : State α) : Prop where
  workers : List.Forall₂ (fun w a => ∀ b ∈ w.answer, b = a) s.workers answers
  sent : (s.received ++ s.buffer).Perm (s.workers.filterMap Worker.value)

theorem balanced_start (answers : List α) : Balanced answers (start answers.length) := by
  constructor
  · induction answers with
    | nil => exact .nil
    | cons a answers ih => exact .cons (fun b h => by cases h) ih
  · have hnone : ∀ n,
        (List.replicate n (Worker.running : Worker α)).filterMap Worker.value = [] := by
      intro n
      simp [List.filterMap_replicate, Worker.value]
    simp only [start, hnone, List.append_nil]
    exact List.Perm.refl _

theorem forall₂_set {β γ : Type} {R : β → γ → Prop} {l : List β} {m : List γ}
    (h : List.Forall₂ R l m) (i : ℕ) {new : β} (hnew : ∀ x, m[i]? = some x → R new x) :
    List.Forall₂ R (l.set i new) m := by
  induction h generalizing i with
  | nil => exact .nil
  | cons hx hrest ih =>
    cases i with
    | zero => exact .cons (hnew _ rfl) hrest
    | succ i => exact .cons hx (ih i hnew)

/-- What a worker has found out is its answer. -/
theorem Balanced.getElem?_answers (h : Balanced answers s) {i : ℕ} {w : Worker α} {a : α}
    (hw : s.workers[i]? = some w) (ha : a ∈ w.answer) : answers[i]? = some a := by
  obtain ⟨hi, rfl⟩ := List.getElem?_eq_some_iff.1 hw
  have hlt : i < answers.length := h.workers.length_eq ▸ hi
  have heq : a = answers[i] := (List.forall₂_iff_get.1 h.workers).2 i hi hlt a ha
  rw [List.getElem?_eq_getElem hlt, heq]

theorem Balanced.step (h : Balanced answers s)
    (hanswer : ∀ i a, e = .finish i a → answers[i]? = some a) (hmoved : Moved capacity s e t) :
    Balanced answers t := by
  cases hmoved with
  | finish i a hi =>
    constructor
    · apply forall₂_set h.workers
      rintro x hx b hb
      cases hb
      exact Option.some.inj ((hanswer i a rfl).symm.trans hx)
    · exact h.sent.trans (filterMap_set Worker.value hi rfl (.ready a)).symm
  | send i a hi =>
    constructor
    · apply forall₂_set h.workers
      rintro x hx b hb
      cases hb
      exact Option.some.inj ((h.getElem?_answers hi rfl).symm.trans hx)
    · have hsent := filterMap_set Worker.value hi rfl (.sent a)
      simp only [State.set, ← List.append_assoc]
      exact (List.perm_append_singleton a _).trans ((h.sent.cons a).trans hsent.symm)
  | abandon i a hi =>
    constructor
    · apply forall₂_set h.workers
      rintro x hx b hb
      cases hb
    · exact h.sent.trans (filterMap_set Worker.value hi rfl .gone).symm
  | receive a rest hbuffer =>
    constructor
    · exact h.workers
    · have hsent := h.sent
      rw [hbuffer] at hsent
      simpa only [List.append_assoc, List.singleton_append] using hsent

theorem Balanced.length_workers (h : Balanced answers s) : s.workers.length = answers.length :=
  h.workers.length_eq

/-- A worker that has not sent yet finds room for its answer. -/
theorem Balanced.room (h : Balanced answers s) {i : ℕ} {w : Worker α}
    (hi : s.workers[i]? = some w) (hw : w.value = none) :
    s.received.length + s.buffer.length < answers.length := by
  have hsent := h.sent.length_eq
  rw [List.length_append] at hsent
  rw [hsent, ← h.length_workers]
  apply List.length_filterMap_lt_length_iff_exists.2
  exact ⟨w, List.mem_of_getElem? hi, hw⟩

/-- What has been sent are answers, each sent at most once. -/
theorem Balanced.subperm (h : Balanced answers s) : (s.received ++ s.buffer).Subperm answers := by
  have hsublist : (s.workers.filterMap Worker.value).Sublist answers := by
    have hall := h.workers
    generalize s.workers = ws at hall
    clear h
    induction hall with
    | nil => exact .refl _
    | @cons w x ws answers hx _ ih =>
      cases w with
      | sent a =>
        rw [List.filterMap_cons_some (f := Worker.value) rfl, hx a rfl]
        exact ih.cons_cons x
      | running => exact ih.cons x
      | ready a => exact ih.cons x
      | gone => exact ih.cons x
  exact h.sent.subperm.trans hsublist.subperm

/-- When as much has been sent as there are workers, it is the answers. -/
theorem Balanced.perm (h : Balanced answers s)
    (hlen : answers.length ≤ s.received.length + s.buffer.length) :
    (s.received ++ s.buffer).Perm answers := by
  apply h.subperm.perm_of_length_le
  rwa [List.length_append]

/-- When all workers have sent, there is an answer of each. -/
theorem Balanced.length_of_sent (h : Balanced answers s)
    (hall : ∀ w ∈ s.workers, w.value.isSome) :
    s.received.length + s.buffer.length = answers.length := by
  rw [← List.length_append, h.sent.length_eq, ← h.length_workers]
  exact List.filterMap_length_eq_length.2 hall

/-! ## Going on -/

/-- A worker with an answer never waits to send it. -/
theorem Balanced.send_isSome (h : Balanced answers s) {i : ℕ} {a : α}
    (hi : s.workers[i]? = some (.ready a)) :
    (FanOut.step answers.length s (.send i)).isSome := by
  have hroom := h.room hi rfl
  simp only [FanOut.step, hi, if_pos (by omega : s.buffer.length < answers.length),
    Option.isSome_some]

/-- The steps a worker has left, with the one that takes its answer. -/
def Worker.left : Worker α → ℕ
  | .running => 3
  | .ready _ => 2
  | _ => 0

/-- A worker that is not at its end can go on. -/
theorem Balanced.goes_on (h : Balanced answers s) {w : Worker α} (hw : w ∈ s.workers)
    (hleft : w.left ≠ 0) : ∃ i a, answers[i]? = some a ∧
      ((FanOut.step answers.length s (.finish i a)).isSome ∨
        (FanOut.step answers.length s (.send i)).isSome) := by
  obtain ⟨i, hi⟩ := List.getElem?_of_mem hw
  have hlt : i < answers.length := by
    rw [← h.length_workers]
    exact (List.getElem?_eq_some_iff.1 hi).1
  refine ⟨i, answers[i], List.getElem?_eq_getElem hlt, ?_⟩
  cases w with
  | running => exact Or.inl (by simp only [FanOut.step, hi, Option.isSome_some])
  | ready a => exact Or.inr (h.send_isSome hi)
  | sent a => exact absurd rfl hleft
  | gone => exact absurd rfl hleft

/-- If all workers are at their end and none has given up, all have sent. -/
theorem sent_of_left (hleft : ∀ w ∈ s.workers, w.left = 0) (hgone : .gone ∉ s.workers) :
    ∀ w ∈ s.workers, w.value.isSome := by
  intro w hw
  cases w with
  | running => cases hleft _ hw
  | ready a => cases hleft _ hw
  | sent a => rfl
  | gone => exact absurd hw hgone

theorem gone_of_moved (hmoved : Moved capacity s e t) (he : ∀ i, e ≠ .abandon i)
    (h : .gone ∉ s.workers) : .gone ∉ t.workers := by
  have hset : ∀ (i : ℕ) (w : Worker α), w ≠ .gone → .gone ∉ s.workers.set i w := by
    intro i w hw hmem
    rcases List.mem_or_eq_of_mem_set hmem with hmem | heq
    · exact h hmem
    · exact hw heq.symm
  cases hmoved with
  | finish i a => exact hset i _ (by simp)
  | send i a => exact hset i _ (by simp)
  | abandon i => exact absurd rfl (he i)
  | receive => exact h

/-- Once all workers have sent, only the buffer is left. -/
theorem eq_receive_of_sent (hmoved : Moved capacity s e t)
    (hall : ∀ w ∈ s.workers, w.value.isSome) : e = .receive := by
  cases hmoved with
  | finish i a hi => cases hall _ (List.mem_of_getElem? hi)
  | send i a hi => cases hall _ (List.mem_of_getElem? hi)
  | abandon i a hi => cases hall _ (List.mem_of_getElem? hi)
  | receive => rfl

theorem receive_isSome (h : s.buffer ≠ []) : (FanOut.step capacity s .receive).isSome := by
  obtain ⟨a, rest, hbuffer⟩ := List.exists_cons_of_ne_nil h
  simp only [FanOut.step, hbuffer, Option.isSome_some]

/-! ## Steps that are left -/

/-- A bound on the number of steps that are left. -/
def State.left (s : State α) : ℕ := (s.workers.map Worker.left).sum + s.buffer.length

theorem sum_left_set {l : List (Worker α)} {i : ℕ} {w : Worker α} (h : l[i]? = some w)
    (new : Worker α) :
    ((l.set i new).map Worker.left).sum + w.left = (l.map Worker.left).sum + new.left := by
  induction l generalizing i with
  | nil => cases h
  | cons x l ih =>
    cases i with
    | zero =>
      cases h
      simp only [List.set_cons_zero, List.map_cons, List.sum_cons]
      omega
    | succ i =>
      have hrec := ih h
      simp only [List.set_cons_succ, List.map_cons, List.sum_cons]
      omega

theorem left_of_moved (hmoved : Moved capacity s e t) : t.left < s.left := by
  cases hmoved with
  | finish i a hi =>
    have hsum := sum_left_set hi (.ready a)
    simp only [State.left, State.set, Worker.left] at hsum ⊢
    omega
  | send i a hi =>
    have hsum := sum_left_set hi (.sent a)
    simp only [State.left, State.set, Worker.left, List.length_append,
      List.length_singleton] at hsum ⊢
    omega
  | abandon i a hi =>
    have hsum := sum_left_set hi .gone
    simp only [State.left, State.set, Worker.left] at hsum ⊢
    omega
  | receive a rest hbuffer =>
    simp only [State.left, hbuffer, List.length_cons]
    omega

theorem left_start (n : ℕ) : (start n : State α).left = 3 * n := by
  simp [State.left, start, Worker.left, Nat.mul_comm]

end Lib.FanOut
