import GoQuorum.Cluster.HintedHandoff
import GoQuorum.Lib.FanOut

/-!
# The goroutines of a request

`parallelWrite`, `parallelRead` and `drainChannel` of `internal/cluster/coordinator.go`: the
coordinator asks the replicas of a preference list at the same time, one goroutine each, and
collects what they send over a channel with room for all of them.  An event is one step of one
goroutine: `i` is the goroutine of the `i`-th node of the list.  The answers that the replicas would
give are a function of `i`; their order, and what is cut off by a timeout, is left to the schedule.
-/

namespace GoQuorum

open Lib

/-! ## Writes -/

inductive ParallelWrite.Stage where
  | waiting
  | receiving
  | returned
  deriving DecidableEq

/-- `parallelWrite` in progress: it waits for all goroutines, then empties the channel. -/
structure ParallelWrite where
  calls : FanOut.State WriteResponse
  stage : ParallelWrite.Stage

inductive ParallelWrite.Event where
  | reply (i : ℕ) (error : Option ReplicaFailure)
  | send (i : ℕ)
  | waited
  | receive
  | finish

/-- The event is a reply only if it is the given one. -/
def ParallelWrite.Event.Answers (outcome : ℕ → Option ReplicaFailure) : ParallelWrite.Event → Prop
  | .reply i error => error = outcome i
  | _ => True

instance (outcome : ℕ → Option ReplicaFailure) : DecidablePred (ParallelWrite.Event.Answers outcome)
  | .reply i error => decEq error (outcome i)
  | .send _ | .waited | .receive | .finish => isTrue trivial

/-- The responses of a preference list, in its order. -/
def writeAnswers (prefList : List NodeID) (outcome : ℕ → Option ReplicaFailure) :
    List WriteResponse :=
  prefList.mapIdx fun i nid => ⟨nid, outcome i⟩

namespace ParallelWrite

def start (prefList : List NodeID) : ParallelWrite := ⟨FanOut.start prefList.length, .waiting⟩

/-- What `parallelWrite` has collected. -/
def responses (s : ParallelWrite) : List WriteResponse := s.calls.received

def step (prefList : List NodeID) (s : ParallelWrite) : ParallelWrite.Event → Option ParallelWrite
  | .reply i error =>
    prefList[i]?.bind fun nid =>
      (FanOut.step prefList.length s.calls (.finish i ⟨nid, error⟩)).map fun calls =>
        { s with calls }
  | .send i => (FanOut.step prefList.length s.calls (.send i)).map fun calls => { s with calls }
  -- `wg.Wait`: a goroutine is done when it has sent
  | .waited =>
    if s.stage = .waiting ∧ ∀ w ∈ s.calls.workers, w.value.isSome then
      some { s with stage := .receiving }
    else none
  | .receive =>
    if s.stage = .receiving ∧ s.responses.length < prefList.length then
      (FanOut.step prefList.length s.calls .receive).map fun calls => { s with calls }
    else none
  | .finish =>
    if s.stage = .receiving ∧ s.responses.length = prefList.length then
      some { s with stage := .returned }
    else none

/-- What a step does. -/
inductive Moved (prefList : List NodeID) (s : ParallelWrite) : Event → ParallelWrite → Prop
  | reply (i : ℕ) (nid : NodeID) (error : Option ReplicaFailure)
      (calls : FanOut.State WriteResponse) (hnid : prefList[i]? = some nid)
      (h : FanOut.Moved prefList.length s.calls (.finish i ⟨nid, error⟩) calls) :
      Moved prefList s (.reply i error) { s with calls }
  | send (i : ℕ) (calls : FanOut.State WriteResponse)
      (h : FanOut.Moved prefList.length s.calls (.send i) calls) :
      Moved prefList s (.send i) { s with calls }
  | waited (hstage : s.stage = .waiting) (hall : ∀ w ∈ s.calls.workers, w.value.isSome) :
      Moved prefList s .waited { s with stage := .receiving }
  | receive (calls : FanOut.State WriteResponse) (hstage : s.stage = .receiving)
      (h : FanOut.Moved prefList.length s.calls .receive calls) :
      Moved prefList s .receive { s with calls }
  | finish (hstage : s.stage = .receiving) (hlen : s.responses.length = prefList.length) :
      Moved prefList s .finish { s with stage := .returned }

variable {prefList : List NodeID} {outcome : ℕ → Option ReplicaFailure} {s t : ParallelWrite}
  {e : ParallelWrite.Event}

theorem moved_of_step (h : s.step prefList e = some t) : Moved prefList s e t := by
  cases e with
  | reply i error =>
    obtain ⟨nid, hnid, hmap⟩ := Option.bind_eq_some_iff.1 h
    obtain ⟨calls, hcalls, rfl⟩ := Option.map_eq_some_iff.1 hmap
    exact .reply i nid error calls hnid (FanOut.moved_of_step hcalls)
  | send i =>
    obtain ⟨calls, hcalls, rfl⟩ := Option.map_eq_some_iff.1 h
    exact .send i calls (FanOut.moved_of_step hcalls)
  | waited =>
    simp only [step] at h
    split_ifs at h with hc
    cases h
    exact .waited hc.1 hc.2
  | receive =>
    simp only [step] at h
    split_ifs at h with hc
    obtain ⟨calls, hcalls, rfl⟩ := Option.map_eq_some_iff.1 h
    exact .receive calls hc.1 (FanOut.moved_of_step hcalls)
  | finish =>
    simp only [step] at h
    split_ifs at h with hc
    cases h
    exact .finish hc.1 hc.2

theorem length_writeAnswers (prefList : List NodeID) (outcome : ℕ → Option ReplicaFailure) :
    (writeAnswers prefList outcome).length = prefList.length :=
  List.length_mapIdx

theorem getElem?_writeAnswers {i : ℕ} {nid : NodeID} (h : prefList[i]? = some nid) :
    (writeAnswers prefList outcome)[i]? = some ⟨nid, outcome i⟩ := by
  rw [writeAnswers, List.getElem?_mapIdx, h]
  rfl

/-- What holds during a run of `parallelWrite`. -/
structure Good (answers : List WriteResponse) (s : ParallelWrite) : Prop where
  balanced : FanOut.Balanced answers s.calls
  stays : .gone ∉ s.calls.workers
  sent : s.stage ≠ .waiting → ∀ w ∈ s.calls.workers, w.value.isSome
  returned : s.stage = .returned → s.responses.length = answers.length

theorem good_start : Good (writeAnswers prefList outcome) (start prefList) where
  balanced := by
    rw [start, ← length_writeAnswers prefList outcome]
    exact FanOut.balanced_start _
  stays := by simp [start, FanOut.start]
  sent := fun h => absurd rfl h
  returned := nofun

theorem Good.step (h : Good (writeAnswers prefList outcome) s) (he : e.Answers outcome)
    (hmoved : Moved prefList s e t) : Good (writeAnswers prefList outcome) t := by
  cases hmoved with
  | reply i nid error calls hnid hcalls =>
    have hwaiting : s.stage = .waiting := by
      by_contra hstage
      cases FanOut.eq_receive_of_sent hcalls (h.sent hstage)
    constructor
    · apply h.balanced.step _ hcalls
      rintro j a ⟨⟩
      rw [getElem?_writeAnswers hnid, ← he]
    · exact FanOut.gone_of_moved hcalls nofun h.stays
    · exact fun hstage => absurd hwaiting hstage
    · exact fun hstage => by cases hwaiting.symm.trans hstage
  | send i calls hcalls =>
    have hwaiting : s.stage = .waiting := by
      by_contra hstage
      cases FanOut.eq_receive_of_sent hcalls (h.sent hstage)
    constructor
    · exact h.balanced.step (fun _ _ h => by cases h) hcalls
    · exact FanOut.gone_of_moved hcalls nofun h.stays
    · exact fun hstage => absurd hwaiting hstage
    · exact fun hstage => by cases hwaiting.symm.trans hstage
  | waited hstage hall => exact ⟨h.balanced, h.stays, fun _ => hall, nofun⟩
  | receive calls hstage hcalls =>
    have hworkers : calls.workers = s.calls.workers := by cases hcalls; rfl
    constructor
    · exact h.balanced.step (fun _ _ h => by cases h) hcalls
    · exact FanOut.gone_of_moved hcalls nofun h.stays
    · intro hne
      rw [hworkers]
      exact h.sent hne
    · exact fun hreturned => by cases hstage.symm.trans hreturned
  | finish hstage hlen =>
    refine ⟨h.balanced, h.stays, fun _ => h.sent (hstage ▸ nofun), fun _ => ?_⟩
    rw [length_writeAnswers]
    exact hlen

/-- `parallelWrite` goes on until it returns. -/
theorem Good.goes_on (h : Good (writeAnswers prefList outcome) s) (hstage : s.stage ≠ .returned) :
    ∃ e : Event, e.Answers outcome ∧ (s.step prefList e).isSome := by
  have hlen := length_writeAnswers prefList outcome
  by_cases hleft : ∀ w ∈ s.calls.workers, w.left = 0
  · have hall := FanOut.sent_of_left hleft h.stays
    cases hs : s.stage with
    | waiting =>
      refine ⟨.waited, trivial, ?_⟩
      simp only [ParallelWrite.step, if_pos (And.intro hs hall), Option.isSome_some]
    | receiving =>
      have hsum := h.balanced.length_of_sent hall
      by_cases hlt : s.responses.length < prefList.length
      · refine ⟨.receive, trivial, ?_⟩
        have hbuffer : s.calls.buffer ≠ [] := by
          intro hnil
          rw [hnil, List.length_nil, hlen] at hsum
          exact absurd hsum hlt.ne
        simp only [ParallelWrite.step, if_pos (And.intro hs hlt), Option.isSome_map]
        exact FanOut.receive_isSome hbuffer
      · have heq : s.responses.length = prefList.length := by
          rw [responses] at hlt ⊢
          omega
        refine ⟨.finish, trivial, ?_⟩
        simp only [ParallelWrite.step, if_pos (And.intro hs heq), Option.isSome_some]
    | returned => exact absurd hs hstage
  · simp only [not_forall] at hleft
    obtain ⟨w, hw, hw0⟩ := hleft
    obtain ⟨i, a, ha, hstep⟩ := h.balanced.goes_on hw hw0
    rw [hlen] at hstep
    rcases hstep with hfinish | hsend
    · rw [writeAnswers, List.getElem?_mapIdx] at ha
      obtain ⟨nid, hnid, rfl⟩ := Option.map_eq_some_iff.1 ha
      refine ⟨.reply i (outcome i), rfl, ?_⟩
      simp only [ParallelWrite.step, hnid, Option.bind_some, Option.isSome_map]
      exact hfinish
    · refine ⟨.send i, trivial, ?_⟩
      simp only [ParallelWrite.step, Option.isSome_map]
      exact hsend

/-- A goroutine with an answer never waits to send it. -/
theorem Good.send_isSome (h : Good (writeAnswers prefList outcome) s) {i : ℕ} {a : WriteResponse}
    (hi : s.calls.workers[i]? = some (.ready a)) : (s.step prefList (.send i)).isSome := by
  have hsend := h.balanced.send_isSome hi
  rw [length_writeAnswers] at hsend
  rwa [ParallelWrite.step, Option.isSome_map]

/-- The steps that are left. -/
def left (s : ParallelWrite) : ℕ :=
  s.calls.left + match s.stage with
    | .waiting => 2
    | .receiving => 1
    | .returned => 0

theorem left_of_step (h : s.step prefList e = some t) : t.left < s.left := by
  cases moved_of_step h with
  | reply i nid error calls hnid hcalls =>
    exact Nat.add_lt_add_right (FanOut.left_of_moved hcalls) _
  | send i calls hcalls => exact Nat.add_lt_add_right (FanOut.left_of_moved hcalls) _
  | receive calls hstage hcalls => exact Nat.add_lt_add_right (FanOut.left_of_moved hcalls) _
  | waited hstage hall => simp only [left, hstage]; omega
  | finish hstage hlen => simp only [left, hstage]; omega

theorem good_of_exec {es : List Event} (hreplies : ∀ e ∈ es, e.Answers outcome)
    (h : exec (step prefList) (start prefList) es = some s) :
    Good (writeAnswers prefList outcome) s := by
  have hruns : Runs (step prefList) (fun _ e => e.Answers outcome) (start prefList) s :=
    Runs.of_exec h (allOk_of_forall fun e he _ => hreplies e he)
  exact hruns.invariant _ good_start fun s e t hs he hstep => hs.step he (moved_of_step hstep)

end ParallelWrite

/-! ### The answers of a write -/

theorem map_nodeID_writeAnswers (prefList : List NodeID) (outcome : ℕ → Option ReplicaFailure) :
    (writeAnswers prefList outcome).map WriteResponse.nodeID = prefList := by
  apply List.ext_getElem
  · rw [List.length_map, writeAnswers, List.length_mapIdx]
  · intro i hi hi'
    rw [List.getElem_map]
    simp only [writeAnswers, List.getElem_mapIdx]

/-- Whatever the schedule of its goroutines, `parallelWrite` goes on until it returns, after a
bounded number of steps, and no goroutine waits to send its answer.  In the end no goroutine is left,
it has the answer of every replica once, and the hints are those of the failed replicas. -/
theorem parallelWrite_returns {prefList : List NodeID} {outcome : ℕ → Option ReplicaFailure}
    {es : List ParallelWrite.Event} {s : ParallelWrite} (hreplies : ∀ e ∈ es, e.Answers outcome)
    (h : exec (ParallelWrite.step prefList) (ParallelWrite.start prefList) es = some s) :
    es.length ≤ 3 * prefList.length + 2 ∧
      (∀ i a, s.calls.workers[i]? = some (.ready a) → (s.step prefList (.send i)).isSome) ∧
      (s.stage ≠ .returned →
        ∃ e : ParallelWrite.Event, e.Answers outcome ∧ (s.step prefList e).isSome) ∧
      (s.stage = .returned →
        (∀ w ∈ s.calls.workers, w.value.isSome) ∧
        s.responses.Perm (writeAnswers prefList outcome) ∧
        (prefList.Nodup → ∀ {nodeID} (hh : HintedHandoff nodeID) now key siblings,
          (hh.storeHints now key siblings s.responses).pending =
            (hh.storeHints now key siblings (writeAnswers prefList outcome)).pending)) := by
  have hgood := ParallelWrite.good_of_exec hreplies h
  refine ⟨?_, fun i a hi => hgood.send_isSome hi, hgood.goes_on, fun hstage => ?_⟩
  · have hle := length_le_of_exec (fun _ _ _ => ParallelWrite.left_of_step) h
    have hstart : (ParallelWrite.start prefList).left = 3 * prefList.length + 2 :=
      congrArg (· + 2) (FanOut.left_start _)
    omega
  · have hall := hgood.sent (hstage ▸ nofun)
    have hlen := hgood.returned hstage
    have hsum := hgood.balanced.length_of_sent hall
    have hbuffer : s.calls.buffer = [] := by
      apply List.eq_nil_of_length_eq_zero
      rw [ParallelWrite.responses] at hlen
      omega
    have hperm : s.responses.Perm (writeAnswers prefList outcome) := by
      have h := hgood.balanced.perm hsum.ge
      rwa [hbuffer, List.append_nil] at h
    refine ⟨hall, hperm, fun hnodup nodeID hh now key siblings => ?_⟩
    apply HintedHandoff.pending_storeHints_perm hperm
    apply (hperm.map _).symm.nodup
    rwa [map_nodeID_writeAnswers]

/-- The second of two replicas fails, and its answer arrives first. -/
theorem parallelWrite_returns_failed_first :
    let prefList : List NodeID := [n1, n2]
    let outcome := fun i => if i = 1 then some (.remote n2 .unreachable) else none
    let s := stateAfter (ParallelWrite.step prefList) (ParallelWrite.start prefList)
      [.reply 1 (outcome 1), .send 1, .reply 0 none, .send 0, .waited, .receive, .receive, .finish]
    s.stage = .returned ∧ s.responses = (writeAnswers prefList outcome).reverse ∧
      s.responses.Perm (writeAnswers prefList outcome) := by
  refine ⟨by decide, by decide, ?_⟩
  refine ((parallelWrite_returns ?_ (exec_eq_stateAfter (by decide))).2.2.2 (by decide)).2.1
  decide

/-! ## Reads -/

/-- Why `parallelRead` returns: `R` replicas answered, all answered, or a context ended. -/
inductive ReadEnd where
  | quorum
  | exhausted
  | timeout
  | canceled
  deriving DecidableEq

/-- `parallelRead` in progress.  `drain` is how often `drainChannel` still reads, zero if it does
not run. -/
structure ParallelRead where
  calls : FanOut.State ReadResponse
  responses : List ReadResponse
  ended : Option ReadEnd
  drain : ℕ

inductive ParallelRead.Event where
  | reply (i : ℕ) (siblingSet : Option SiblingSet) (error : Option ReplicaFailure)
  | send (i : ℕ)
  | expire (i : ℕ)
  | receive
  | timeout
  | cancel
  | discard
  | drainTimeout

/-- The event is a reply only if it is the given one. -/
def ParallelRead.Event.Answers (outcome : ℕ → Option SiblingSet × Option ReplicaFailure) :
    ParallelRead.Event → Prop
  | .reply i siblingSet error => (siblingSet, error) = outcome i
  | _ => True

/-- The event is the end of a context or of a timer. -/
def ParallelRead.Event.Timed : ParallelRead.Event → Prop
  | .expire _ | .timeout | .cancel | .drainTimeout => True
  | _ => False

instance (outcome : ℕ → Option SiblingSet × Option ReplicaFailure) :
    DecidablePred (ParallelRead.Event.Answers outcome)
  | .reply i siblingSet error => decEq (siblingSet, error) (outcome i)
  | .send _ | .expire _ | .receive | .timeout | .cancel | .discard | .drainTimeout => isTrue trivial

instance : DecidablePred ParallelRead.Event.Timed
  | .expire _ | .timeout | .cancel | .drainTimeout => isTrue trivial
  | .reply _ _ _ | .send _ | .receive | .discard => isFalse id

/-- The responses of a preference list, in its order. -/
def readAnswers (prefList : List NodeID)
    (outcome : ℕ → Option SiblingSet × Option ReplicaFailure) : List ReadResponse :=
  prefList.mapIdx fun i nid => ⟨nid, (outcome i).1, (outcome i).2⟩

namespace ParallelRead

/-- The loop ends at once if there is no replica. -/
def start (prefList : List NodeID) : ParallelRead where
  calls := FanOut.start prefList.length
  responses := []
  ended := if prefList.length = 0 then some .exhausted else none
  drain := 0

/-- One turn of the loop, for a response taken from the channel. -/
def collect (R : ℤ) (n : ℕ) (s : ParallelRead) (calls : FanOut.State ReadResponse)
    (resp : ReadResponse) : ParallelRead :=
  let responses := s.responses ++ [resp]
  if readSuccesses responses ≥ R then ⟨calls, responses, some .quorum, n - s.responses.length - 1⟩
  else ⟨calls, responses, if responses.length < n then none else some .exhausted, 0⟩

def step (R : ℤ) (prefList : List NodeID) (s : ParallelRead) : Event → Option ParallelRead
  | .reply i siblingSet error =>
    prefList[i]?.bind fun nid =>
      (FanOut.step prefList.length s.calls (.finish i ⟨nid, siblingSet, error⟩)).map fun calls =>
        { s with calls }
  | .send i => (FanOut.step prefList.length s.calls (.send i)).map fun calls => { s with calls }
  -- `readCtx` ends before the response is sent
  | .expire i =>
    (FanOut.step prefList.length s.calls (.abandon i)).map fun calls => { s with calls }
  | .receive =>
    if s.ended = none then
      s.calls.buffer.head?.bind fun resp =>
        (FanOut.step prefList.length s.calls .receive).map fun calls =>
          s.collect R prefList.length calls resp
    else none
  | .timeout =>
    if s.ended = none then
      some { s with ended := some .timeout, drain := prefList.length - s.responses.length }
    else none
  | .cancel => if s.ended = none then some { s with ended := some .canceled } else none
  | .discard =>
    if 0 < s.drain then
      (FanOut.step prefList.length s.calls .receive).map fun calls =>
        { s with calls, drain := s.drain - 1 }
    else none
  | .drainTimeout => if 0 < s.drain then some { s with drain := 0 } else none

/-- The call has returned, and no goroutine of it is left. -/
def Finished (s : ParallelRead) : Prop :=
  s.ended ≠ none ∧ s.drain = 0 ∧ ∀ w ∈ s.calls.workers, w.left = 0

instance : DecidablePred Finished := fun s =>
  inferInstanceAs (Decidable (s.ended ≠ none ∧ s.drain = 0 ∧ ∀ w ∈ s.calls.workers, w.left = 0))

/-- What a step does. -/
inductive Moved (R : ℤ) (prefList : List NodeID) (s : ParallelRead) : Event → ParallelRead → Prop
  | reply (i : ℕ) (nid : NodeID) (siblingSet : Option SiblingSet) (error : Option ReplicaFailure)
      (calls : FanOut.State ReadResponse) (hnid : prefList[i]? = some nid)
      (h : FanOut.Moved prefList.length s.calls (.finish i ⟨nid, siblingSet, error⟩) calls) :
      Moved R prefList s (.reply i siblingSet error) { s with calls }
  | send (i : ℕ) (calls : FanOut.State ReadResponse)
      (h : FanOut.Moved prefList.length s.calls (.send i) calls) :
      Moved R prefList s (.send i) { s with calls }
  | expire (i : ℕ) (calls : FanOut.State ReadResponse)
      (h : FanOut.Moved prefList.length s.calls (.abandon i) calls) :
      Moved R prefList s (.expire i) { s with calls }
  | receive (resp : ReadResponse) (rest : List ReadResponse) (hended : s.ended = none)
      (hbuffer : s.calls.buffer = resp :: rest) :
      Moved R prefList s .receive (s.collect R prefList.length
        { s.calls with buffer := rest, received := s.calls.received ++ [resp] } resp)
  | timeout (hended : s.ended = none) : Moved R prefList s .timeout
      { s with ended := some .timeout, drain := prefList.length - s.responses.length }
  | cancel (hended : s.ended = none) :
      Moved R prefList s .cancel { s with ended := some .canceled }
  | discard (resp : ReadResponse) (rest : List ReadResponse) (hdrain : 0 < s.drain)
      (hbuffer : s.calls.buffer = resp :: rest) :
      Moved R prefList s .discard
        { s with
          calls := { s.calls with buffer := rest, received := s.calls.received ++ [resp] }
          drain := s.drain - 1 }
  | drainTimeout (hdrain : 0 < s.drain) : Moved R prefList s .drainTimeout { s with drain := 0 }

variable {R : ℤ} {prefList : List NodeID}
  {outcome : ℕ → Option SiblingSet × Option ReplicaFailure} {s t : ParallelRead} {e : Event}

theorem moved_of_step (h : s.step R prefList e = some t) : Moved R prefList s e t := by
  cases e with
  | reply i siblingSet error =>
    obtain ⟨nid, hnid, hmap⟩ := Option.bind_eq_some_iff.1 h
    obtain ⟨calls, hcalls, rfl⟩ := Option.map_eq_some_iff.1 hmap
    exact .reply i nid siblingSet error calls hnid (FanOut.moved_of_step hcalls)
  | send i =>
    obtain ⟨calls, hcalls, rfl⟩ := Option.map_eq_some_iff.1 h
    exact .send i calls (FanOut.moved_of_step hcalls)
  | expire i =>
    obtain ⟨calls, hcalls, rfl⟩ := Option.map_eq_some_iff.1 h
    exact .expire i calls (FanOut.moved_of_step hcalls)
  | receive =>
    simp only [step] at h
    split_ifs at h with hended
    obtain ⟨resp, hresp, hmap⟩ := Option.bind_eq_some_iff.1 h
    obtain ⟨calls, hcalls, rfl⟩ := Option.map_eq_some_iff.1 hmap
    cases FanOut.moved_of_step hcalls with
    | receive a rest hbuffer =>
      rw [hbuffer] at hresp
      cases hresp
      exact .receive resp rest hended hbuffer
  | timeout =>
    simp only [step] at h
    split_ifs at h with hended
    cases h
    exact .timeout hended
  | cancel =>
    simp only [step] at h
    split_ifs at h with hended
    cases h
    exact .cancel hended
  | discard =>
    simp only [step] at h
    split_ifs at h with hdrain
    obtain ⟨calls, hcalls, rfl⟩ := Option.map_eq_some_iff.1 h
    cases FanOut.moved_of_step hcalls with
    | receive a rest hbuffer => exact .discard a rest hdrain hbuffer
  | drainTimeout =>
    simp only [step] at h
    split_ifs at h with hdrain
    cases h
    exact .drainTimeout hdrain

/-! ### What has been collected -/

/-- The responses so far are what the loop collects first. -/
def Short (R : ℤ) (responses : List ReadResponse) : Prop :=
  ∀ arrivals, collectReads R [] (responses ++ arrivals) = collectReads R responses arrivals

/-- What holds of the responses, by why the loop has ended. -/
def Collected (R : ℤ) (n : ℕ) : Option ReadEnd → List ReadResponse → Prop
  | some .quorum, l => R ≤ readSuccesses l ∧ ∀ arrivals, collectReads R [] (l ++ arrivals) = l
  | some .exhausted, l => l.length = n ∧ (l = [] ∨ readSuccesses l < R) ∧ Short R l
  | _, l => l.length < n ∧ Short R l

theorem collectReads_of_collected {n : ℕ} {ended : Option ReadEnd} {l : List ReadResponse}
    (h : Collected R n ended l) : collectReads R [] l = l := by
  have hshort : Short R l → collectReads R [] l = l := by
    intro hshort
    have h := hshort []
    rwa [List.append_nil] at h
  cases ended with
  | none => exact hshort h.2
  | some how =>
    cases how with
    | quorum => simpa only [List.append_nil] using h.2 []
    | exhausted => exact hshort h.2.2
    | timeout => exact hshort h.2
    | canceled => exact hshort h.2

section collect

variable (n : ℕ) (calls : FanOut.State ReadResponse) (resp : ReadResponse)

@[simp] theorem collect_calls : (s.collect R n calls resp).calls = calls := by
  simp only [collect]
  split_ifs <;> rfl

@[simp] theorem collect_responses :
    (s.collect R n calls resp).responses = s.responses ++ [resp] := by
  simp only [collect]
  split_ifs <;> rfl

theorem collect_drain_le : (s.collect R n calls resp).drain ≤ n - (s.responses.length + 1) := by
  simp only [collect]
  split_ifs
  · exact Nat.le_of_eq (Nat.sub_sub _ _ _)
  · exact Nat.zero_le _
  · exact Nat.zero_le _

theorem collect_ended : (s.collect R n calls resp).ended = some .quorum ∨
    (s.collect R n calls resp).ended = some .exhausted ∨
      (s.collect R n calls resp).ended = none ∧ (s.collect R n calls resp).drain = 0 := by
  simp only [collect]
  split_ifs <;> simp

end collect

/-- One turn of the loop. -/
theorem collected_collect {n : ℕ} (calls : FanOut.State ReadResponse) (resp : ReadResponse)
    (h : Collected R n none s.responses) :
    Collected R n (s.collect R n calls resp).ended (s.collect R n calls resp).responses := by
  have hnext : ∀ arrivals, collectReads R [] (s.responses ++ [resp] ++ arrivals) =
      collectReads R s.responses (resp :: arrivals) := by
    intro arrivals
    rw [List.append_assoc]
    exact h.2 _
  unfold collect
  by_cases hR : readSuccesses (s.responses ++ [resp]) ≥ R
  · simp only [if_pos hR]
    refine ⟨hR, fun arrivals => ?_⟩
    rw [hnext, collectReads, if_pos hR]
  · have hshort : Short R (s.responses ++ [resp]) := by
      intro arrivals
      rw [hnext, collectReads, if_neg hR]
    simp only [if_neg hR]
    split_ifs with hlen
    · exact ⟨hlen, hshort⟩
    · have hlt := h.1
      rw [List.length_append, List.length_singleton] at hlen
      refine ⟨?_, Or.inr (not_le.1 hR), hshort⟩
      rw [List.length_append, List.length_singleton]
      omega

/-! ### During a run -/

theorem length_readAnswers (prefList : List NodeID)
    (outcome : ℕ → Option SiblingSet × Option ReplicaFailure) :
    (readAnswers prefList outcome).length = prefList.length :=
  List.length_mapIdx

theorem getElem?_readAnswers {i : ℕ} {nid : NodeID} (h : prefList[i]? = some nid) :
    (readAnswers prefList outcome)[i]? = some ⟨nid, (outcome i).1, (outcome i).2⟩ := by
  rw [readAnswers, List.getElem?_mapIdx, h]
  rfl

/-- What holds during a run of `parallelRead`; `calm` says that no context and no timer ends in it.
-/
structure Good (R : ℤ) (answers : List ReadResponse) (calm : Prop) (s : ParallelRead) : Prop where
  balanced : FanOut.Balanced answers s.calls
  received : s.responses <+: s.calls.received
  taken : s.ended = none → s.calls.received = s.responses ∧ s.drain = 0
  drained : s.calls.received.length + s.drain ≤ answers.length
  collected : Collected R answers.length s.ended s.responses
  calm : calm → .gone ∉ s.calls.workers ∧ s.ended ≠ some .timeout ∧ s.ended ≠ some .canceled

theorem good_start (R : ℤ) (calm : Prop) :
    Good R (readAnswers prefList outcome) calm (start prefList) where
  balanced := by
    rw [start, ← length_readAnswers prefList outcome]
    exact FanOut.balanced_start _
  received := List.prefix_refl _
  taken := fun _ => ⟨rfl, rfl⟩
  drained := Nat.zero_le _
  collected := by
    rw [length_readAnswers]
    simp only [start]
    split_ifs with hzero
    · exact ⟨hzero.symm, Or.inl rfl, fun _ => rfl⟩
    · exact ⟨Nat.pos_of_ne_zero hzero, fun _ => rfl⟩
  calm := fun _ => by
    refine ⟨by simp [start, FanOut.start], ?_⟩
    simp only [start]
    split_ifs <;> simp

/-- A step of a goroutine that asks a replica. -/
theorem Good.of_worker {answers : List ReadResponse} {calm : Prop} (h : Good R answers calm s)
    {e : FanOut.Event ReadResponse} {capacity : ℕ} {calls : FanOut.State ReadResponse}
    (hcalls : FanOut.Moved capacity s.calls e calls) (hreceive : e ≠ .receive)
    (hanswer : ∀ i a, e = .finish i a → answers[i]? = some a)
    (habandon : calm → ∀ i, e ≠ .abandon i) :
    Good R answers calm { s with calls } := by
  have hreceived : calls.received = s.calls.received := by
    cases hcalls with
    | finish | send | abandon => rfl
    | receive => exact absurd rfl hreceive
  constructor
  · exact h.balanced.step hanswer hcalls
  · exact hreceived ▸ h.received
  · exact fun hended => ⟨hreceived.trans (h.taken hended).1, (h.taken hended).2⟩
  · exact hreceived ▸ h.drained
  · exact h.collected
  · intro hcalm
    exact ⟨FanOut.gone_of_moved hcalls (habandon hcalm) (h.calm hcalm).1, (h.calm hcalm).2⟩

theorem Good.receive {calm : Prop} (h : Good R (readAnswers prefList outcome) calm s)
    (hended : s.ended = none) {calls : FanOut.State ReadResponse} {resp : ReadResponse}
    (hmoved : FanOut.Moved prefList.length s.calls .receive calls)
    (hworkers : calls.workers = s.calls.workers)
    (hreceived : calls.received = s.calls.received ++ [resp]) :
    Good R (readAnswers prefList outcome) calm (s.collect R prefList.length calls resp) := by
  have hlen := length_readAnswers prefList outcome
  have hcollected := h.collected
  rw [hended] at hcollected
  rw [(h.taken hended).1] at hreceived
  constructor
  · rw [collect_calls]
    exact h.balanced.step (fun _ _ h => by cases h) hmoved
  · rw [collect_calls, collect_responses, hreceived]
  · intro hnone
    rw [collect_calls, collect_responses]
    rcases collect_ended prefList.length calls resp with hq | hx | hidle
    · cases hnone.symm.trans hq
    · cases hnone.symm.trans hx
    · exact ⟨hreceived, hidle.2⟩
  · have hdrain := collect_drain_le (R := R) (s := s) prefList.length calls resp
    have hlt := hcollected.1
    rw [collect_calls, hreceived, List.length_append, List.length_singleton]
    omega
  · rw [hlen] at hcollected ⊢
    exact collected_collect calls resp hcollected
  · intro hcalm
    rw [collect_calls, hworkers]
    refine ⟨(h.calm hcalm).1, ?_⟩
    rcases collect_ended (R := R) (s := s) prefList.length calls resp with hq | hx | hidle
    · rw [hq]
      exact ⟨nofun, nofun⟩
    · rw [hx]
      exact ⟨nofun, nofun⟩
    · rw [hidle.1]
      exact ⟨nofun, nofun⟩

theorem Good.step {calm : Prop} (h : Good R (readAnswers prefList outcome) calm s)
    (he : e.Answers outcome) (hcalm : calm → ¬ e.Timed) (hmoved : Moved R prefList s e t) :
    Good R (readAnswers prefList outcome) calm t := by
  cases hmoved with
  | reply i nid siblingSet error calls hnid hcalls =>
    refine h.of_worker hcalls nofun ?_ (fun _ => nofun)
    rintro j a ⟨⟩
    rw [getElem?_readAnswers hnid, ← he]
  | send i calls hcalls =>
    exact h.of_worker hcalls nofun (fun _ _ h => by cases h) (fun _ => nofun)
  | expire i calls hcalls =>
    exact h.of_worker hcalls nofun (fun _ _ h => by cases h) (fun hc => absurd trivial (hcalm hc))
  | receive resp rest hended hbuffer =>
    exact h.receive hended (.receive resp rest hbuffer) rfl rfl
  | timeout hended =>
    have hcollected := h.collected
    rw [hended] at hcollected
    refine ⟨h.balanced, h.received, nofun, ?_, hcollected, fun hc => absurd trivial (hcalm hc)⟩
    have hlt := hcollected.1
    rw [length_readAnswers] at hlt ⊢
    rw [(h.taken hended).1]
    simp only
    omega
  | cancel hended =>
    have hcollected := h.collected
    rw [hended] at hcollected
    exact ⟨h.balanced, h.received, nofun, h.drained, hcollected,
      fun hc => absurd trivial (hcalm hc)⟩
  | discard resp rest hdrain hbuffer =>
    have hmoved : FanOut.Moved prefList.length s.calls .receive _ := .receive resp rest hbuffer
    have hle := h.drained
    constructor
    · exact h.balanced.step (fun _ _ h => by cases h) hmoved
    · exact h.received.trans (List.prefix_append _ _)
    · exact fun hended => absurd (h.taken hended).2 hdrain.ne'
    · rw [List.length_append, List.length_singleton]
      simp only
      omega
    · exact h.collected
    · exact h.calm
  | drainTimeout hdrain =>
    exact ⟨h.balanced, h.received, fun hended => ⟨(h.taken hended).1, rfl⟩,
      (Nat.le_add_right _ _).trans h.drained, h.collected, fun hc => absurd trivial (hcalm hc)⟩

/-- If no goroutine has given up, all have sent and the buffer is empty, everything has been
received. -/
theorem Good.length_received {answers : List ReadResponse} {calm : Prop} (h : Good R answers calm s)
    (hc : calm) (hleft : ∀ w ∈ s.calls.workers, w.left = 0) (hbuffer : s.calls.buffer = []) :
    s.calls.received.length = answers.length := by
  have hall := FanOut.sent_of_left hleft (h.calm hc).1
  have hsum := h.balanced.length_of_sent hall
  rwa [hbuffer, List.length_nil, Nat.add_zero] at hsum

/-- A call that has not come to its end goes on, without the help of a timer if none has ended yet.
-/
theorem Good.goes_on {calm : Prop} (h : Good R (readAnswers prefList outcome) calm s)
    (hfinished : ¬ s.Finished) :
    ∃ e : Event, e.Answers outcome ∧ (s.step R prefList e).isSome ∧ (calm → ¬ e.Timed) := by
  have hlen := length_readAnswers prefList outcome
  by_cases hleft : ∀ w ∈ s.calls.workers, w.left = 0
  · cases hended : s.ended with
    | none =>
      by_cases hbuffer : s.calls.buffer = []
      · refine ⟨.timeout, trivial, ?_, fun hc => ?_⟩
        · simp only [ParallelRead.step, if_pos hended, Option.isSome_some]
        · have hcollected := h.collected
          rw [hended] at hcollected
          have hlt := hcollected.1
          rw [← (h.taken hended).1, h.length_received hc hleft hbuffer] at hlt
          exact absurd hlt (lt_irrefl _)
      · obtain ⟨resp, rest, hcons⟩ := List.exists_cons_of_ne_nil hbuffer
        refine ⟨.receive, trivial, ?_, fun _ => id⟩
        simp only [ParallelRead.step, if_pos hended, hcons, List.head?_cons, Option.bind_some,
          Option.isSome_map]
        exact FanOut.receive_isSome hbuffer
    | some how =>
      have hdrain : 0 < s.drain := by
        apply Nat.pos_of_ne_zero
        intro hzero
        exact hfinished ⟨by rw [hended]; nofun, hzero, hleft⟩
      by_cases hbuffer : s.calls.buffer = []
      · refine ⟨.drainTimeout, trivial, ?_, fun hc => ?_⟩
        · simp only [ParallelRead.step, if_pos hdrain, Option.isSome_some]
        · have hle := h.drained
          rw [h.length_received hc hleft hbuffer] at hle
          omega
      · refine ⟨.discard, trivial, ?_, fun _ => id⟩
        simp only [ParallelRead.step, if_pos hdrain, Option.isSome_map]
        exact FanOut.receive_isSome hbuffer
  · simp only [not_forall] at hleft
    obtain ⟨w, hw, hw0⟩ := hleft
    obtain ⟨i, a, ha, hstep⟩ := h.balanced.goes_on hw hw0
    rw [hlen] at hstep
    rcases hstep with hfinish | hsend
    · rw [readAnswers, List.getElem?_mapIdx] at ha
      obtain ⟨nid, hnid, rfl⟩ := Option.map_eq_some_iff.1 ha
      refine ⟨.reply i (outcome i).1 (outcome i).2, rfl, ?_, fun _ => id⟩
      simp only [ParallelRead.step, hnid, Option.bind_some, Option.isSome_map]
      exact hfinish
    · refine ⟨.send i, trivial, ?_, fun _ => id⟩
      simp only [ParallelRead.step, Option.isSome_map]
      exact hsend

/-- The steps that are left. -/
def left (s : ParallelRead) : ℕ :=
  s.calls.left + (if s.ended = none then 2 else 0) + min s.drain 1

theorem left_collect_le (n : ℕ) (calls : FanOut.State ReadResponse) (resp : ReadResponse) :
    (s.collect R n calls resp).left ≤ calls.left + 2 := by
  rw [left, collect_calls]
  rcases collect_ended (R := R) (s := s) n calls resp with hq | hx | hidle
  · rw [hq, if_neg nofun]
    omega
  · rw [hx, if_neg nofun]
    omega
  · rw [hidle.1, hidle.2, if_pos rfl]
    omega

theorem left_of_step (h : s.step R prefList e = some t) : t.left < s.left := by
  have hcalls : ∀ {e calls}, FanOut.Moved prefList.length s.calls e calls →
      calls.left < s.calls.left := FanOut.left_of_moved
  cases moved_of_step h with
  | reply i nid siblingSet error calls hnid hmoved =>
    have hlt := hcalls hmoved
    simp only [left]
    omega
  | send i calls hmoved =>
    have hlt := hcalls hmoved
    simp only [left]
    omega
  | expire i calls hmoved =>
    have hlt := hcalls hmoved
    simp only [left]
    omega
  | receive resp rest hended hbuffer =>
    have hlt := hcalls (.receive resp rest hbuffer)
    refine (left_collect_le _ _ _).trans_lt ?_
    simp only [left, if_pos hended]
    omega
  | timeout hended =>
    simp only [left, if_pos hended, reduceCtorEq, if_false]
    omega
  | cancel hended =>
    simp only [left, if_pos hended, reduceCtorEq, if_false]
    omega
  | discard resp rest hdrain hbuffer =>
    have hlt := hcalls (.receive resp rest hbuffer)
    simp only [left]
    omega
  | drainTimeout hdrain =>
    simp only [left]
    omega

theorem left_start_le (prefList : List NodeID) :
    (start prefList).left ≤ 3 * prefList.length + 2 := by
  have hcalls : (start prefList).calls.left = 3 * prefList.length := FanOut.left_start _
  have hdrain : (start prefList).drain = 0 := rfl
  rw [left, hcalls, hdrain]
  split_ifs <;> omega

theorem good_of_exec {calm : Prop} {es : List Event} (hreplies : ∀ e ∈ es, e.Answers outcome)
    (hcalm : calm → ∀ e ∈ es, ¬ e.Timed)
    (h : exec (step R prefList) (start prefList) es = some s) :
    Good R (readAnswers prefList outcome) calm s := by
  have hruns : Runs (step R prefList) (fun _ e => e.Answers outcome ∧ (calm → ¬ e.Timed))
      (start prefList) s :=
    Runs.of_exec h (allOk_of_forall fun e he _ => ⟨hreplies e he, fun hc => hcalm hc e he⟩)
  exact hruns.invariant _ (good_start R calm) fun s e t hs he hstep =>
    hs.step he.1 he.2 (moved_of_step hstep)

theorem Good.subperm {answers : List ReadResponse} {calm : Prop} (h : Good R answers calm s) :
    s.responses.Subperm answers := by
  have hpre := h.received.trans (List.prefix_append s.calls.received s.calls.buffer)
  exact hpre.sublist.subperm.trans h.balanced.subperm

theorem Good.perm_of_exhausted {answers : List ReadResponse} {calm : Prop}
    (h : Good R answers calm s) (hended : s.ended = some .exhausted) :
    s.responses.Perm answers ∧ (s.responses = [] ∨ readSuccesses s.responses < R) := by
  have hcollected := h.collected
  rw [hended] at hcollected
  exact ⟨h.subperm.perm_of_length_le hcollected.1.ge, hcollected.2.1⟩

/-- If enough replicas would answer, an undisturbed call ends with its quorum. -/
theorem Good.quorum {answers : List ReadResponse} {calm : Prop} (h : Good R answers calm s)
    (hc : calm) (hR : 0 < R) (hsuccesses : R ≤ readSuccesses answers) {how : ReadEnd}
    (hended : s.ended = some how) : how = .quorum := by
  cases how with
  | quorum => rfl
  | exhausted =>
    obtain ⟨hperm, hfew⟩ := h.perm_of_exhausted hended
    have hcount : readSuccesses s.responses = readSuccesses answers := hperm.countP_eq _
    rcases hfew with hnil | hlt
    · rw [hnil] at hcount
      change 0 = _ at hcount
      omega
    · omega
  | timeout => exact absurd hended (h.calm hc).2.1
  | canceled => exact absurd hended (h.calm hc).2.2

end ParallelRead

/-- Whatever the schedule of its goroutines, and whenever contexts and timers end, `parallelRead`
takes a bounded number of steps and never gets stuck: not while a goroutine of it is left, and
without the help of a timer as long as none has ended.  What it returns is what the loop collects of
the responses that arrive, each replica once.  If `R` replicas would answer and no timer ends, it
returns a quorum. -/
theorem parallelRead_returns {R : ℤ} {prefList : List NodeID}
    {outcome : ℕ → Option SiblingSet × Option ReplicaFailure} {es : List ParallelRead.Event}
    {s : ParallelRead} (hreplies : ∀ e ∈ es, e.Answers outcome)
    (h : exec (ParallelRead.step R prefList) (ParallelRead.start prefList) es = some s) :
    es.length ≤ 3 * prefList.length + 2 ∧
      (¬ s.Finished → ∃ e : ParallelRead.Event, e.Answers outcome ∧
        (s.step R prefList e).isSome ∧ ((∀ e ∈ es, ¬ e.Timed) → ¬ e.Timed)) ∧
      ∀ how, s.ended = some how →
        s.responses.Subperm (readAnswers prefList outcome) ∧
        collectReads R [] s.responses = s.responses ∧
        (how = .quorum → R ≤ readSuccesses s.responses) ∧
        (how = .exhausted → s.responses.Perm (readAnswers prefList outcome)) ∧
        ((∀ e ∈ es, ¬ e.Timed) → 0 < R → R ≤ readSuccesses (readAnswers prefList outcome) →
          how = .quorum) := by
  have hgood : ParallelRead.Good R (readAnswers prefList outcome) (∀ e ∈ es, ¬ e.Timed) s :=
    ParallelRead.good_of_exec hreplies id h
  refine ⟨?_, hgood.goes_on, fun how hended => ⟨hgood.subperm, ?_, ?_, ?_, ?_⟩⟩
  · have hle := length_le_of_exec (fun _ _ _ => ParallelRead.left_of_step) h
    have hstart := ParallelRead.left_start_le prefList
    omega
  · exact ParallelRead.collectReads_of_collected hgood.collected
  · rintro rfl
    have hcollected := hgood.collected
    rw [hended] at hcollected
    exact hcollected.1
  · rintro rfl
    exact (hgood.perm_of_exhausted hended).1
  · exact fun hcalm hR hsuccesses => hgood.quorum hcalm hR hsuccesses hended

/-- Two of three replicas answer; the third is slow, and gives up after the call has returned. -/
theorem parallelRead_returns_two_of_three :
    let prefList : List NodeID := [n1, n2, n3]
    let outcome : ℕ → Option SiblingSet × Option ReplicaFailure := fun _ => (none, none)
    let es : List ParallelRead.Event := [.reply 2 none none, .reply 0 none none, .send 2, .receive,
      .send 0, .receive, .reply 1 none none, .expire 1, .drainTimeout]
    let s := stateAfter (ParallelRead.step 2 prefList) (ParallelRead.start prefList) es
    s.Finished ∧ s.responses = [⟨n3, none, none⟩, ⟨n1, none, none⟩] ∧
      (2 : ℤ) ≤ readSuccesses s.responses ∧ s.responses.Subperm (readAnswers prefList outcome) := by
  intro prefList outcome es s
  have hreplies : ∀ e ∈ es, e.Answers outcome := by decide
  have hexec : exec (ParallelRead.step 2 prefList) (ParallelRead.start prefList) es = some s :=
    exec_eq_stateAfter (by decide)
  have hreturns := parallelRead_returns hreplies hexec
  obtain ⟨hsubperm, -, hquorum, -⟩ := hreturns.2.2 .quorum (by decide)
  exact ⟨by decide, by decide, hquorum rfl, hsubperm⟩

end GoQuorum
