import GoQuorum.Client.Resolver
import GoQuorum.Server.ErrorCodes

/-!
# The client and its retries

`Get` of `client/client.go` with `withRetry`, `isRetryable` and the client's own `convertError`.  The
client decides from the code of a failed request alone: it repeats the request on `Unavailable` and
`DeadlineExceeded`, and reports a missing key on `NotFound`.  An attempt may fail on its way to the
server, or reach a coordinator.

No coordinator's error reaches the client as `Unavailable` or `NotFound`, so a missing key is not
reported as such and a quorum failure is not retried (`error_class_survives_iff`).
-/

namespace GoQuorum

open Lib

/-- Why a context is done. -/
inductive ContextError where
  | canceled
  | deadlineExceeded
  deriving DecidableEq, Repr

/-- What a request fails with: a status, or the error of the caller's context. -/
inductive CallError where
  | status (status : Status)
  | context (err : ContextError)
  deriving DecidableEq

/-- `status.Code`. -/
def CallError.code : CallError → Code
  | .status s => s.code
  | .context _ => .unknown

/-- What the calls of the client return. -/
inductive ClientError where
  | keyNotFound
  | call (err : CallError)
  deriving DecidableEq

/-- What one attempt of `Get` meets: it fails on its way, for which gRPC has other codes than
`NotFound`, or it reaches a coordinator, which collects the answers of its replicas. -/
inductive Attempt where
  | lost (status : Status) (h : status.code ≠ .notFound)
  | reached (arrivals : ∀ nodes, ReadArrivals nodes)

namespace Client

/-- `isRetryable`. -/
def isRetryable (err : CallError) : Bool :=
  err.code = .unavailable || err.code = .deadlineExceeded

/-- `convertError`. -/
def convertError (err : CallError) : ClientError :=
  if err.code = .notFound then .keyNotFound else .call err

section Retry

variable {α : Type} (done : ℕ → Option ContextError) (fn : ℕ → Except CallError α)

/-- The loop of `withRetry` from an attempt on, with so many left after it.  The caller's context may
be done before the wait that follows an attempt is over. -/
def retryLoop (remaining attempt : ℕ) : Except CallError α :=
  match fn attempt with
  | .ok result => .ok result
  | .error err =>
    if !isRetryable err then .error err
    else
      match remaining with
      | 0 => .error err
      | remaining + 1 =>
        match done attempt with
        | some err => .error (.context err)
        | none => retryLoop remaining (attempt + 1)

/-- The number of attempts, at least one. -/
def maxAttempts (maxRetries : Int64) : ℕ :=
  let maxAttempts := maxRetries + 1
  if maxAttempts < 1 then 1 else maxAttempts.toInt.toNat

/-- `withRetry`. -/
def withRetry (maxRetries : Int64) : Except CallError α :=
  retryLoop done fn (maxAttempts maxRetries - 1) 0

/-- The attempts that are made: those before have failed in a way that is retried. -/
def Attempted (maxRetries : Int64) (i : ℕ) : Prop :=
  i < maxAttempts maxRetries ∧
    ∀ j < i, (∃ err, fn j = .error err ∧ isRetryable err = true) ∧ done j = none

end Retry

/-- One attempt of `Get`. -/
def callGet {sum64 : Bytes → UInt64} (c : Coordinator sum64) (key : Bytes) :
    Attempt → Except CallError (List Sibling)
  | .lost status _ => .error (.status status)
  | .reached arrivals => (ClientAPI.get c arrivals key).mapError .status

/-- `Get`. -/
def get {sum64 : Bytes → UInt64} (env : ClientEnv) (c : Coordinator sum64) (maxRetries : Int64)
    (done : ℕ → Option ContextError) (attempts : ℕ → Attempt) (key : Bytes) :
    Except ClientError (List ClientSibling) :=
  match withRetry done (fun i => callGet c key (attempts i)) maxRetries with
  | .error err => .error (convertError err)
  | .ok siblings => .ok (siblings.map (Sibling.toClient env.apiOrder env.protoOrder env.stamp))

/-! ## What a call with retries returns -/

section Retry

variable {α : Type} (done : ℕ → Option ContextError) (fn : ℕ → Except CallError α)

theorem maxAttempts_pos (maxRetries : Int64) : 0 < maxAttempts maxRetries := by
  dsimp only [maxAttempts]
  split_ifs with h
  · decide
  · have hle := Int64.le_iff_toInt_le.1 (Int64.not_lt.1 h)
    rw [show (1 : Int64).toInt = 1 from rfl] at hle
    omega

/-- The loop returns what one of its attempts does, all before which are retried, or the error of the
caller's context. -/
theorem retryLoop_eq (remaining attempt : ℕ) :
    ∃ i ≤ attempt + remaining, attempt ≤ i ∧
      (∀ j, attempt ≤ j → j < i → (∃ err, fn j = .error err ∧ isRetryable err = true) ∧
        done j = none) ∧
      (retryLoop done fn remaining attempt = fn i ∨
        ∃ err, done i = some err ∧ retryLoop done fn remaining attempt = .error (.context err)) := by
  induction remaining generalizing attempt with
  | zero =>
    refine ⟨attempt, le_rfl, le_rfl, fun j h₁ h₂ => absurd h₂ (not_lt.2 h₁), Or.inl ?_⟩
    rw [retryLoop]
    cases hfn : fn attempt with
    | ok result => rfl
    | error err => simp
  | succ remaining ih =>
    rw [retryLoop]
    cases hfn : fn attempt with
    | ok result =>
      exact ⟨attempt, by omega, le_rfl, fun j h₁ h₂ => absurd h₂ (not_lt.2 h₁), Or.inl hfn.symm⟩
    | error err =>
      dsimp only
      cases hretry : isRetryable err with
      | false =>
        exact ⟨attempt, by omega, le_rfl, fun j h₁ h₂ => absurd h₂ (not_lt.2 h₁), Or.inl hfn.symm⟩
      | true =>
        cases hdone : done attempt with
        | some e =>
          exact ⟨attempt, by omega, le_rfl, fun j h₁ h₂ => absurd h₂ (not_lt.2 h₁),
            Or.inr ⟨e, hdone, rfl⟩⟩
        | none =>
          obtain ⟨i, hi, hle, hbefore, hresult⟩ := ih (attempt + 1)
          refine ⟨i, by omega, by omega, fun j h₁ h₂ => ?_, hresult⟩
          rcases h₁.eq_or_lt with rfl | h₁
          · exact ⟨⟨err, hfn, hretry⟩, hdone⟩
          · exact hbefore j h₁ h₂

theorem withRetry_eq (maxRetries : Int64) :
    ∃ i, Attempted done fn maxRetries i ∧ (withRetry done fn maxRetries = fn i ∨
      ∃ err, done i = some err ∧ withRetry done fn maxRetries = .error (.context err)) := by
  obtain ⟨i, hi, -, hbefore, hresult⟩ := retryLoop_eq done fn (maxAttempts maxRetries - 1) 0
  have hpos := maxAttempts_pos maxRetries
  exact ⟨i, ⟨by omega, fun j hj => hbefore j (Nat.zero_le j) hj⟩, hresult⟩

end Retry

/-! ## What reaches the client -/

variable {sum64 : Bytes → UInt64} {c : Coordinator sum64}

/-- No attempt of `Get` fails with `NotFound`. -/
theorem code_callGet {key : Bytes} {attempt : Attempt} {err : CallError}
    (h : callGet c key attempt = .error err) : err.code ≠ .notFound := by
  cases attempt with
  | lost status hstatus =>
    cases h
    exact hstatus
  | reached arrivals =>
    obtain ⟨status, hstatus, rfl⟩ := mapError_eq_error.1 h
    change status.code ≠ .notFound
    rcases bind_eq_error.1 hstatus with h | ⟨-, -, h⟩
    · obtain ⟨e, -, rfl⟩ := mapError_eq_error.1 h
      cases e <;> decide
    rcases bind_eq_error.1 h with h | ⟨siblings, -, h⟩
    · obtain ⟨e, -, rfl⟩ := mapError_eq_error.1 h
      rw [code_convertError]
      split_ifs <;> decide
    · cases h

/-- `Get` never reports a missing key. -/
theorem get_ne_keyNotFound (env : ClientEnv) (maxRetries : Int64) (done : ℕ → Option ContextError)
    (attempts : ℕ → Attempt) (key : Bytes) :
    get env c maxRetries done attempts key ≠ .error .keyNotFound := by
  intro h
  rw [get] at h
  split at h
  next err herr =>
    have hcode : err.code = .notFound := by
      by_contra hcode
      rw [convertError, if_neg hcode] at h
      cases h
    obtain ⟨i, -, hresult | ⟨e, -, hresult⟩⟩ := withRetry_eq done
      (fun i => callGet c key (attempts i)) maxRetries
    · exact code_callGet (hresult.symm.trans herr) hcode
    · rw [hresult] at herr
      cases herr
      cases hcode
  next => cases h

end Client

/-- The code of an error tells quorum failures and missing keys from everything else, and the client
retries quorum failures. -/
structure CoordinatorError.Classified (err : CoordinatorError) : Prop where
  unavailable : (ClientAPI.convertError err).code = .unavailable ↔ ∃ e, err = .quorum e
  notFound : (ClientAPI.convertError err).code = .notFound ↔ err = .keyNotFound
  retried : ∀ e, err = .quorum e → Client.isRetryable (.status (ClientAPI.convertError err)) = true

theorem CoordinatorError.classified_iff (err : CoordinatorError) :
    err.Classified ↔ (∀ e, err ≠ .quorum e) ∧ err ≠ .keyNotFound := by
  have hcode := code_convertError err
  have hunavailable : (ClientAPI.convertError err).code ≠ .unavailable := by
    rw [hcode]
    split_ifs <;> decide
  have hnotFound : (ClientAPI.convertError err).code ≠ .notFound := by
    rw [hcode]
    split_ifs <;> decide
  constructor
  · intro h
    exact ⟨fun e he => hunavailable (h.unavailable.2 ⟨e, he⟩), fun he => hnotFound (h.notFound.2 he)⟩
  · rintro ⟨hquorum, hfound⟩
    exact ⟨iff_of_false hunavailable fun ⟨e, he⟩ => hquorum e he, iff_of_false hnotFound hfound,
      fun e he => absurd he (hquorum e)⟩

/-- The class of an error survives exactly if it is neither a quorum failure nor a missing key, and
`Get` of the client agrees with that of the coordinator exactly if no attempt finds the key
missing. -/
theorem error_class_survives_iff (sum64 : Bytes → UInt64) (c : Coordinator sum64) (env : ClientEnv)
    (err : CoordinatorError) (maxRetries : Int64) (done : ℕ → Option ContextError)
    (attempts : ℕ → Attempt) (key : Bytes) :
    (err.Classified ↔ (∀ e, err ≠ .quorum e) ∧ err ≠ .keyNotFound) ∧
    ((Client.get env c maxRetries done attempts key = .error .keyNotFound ↔
        ∃ i arrivals, Client.Attempted done (fun i => Client.callGet c key (attempts i)) maxRetries i ∧
          attempts i = .reached arrivals ∧ c.get arrivals key = .error .keyNotFound) ↔
      ∀ i arrivals, Client.Attempted done (fun i => Client.callGet c key (attempts i)) maxRetries i →
        attempts i = .reached arrivals → c.get arrivals key ≠ .error .keyNotFound) := by
  refine ⟨err.classified_iff, ?_⟩
  rw [iff_false_left (Client.get_ne_keyNotFound env maxRetries done attempts key)]
  constructor
  · intro h i arrivals hi hreached hget
    exact h ⟨i, arrivals, hi, hreached, hget⟩
  · rintro h ⟨i, arrivals, hi, hreached, hget⟩
    exact h i arrivals hi hreached hget

/-- A quorum failure is not retried, and a key that the coordinator does not find is reported as an
internal error. -/
theorem unclassified_errors_are_internal :
    (ClientAPI.convertError (.quorum ⟨2, 1, .read, []⟩)).code = .internal ∧
      Client.isRetryable (.status (ClientAPI.convertError (.quorum ⟨2, 1, .read, []⟩))) = false ∧
      strictCoordinator.get (answering []) [107] = .error .keyNotFound ∧
      Client.get promptClient strictCoordinator 3 (fun _ => none) (fun _ => .reached (answering []))
        [107] = .error (.call (.status ⟨.internal, ascii "key not found"⟩)) := by
  decide +kernel

end GoQuorum
