import GoQuorum.Cluster.FaultTolerance
import GoQuorum.Server.ClientAPI

/-!
# Error codes

What a client is told when a call of the coordinator fails: `convertError` of
`internal/server/client_api.go` looks for keywords in the text of the error, and the code of the
answer is that of the first one it finds.  The texts are those of `api/common/errors.go`,
`internal/storage/encoding.go` and the coordinator.

The keyword for quorum failures is spelled otherwise than the text of a `QuorumError`, and there is
none for missing keys: validation errors apart, every error of the coordinator becomes `Internal`
(`code_convertError`).
-/

namespace GoQuorum

open Lib

/-! ## Texts -/

/-- What `ValidateKey` says. -/
def KeyError.text : KeyError → Bytes
  | .empty => ascii "key cannot be empty"
  | .tooLarge length => ascii "key too large: " ++ (decimalInt length ++
      (ascii " bytes (max: " ++ (decimalInt maxKeySize ++ ascii ")")))

/-- What `ValidateValue` says of a value of this length. -/
def valueErrorText (length : ℕ) : Bytes :=
  ascii "value too large: " ++ (decimalInt length ++
    (ascii " bytes (max: " ++ (decimalInt maxValueSize ++ ascii ")")))

def RingError.text : RingError → Bytes
  | .nodeExists => ascii "node already exists"
  | .nodeNotFound => ascii "node not found"
  | .emptyRing => ascii "hash ring is empty"

def Operation.text : Operation → Bytes
  | .read => ascii "read"
  | .write => ascii "write"
  | .delete => ascii "delete"

/-- `Error` of a `QuorumError`. -/
def QuorumError.text (err : QuorumError) : Bytes :=
  (ascii "QUORUM_NOT_REACHED: " ++ err.operation.text ++ ascii " quorum ") ++
    (decimalInt err.achieved ++ (ascii "/" ++ (decimalInt err.required ++
      (ascii " (required: " ++ (decimalInt err.required ++ ascii ")")))))

/-- `Error` of what the calls of the coordinator return. -/
def CoordinatorError.text : CoordinatorError → Bytes
  | .invalidKey err => ascii "invalid key: " ++ err.text
  | .invalidValue length => ascii "invalid value: " ++ valueErrorText length
  | .contextRequired => ascii "context required for delete"
  | .preferenceList err => ascii "get preference list: " ++ err.text
  | .keyNotFound => ascii "key not found"
  | .quorum err => err.text

/-! ## Codes -/

/-- The status codes of gRPC that the server and the client deal with. -/
inductive Code where
  | unknown
  | canceled
  | invalidArgument
  | deadlineExceeded
  | notFound
  | resourceExhausted
  | internal
  | unavailable
  deriving DecidableEq, Repr

/-- A status error. -/
structure Status where
  code : Code
  message : Bytes
  deriving DecidableEq

/-- `strings.Contains`. -/
def contains (s substr : Bytes) : Bool := decide (substr <:+: s)

namespace ClientAPI

/-- `convertError`. -/
def convertError (err : CoordinatorError) : Status :=
  let errStr := err.text
  if contains errStr (ascii "quorum not reached") then ⟨.unavailable, errStr⟩
  else if contains errStr (ascii "timeout") then ⟨.deadlineExceeded, errStr⟩
  else if contains errStr (ascii "storage full") then ⟨.resourceExhausted, errStr⟩
  else if contains errStr (ascii "invalid") then ⟨.invalidArgument, errStr⟩
  else ⟨.internal, errStr⟩

end ClientAPI

/-- The status of a request that is not passed on. -/
def RequestError.status : RequestError → Status
  | .keyEmpty => ⟨.invalidArgument, ascii "key cannot be empty"⟩
  | .keyTooLong => ⟨.invalidArgument, ascii "key exceeds 64KB limit"⟩
  | .valueTooLong => ⟨.invalidArgument, ascii "value exceeds 1MB limit"⟩
  | .contextRequired => ⟨.invalidArgument, ascii "context is required for delete"⟩

/-- `Get`. -/
def ClientAPI.get {sum64 : Bytes → UInt64} (c : Coordinator sum64)
    (arrivals : ∀ nodes, ReadArrivals nodes) (key : Bytes) : Except Status (List Sibling) := do
  (checkRequestKey key).mapError RequestError.status
  let siblings ← (c.get arrivals key).mapError convertError
  return siblings.filter fun sib => !sib.tombstone

/-! ## The code of an error -/

/-- What `convertError` looks for before it comes to `"invalid"`. -/
def firstKeywords : List Bytes :=
  [ascii "quorum not reached", ascii "timeout", ascii "storage full"]

theorem noNumber_of_mem {keyword : Bytes} (h : keyword ∈ ascii "invalid" :: firstKeywords) :
    NoNumber keyword := by
  revert keyword
  decide +kernel

/-- No keyword is in the text of a quorum failure, whatever its numbers are. -/
theorem not_infix_quorum {keyword : Bytes} (h : keyword ∈ ascii "invalid" :: firstKeywords)
    (err : QuorumError) : ¬keyword <:+: err.text := by
  have hnum := noNumber_of_mem h
  have hhead : ∀ op : Operation, ∀ keyword ∈ ascii "invalid" :: firstKeywords,
      ¬keyword <:+: ascii "QUORUM_NOT_REACHED: " ++ op.text ++ ascii " quorum " := by
    intro op
    cases op <;> decide
  have hrest : ∀ keyword ∈ ascii "invalid" :: firstKeywords, ¬keyword <:+: ascii "/" ∧
      ¬keyword <:+: ascii " (required: " ∧ ¬keyword <:+: ascii ")" := by
    decide
  obtain ⟨hslash, hrequired, hclose⟩ := hrest keyword h
  apply not_infix_of_number hnum (hhead err.operation keyword h)
  apply not_infix_of_number hnum hslash
  exact not_infix_of_number hnum hrequired hclose _

/-- The text of a validation error has none of the first keywords. -/
theorem not_infix_tooLarge {keyword front : Bytes} (h : keyword ∈ firstKeywords)
    (hfront : ¬keyword <:+: front) (length max : ℕ) :
    ¬keyword <:+: front ++ (decimalInt length ++
      (ascii " bytes (max: " ++ (decimalInt max ++ ascii ")"))) := by
  have hnum := noNumber_of_mem (List.mem_cons_of_mem _ h)
  have hrest : ∀ keyword ∈ firstKeywords, ¬keyword <:+: ascii " bytes (max: " ∧
      ¬keyword <:+: ascii ")" := by
    decide
  apply not_infix_of_number hnum hfront
  exact not_infix_of_number hnum (hrest keyword h).1 (hrest keyword h).2 _

/-- None of the first keywords occurs in an error of the coordinator. -/
theorem not_infix_text {keyword : Bytes} (h : keyword ∈ firstKeywords) (err : CoordinatorError) :
    ¬keyword <:+: err.text := by
  revert keyword
  cases err with
  | invalidKey err =>
    cases err with
    | empty => decide
    | tooLarge length =>
      intro keyword h
      rw [CoordinatorError.text, KeyError.text, ← List.append_assoc]
      refine not_infix_tooLarge h ?_ length maxKeySize
      revert keyword
      decide
  | invalidValue length =>
    intro keyword h
    rw [CoordinatorError.text, valueErrorText, ← List.append_assoc]
    refine not_infix_tooLarge h ?_ length maxValueSize
    revert keyword
    decide
  | contextRequired => decide
  | preferenceList err => cases err <;> decide
  | keyNotFound => decide
  | quorum err => exact fun h => not_infix_quorum (List.mem_cons_of_mem _ h) err

/-- The errors of `ValidateKey` and `ValidateValue`. -/
def CoordinatorError.isValidation : CoordinatorError → Bool
  | .invalidKey _ | .invalidValue _ => true
  | _ => false

/-- `"invalid"` is found in the validation errors, and in no others. -/
theorem infix_invalid_iff (err : CoordinatorError) :
    ascii "invalid" <:+: err.text ↔ err.isValidation = true := by
  cases err with
  | invalidKey err =>
    refine iff_of_true ?_ rfl
    exact List.IsInfix.trans (by decide) (List.prefix_append (ascii "invalid key: ") _).isInfix
  | invalidValue length =>
    refine iff_of_true ?_ rfl
    exact List.IsInfix.trans (by decide) (List.prefix_append (ascii "invalid value: ") _).isInfix
  | contextRequired => decide
  | preferenceList err => cases err <;> decide
  | keyNotFound => decide
  | quorum err => exact iff_of_false (not_infix_quorum List.mem_cons_self err) Bool.false_ne_true

/-- Validation errors become `InvalidArgument`, and everything else becomes `Internal`. -/
theorem code_convertError (err : CoordinatorError) : (ClientAPI.convertError err).code =
    if err.isValidation then .invalidArgument else .internal := by
  have hfirst : ∀ keyword ∈ firstKeywords, contains err.text keyword = false := by
    intro keyword h
    exact decide_eq_false (not_infix_text h err)
  have hquorum := hfirst (ascii "quorum not reached") (by decide)
  have htimeout := hfirst (ascii "timeout") (by decide)
  have hfull := hfirst (ascii "storage full") (by decide)
  have hinvalid : contains err.text (ascii "invalid") = err.isValidation :=
    Bool.eq_iff_iff.2 (decide_eq_true_iff.trans (infix_invalid_iff err))
  simp only [ClientAPI.convertError, hquorum, htimeout, hfull, hinvalid, Bool.false_eq_true,
    if_false]
  split_ifs <;> rfl

end GoQuorum
