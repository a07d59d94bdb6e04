import GoQuorum.Config
import GoQuorum.Storage.Engine

/-!
# From the configuration to the store

`internal/config/storage.go` with the other parts of `Config.Validate`, the options that `main` builds
from a configuration, and `StorageOptions.Validate` of `internal/storage/options.go`.  Integers are
64-bit words and wrap around.

The two validators disagree on the size of values and on the data directory, and neither bounds the
numbers that the conversions multiply.  `opens_as_stated_iff` says which valid configurations open the
store with the values they state.
-/

namespace GoQuorum

open Lib

/-! ## Words -/

theorem toInt_not_le {a b : Int64} : ¬a ≤ b ↔ b.toInt < a.toInt := by
  rw [Int64.not_le, Int64.lt_iff_toInt_lt]

theorem toInt_not_lt {a b : Int64} : ¬a < b ↔ b.toInt ≤ a.toInt := by
  rw [Int64.not_lt, Int64.le_iff_toInt_le]

/-- A product is exact if it fits a word. -/
theorem toInt_mul_eq_iff (a b : Int64) : (a * b).toInt = a.toInt * b.toInt ↔
    -2 ^ 63 ≤ a.toInt * b.toInt ∧ a.toInt * b.toInt < 2 ^ 63 := by
  constructor
  · intro h
    rw [← h]
    exact ⟨(a * b).le_toInt, (a * b).toInt_lt⟩
  · rintro ⟨hle, hlt⟩
    rw [Int64.toInt_mul]
    apply Int.bmod_eq_of_le <;> omega

theorem shiftLeft_ten (x : Int64) : x <<< 10 = x * 1024 := by
  rw [← Int64.toBitVec_inj, Int64.toBitVec_shiftLeft, Int64.toBitVec_mul]
  exact BitVec.shiftLeft_eq_mul_twoPow _ 10

theorem shiftLeft_twenty (x : Int64) : x <<< 20 = x * 1048576 := by
  rw [← Int64.toBitVec_inj, Int64.toBitVec_shiftLeft, Int64.toBitVec_mul]
  exact BitVec.shiftLeft_eq_mul_twoPow _ 20

/-! ## Configuration -/

/-- A `float64`, as far as comparisons tell them apart. -/
inductive Float64 where
  | nan
  | negInf
  | finite (x : ℚ)
  | posInf
  deriving DecidableEq

namespace Float64

/-- `<`. -/
def lt : Float64 → Float64 → Bool
  | nan, _ | _, nan => false
  | negInf, negInf => false
  | negInf, _ => true
  | finite _, negInf => false
  | finite x, finite y => x < y
  | finite _, posInf => true
  | posInf, _ => false

/-- `<=`. -/
def le (x y : Float64) : Bool := x.lt y || (x ≠ nan && x = y)

end Float64

/-- `NodeConfig`. -/
structure NodeConfig where
  nodeID : NodeID
  dataDir : Bytes
  deriving DecidableEq

/-- `ReadRepairConfig`. -/
structure ReadRepairConfig where
  timeout : Int64
  probability : Float64
  deriving DecidableEq

/-- `AntiEntropyConfig`. -/
structure AntiEntropyConfig where
  scanInterval : Int64
  exchangeTimeout : Int64
  maxBandwidth : Int64
  parallelism : Int64
  merkleDepth : Int64
  deriving DecidableEq

/-- `ConnectionConfig`. -/
structure ConnectionConfig where
  poolSize : Int64
  idleTimeout : Int64
  maxLifetime : Int64
  dialTimeout : Int64
  reconnectBase : Int64
  reconnectMax : Int64
  reconnectFactor : Float64
  maxReconnectAttempts : Int64
  deriving DecidableEq

/-- `StorageConfig`. -/
structure StorageConfig where
  syncWrites : Bool
  cacheSizeMB : Int64
  memTableMB : Int64
  maxOpenFiles : Int64
  maxKeySizeKB : Int64
  maxValueSizeMB : Int64
  maxSiblings : Int64
  siblingWarningThreshold : Int64
  tombstoneGCEnabled : Bool
  tombstoneTTLDays : Int64
  tombstoneGCInterval : Int64
  vclockPruneDays : Int64
  vclockMaxEntries : Int64
  deriving DecidableEq

/-- `Config`, with the parts that `Validate` and the opening of the store read. -/
structure Config where
  node : NodeConfig
  cluster : ClusterConfig
  storage : StorageConfig
  quorum : QuorumConfig
  readRepair : ReadRepairConfig
  antiEntropy : AntiEntropyConfig
  connection : ConnectionConfig
  deriving DecidableEq

/-- The field a section of the configuration is rejected for. -/
inductive FieldError where
  | timeout | probability
  | scanInterval | exchangeTimeout | maxBandwidth | parallelism | merkleDepth
  | poolSize | idleTimeout | maxLifetime | dialTimeout | reconnectBase | reconnectMax
  | reconnectFactor | maxReconnectAttempts
  | cacheSizeMB | memTableMB | maxOpenFiles | maxKeySizeKB | maxValueSizeMB | maxSiblings
  | tombstoneTTLDays | vclockPruneDays | vclockMaxEntries
  deriving DecidableEq, Repr

/-- What `Config.Validate` rejects. -/
inductive ConfigError where
  | nodeIDRequired
  | nodeID (err : NodeIDError)
  | cluster (err : ClusterConfigError)
  | quorum (err : QuorumConfigError)
  | quorumExceedsCluster (N : ℤ) (members : ℕ)
  | readRepair (err : FieldError)
  | antiEntropy (err : FieldError)
  | connection (err : FieldError)
  | storage (err : FieldError)
  deriving DecidableEq, Repr

/-- `ReadRepairConfig.Validate`. -/
def ReadRepairConfig.validate (c : ReadRepairConfig) : Except FieldError Unit :=
  if c.timeout ≤ 0 then .error .timeout
  else if c.probability.lt (.finite 0) || (Float64.finite 1).lt c.probability then
    .error .probability
  else .ok ()

/-- `AntiEntropyConfig.Validate`. -/
def AntiEntropyConfig.validate (c : AntiEntropyConfig) : Except FieldError Unit :=
  if c.scanInterval ≤ 0 then .error .scanInterval
  else if c.exchangeTimeout ≤ 0 then .error .exchangeTimeout
  else if c.maxBandwidth ≤ 0 then .error .maxBandwidth
  else if c.parallelism ≤ 0 then .error .parallelism
  else if c.merkleDepth < 1 || c.merkleDepth > 20 then .error .merkleDepth
  else .ok ()

/-- `ConnectionConfig.Validate`. -/
def ConnectionConfig.validate (c : ConnectionConfig) : Except FieldError Unit :=
  if c.poolSize ≤ 0 then .error .poolSize
  else if c.idleTimeout ≤ 0 then .error .idleTimeout
  else if c.maxLifetime ≤ 0 then .error .maxLifetime
  else if c.dialTimeout ≤ 0 then .error .dialTimeout
  else if c.reconnectBase ≤ 0 then .error .reconnectBase
  else if c.reconnectMax < c.reconnectBase then .error .reconnectMax
  else if c.reconnectFactor.le (.finite 1) then .error .reconnectFactor
  else if c.maxReconnectAttempts ≤ 0 then .error .maxReconnectAttempts
  else .ok ()

namespace StorageConfig

/-- `Validate`. -/
def validate (c : StorageConfig) : Except FieldError Unit :=
  if c.cacheSizeMB ≤ 0 then .error .cacheSizeMB
  else if c.memTableMB ≤ 0 then .error .memTableMB
  else if c.maxOpenFiles ≤ 0 then .error .maxOpenFiles
  else if c.maxKeySizeKB ≤ 0 ∨ c.maxKeySizeKB > 64 then .error .maxKeySizeKB
  else if c.maxValueSizeMB ≤ 0 ∨ c.maxValueSizeMB > 10 then .error .maxValueSizeMB
  else if c.maxSiblings ≤ 0 then .error .maxSiblings
  else if c.tombstoneTTLDays < 0 then .error .tombstoneTTLDays
  else if c.vclockPruneDays < 0 then .error .vclockPruneDays
  else if c.vclockMaxEntries ≤ 0 then .error .vclockMaxEntries
  else .ok ()

/-- `BlockCacheSize`. -/
def blockCacheSize (c : StorageConfig) : Int64 := c.cacheSizeMB <<< 20

/-- `MemTableSize`. -/
def memTableSize (c : StorageConfig) : Int64 := c.memTableMB <<< 20

/-- `MaxKeySize`. -/
def maxKeySize (c : StorageConfig) : Int64 := c.maxKeySizeKB <<< 10

/-- `MaxValueSize`. -/
def maxValueSize (c : StorageConfig) : Int64 := c.maxValueSizeMB <<< 20

/-- The nanoseconds of `time.Hour`. -/
def hour : Int64 := 3600000000000

/-- `TombstoneTTL`. -/
def tombstoneTTL (c : StorageConfig) : Int64 := c.tombstoneTTLDays * 24 * hour

/-- `VClockPruneThreshold`. -/
def vclockPruneThreshold (c : StorageConfig) : Int64 := c.vclockPruneDays * 24 * hour

end StorageConfig

/-- `Config.Validate`. -/
def Config.validate (services : Bytes → Option ℤ) (c : Config) : Except ConfigError Unit := do
  if c.node.nodeID = [] then .error .nodeIDRequired
  else do
    (validateNodeID c.node.nodeID).mapError .nodeID
    (c.cluster.validate services).mapError .cluster
    c.quorum.validate.mapError .quorum
    if c.quorum.N > c.cluster.members.length then
      .error (.quorumExceedsCluster c.quorum.N c.cluster.members.length)
    else do
      c.readRepair.validate.mapError .readRepair
      c.antiEntropy.validate.mapError .antiEntropy
      c.connection.validate.mapError .connection
      c.storage.validate.mapError .storage

/-! ## Options of the store -/

/-- `StorageOptions` before they are validated; durations are in nanoseconds. -/
structure RawStorageOptions where
  dataDir : Bytes
  nodeID : NodeID
  syncWrites : Bool
  blockCacheSize : Int64
  memTableSize : Int64
  maxOpenFiles : Int64
  maxKeySize : Int64
  maxValueSize : Int64
  maxSiblings : Int64
  siblingWarningThreshold : Int64
  tombstoneGCEnabled : Bool
  tombstoneTTL : Int64
  tombstoneGCInterval : Int64
  vclockPruneThreshold : Int64
  vclockMaxEntries : Int64
  deriving DecidableEq

/-- What `StorageOptions.Validate` rejects. -/
inductive OptionsError where
  | dataDir | nodeID | blockCacheSize | memTableSize | maxKeySize | maxValueSize | maxSiblings
  | vclockPruneThreshold | vclockMaxEntries | tombstoneTTL
  deriving DecidableEq, Repr

namespace RawStorageOptions

/-- `Validate`. -/
def validate (o : RawStorageOptions) : Except OptionsError Unit :=
  if o.dataDir = [] then .error .dataDir
  else if o.nodeID = [] then .error .nodeID
  else if o.blockCacheSize ≤ 0 then .error .blockCacheSize
  else if o.memTableSize ≤ 0 then .error .memTableSize
  else if o.maxKeySize ≤ 0 ∨ o.maxKeySize.toInt > GoQuorum.maxKeySize then .error .maxKeySize
  else if o.maxValueSize ≤ 0 ∨ o.maxValueSize.toInt > GoQuorum.maxValueSize then
    .error .maxValueSize
  else if o.maxSiblings ≤ 0 then .error .maxSiblings
  else if o.vclockPruneThreshold < 0 then .error .vclockPruneThreshold
  else if o.vclockMaxEntries ≤ 0 then .error .vclockMaxEntries
  else if o.tombstoneTTL < 0 then .error .tombstoneTTL
  else .ok ()

/-- The bounds that `Validate` checks. -/
structure Valid (o : RawStorageOptions) : Prop where
  dataDir : o.dataDir ≠ []
  nodeID : o.nodeID ≠ []
  blockCacheSize : 0 < o.blockCacheSize.toInt
  memTableSize : 0 < o.memTableSize.toInt
  maxKeySize : 0 < o.maxKeySize.toInt ∧ o.maxKeySize.toInt ≤ GoQuorum.maxKeySize
  maxValueSize : 0 < o.maxValueSize.toInt ∧ o.maxValueSize.toInt ≤ GoQuorum.maxValueSize
  maxSiblings : 0 < o.maxSiblings.toInt
  vclockPruneThreshold : 0 ≤ o.vclockPruneThreshold.toInt
  vclockMaxEntries : 0 < o.vclockMaxEntries.toInt
  tombstoneTTL : 0 ≤ o.tombstoneTTL.toInt

theorem validate_eq_ok_iff (o : RawStorageOptions) : o.validate = .ok () ↔ o.Valid := by
  simp only [validate, ite_error_eq_ok, not_or, toInt_not_le, toInt_not_lt, not_lt, and_true]
  constructor
  · rintro ⟨h₁, h₂, h₃, h₄, h₅, h₆, h₇, h₈, h₉, h₁₀⟩
    exact ⟨h₁, h₂, h₃, h₄, h₅, h₆, h₇, h₈, h₉, h₁₀⟩
  · rintro ⟨h₁, h₂, h₃, h₄, h₅, h₆, h₇, h₈, h₉, h₁₀⟩
    exact ⟨h₁, h₂, h₃, h₄, h₅, h₆, h₇, h₈, h₉, h₁₀⟩

/-- The options the engine works with. -/
def accepted (o : RawStorageOptions) (h : o.Valid) : StorageOptions where
  syncWrites := o.syncWrites
  maxSiblings := o.maxSiblings.toInt
  vclockPruneThreshold := o.vclockPruneThreshold
  vclockMaxEntries := o.vclockMaxEntries.toInt
  tombstoneTTL := o.tombstoneTTL
  maxSiblings_pos := h.maxSiblings
  vclockPruneThreshold_nonneg := Int64.le_iff_toInt_le.2 h.vclockPruneThreshold
  vclockMaxEntries_pos := h.vclockMaxEntries
  tombstoneTTL_nonneg := Int64.le_iff_toInt_le.2 h.tombstoneTTL

end RawStorageOptions

/-- The options that `main` builds from a configuration. -/
def Config.storageOptions (cfg : Config) : RawStorageOptions where
  dataDir := cfg.node.dataDir
  nodeID := cfg.node.nodeID
  syncWrites := cfg.storage.syncWrites
  blockCacheSize := cfg.storage.blockCacheSize
  memTableSize := cfg.storage.memTableSize
  maxOpenFiles := cfg.storage.maxOpenFiles
  maxKeySize := cfg.storage.maxKeySize
  maxValueSize := cfg.storage.maxValueSize
  maxSiblings := cfg.storage.maxSiblings
  siblingWarningThreshold := cfg.storage.siblingWarningThreshold
  tombstoneGCEnabled := cfg.storage.tombstoneGCEnabled
  tombstoneTTL := cfg.storage.tombstoneTTL
  tombstoneGCInterval := cfg.storage.tombstoneGCInterval
  vclockPruneThreshold := cfg.storage.vclockPruneThreshold
  vclockMaxEntries := cfg.storage.vclockMaxEntries

/-- `NewStorage` on an empty directory. -/
def newStorage (o : RawStorageOptions) : Except OptionsError Storage :=
  match h : o.validate with
  | .error err => .error err
  | .ok () => .ok (Storage.new (o.accepted (o.validate_eq_ok_iff.1 h)))

theorem newStorage_eq_ok {o : RawStorageOptions} {store : Storage} (h : newStorage o = .ok store) :
    ∃ hvalid : o.Valid, store = Storage.new (o.accepted hvalid) := by
  unfold newStorage at h
  split at h
  · cases h
  next hvalid =>
    cases h
    exact ⟨o.validate_eq_ok_iff.1 hvalid, rfl⟩

/-! ## Exact conversions -/

namespace StorageConfig

/-- The bounds that `Validate` checks. -/
structure Valid (c : StorageConfig) : Prop where
  cacheSizeMB : 0 < c.cacheSizeMB.toInt
  memTableMB : 0 < c.memTableMB.toInt
  maxOpenFiles : 0 < c.maxOpenFiles.toInt
  maxKeySizeKB : 0 < c.maxKeySizeKB.toInt ∧ c.maxKeySizeKB.toInt ≤ 64
  maxValueSizeMB : 0 < c.maxValueSizeMB.toInt ∧ c.maxValueSizeMB.toInt ≤ 10
  maxSiblings : 0 < c.maxSiblings.toInt
  tombstoneTTLDays : 0 ≤ c.tombstoneTTLDays.toInt
  vclockPruneDays : 0 ≤ c.vclockPruneDays.toInt
  vclockMaxEntries : 0 < c.vclockMaxEntries.toInt

theorem validate_eq_ok_iff (c : StorageConfig) : c.validate = .ok () ↔ c.Valid := by
  simp only [validate, ite_error_eq_ok, not_or, toInt_not_le, toInt_not_lt, gt_iff_lt, and_true]
  constructor
  · rintro ⟨h₁, h₂, h₃, h₄, h₅, h₆, h₇, h₈, h₉⟩
    exact ⟨h₁, h₂, h₃, h₄, h₅, h₆, h₇, h₈, h₉⟩
  · rintro ⟨h₁, h₂, h₃, h₄, h₅, h₆, h₇, h₈, h₉⟩
    exact ⟨h₁, h₂, h₃, h₄, h₅, h₆, h₇, h₈, h₉⟩

/-- A size in megabytes is exact below eight exabytes. -/
theorem toInt_shiftLeft_twenty_iff {x : Int64} (h : 0 ≤ x.toInt) :
    (x <<< 20).toInt = x.toInt * 2 ^ 20 ↔ x.toInt < 2 ^ 43 := by
  have hexact := toInt_mul_eq_iff x 1048576
  rw [show (1048576 : Int64).toInt = 2 ^ 20 from rfl] at hexact
  rw [shiftLeft_twenty, hexact]
  omega

theorem toInt_shiftLeft_ten {x : Int64} (h : 0 ≤ x.toInt) (hle : x.toInt ≤ 64) :
    (x <<< 10).toInt = x.toInt * 2 ^ 10 := by
  have hexact := toInt_mul_eq_iff x 1024
  rw [show (1024 : Int64).toInt = 2 ^ 10 from rfl] at hexact
  rw [shiftLeft_ten, hexact]
  omega

/-- A duration in days is exact up to 292 years. -/
theorem toInt_days_iff {x : Int64} (h : 0 ≤ x.toInt) :
    (x * 24 * hour).toInt = x.toInt * (24 * 3600 * 10 ^ 9) ↔ x.toInt ≤ 106751 := by
  have hexact := toInt_mul_eq_iff x (24 * hour)
  rw [show (24 * hour).toInt = 24 * 3600 * 10 ^ 9 from rfl] at hexact
  rw [Int64.mul_assoc, hexact]
  omega

end StorageConfig

/-- The store accepts the options that `main` builds, and their sizes and durations are the products
of the configured numbers. -/
structure Config.OpensAsStated (cfg : Config) : Prop where
  accepted : cfg.storageOptions.validate = .ok ()
  blockCacheSize : cfg.storageOptions.blockCacheSize.toInt = cfg.storage.cacheSizeMB.toInt * 2 ^ 20
  memTableSize : cfg.storageOptions.memTableSize.toInt = cfg.storage.memTableMB.toInt * 2 ^ 20
  maxKeySize : cfg.storageOptions.maxKeySize.toInt = cfg.storage.maxKeySizeKB.toInt * 2 ^ 10
  maxValueSize : cfg.storageOptions.maxValueSize.toInt = cfg.storage.maxValueSizeMB.toInt * 2 ^ 20
  tombstoneTTL : cfg.storageOptions.tombstoneTTL.toInt =
    cfg.storage.tombstoneTTLDays.toInt * (24 * 3600 * 10 ^ 9)
  vclockPruneThreshold : cfg.storageOptions.vclockPruneThreshold.toInt =
    cfg.storage.vclockPruneDays.toInt * (24 * 3600 * 10 ^ 9)

namespace Config

variable {services : Bytes → Option ℤ} {cfg : Config}

theorem of_validate (h : cfg.validate services = .ok ()) :
    cfg.node.nodeID ≠ [] ∧ cfg.storage.Valid := by
  unfold validate at h
  split at h
  · cases h
  next hid =>
    obtain ⟨-, -, h⟩ := bind_eq_ok.1 h
    obtain ⟨-, -, h⟩ := bind_eq_ok.1 h
    obtain ⟨-, -, h⟩ := bind_eq_ok.1 h
    split at h
    · cases h
    obtain ⟨-, -, h⟩ := bind_eq_ok.1 h
    obtain ⟨-, -, h⟩ := bind_eq_ok.1 h
    obtain ⟨-, -, h⟩ := bind_eq_ok.1 h
    exact ⟨hid, cfg.storage.validate_eq_ok_iff.1 (mapError_eq_ok.1 h)⟩

/-- The store accepts exact sizes and durations of a valid configuration. -/
theorem valid_storageOptions (hid : cfg.node.nodeID ≠ []) (hvalid : cfg.storage.Valid)
    (hdir : cfg.node.dataDir ≠ []) (hone : cfg.storage.maxValueSizeMB.toInt = 1)
    (hcache : cfg.storage.cacheSizeMB.toInt < 2 ^ 43)
    (hmem : cfg.storage.memTableMB.toInt < 2 ^ 43)
    (hTTL : cfg.storage.tombstoneTTLDays.toInt ≤ 106751)
    (hprune : cfg.storage.vclockPruneDays.toInt ≤ 106751) : cfg.storageOptions.Valid where
  dataDir := hdir
  nodeID := hid
  blockCacheSize := by
    have hpos := hvalid.cacheSizeMB
    exact lt_of_lt_of_eq (by omega) ((StorageConfig.toInt_shiftLeft_twenty_iff hpos.le).2 hcache).symm
  memTableSize := by
    have hpos := hvalid.memTableMB
    exact lt_of_lt_of_eq (by omega) ((StorageConfig.toInt_shiftLeft_twenty_iff hpos.le).2 hmem).symm
  maxKeySize := by
    have hbounds := hvalid.maxKeySizeKB
    have hexact := StorageConfig.toInt_shiftLeft_ten hbounds.1.le hbounds.2
    change 0 < (cfg.storage.maxKeySizeKB <<< 10).toInt ∧
      (cfg.storage.maxKeySizeKB <<< 10).toInt ≤ 65536
    omega
  maxValueSize := by
    have hexact := (StorageConfig.toInt_shiftLeft_twenty_iff hvalid.maxValueSizeMB.1.le).2 (by omega)
    change 0 < (cfg.storage.maxValueSizeMB <<< 20).toInt ∧
      (cfg.storage.maxValueSizeMB <<< 20).toInt ≤ 1048576
    omega
  maxSiblings := hvalid.maxSiblings
  vclockPruneThreshold := by
    have hnonneg := hvalid.vclockPruneDays
    exact le_of_le_of_eq (by omega) ((StorageConfig.toInt_days_iff hnonneg).2 hprune).symm
  vclockMaxEntries := hvalid.vclockMaxEntries
  tombstoneTTL := by
    have hnonneg := hvalid.tombstoneTTLDays
    exact le_of_le_of_eq (by omega) ((StorageConfig.toInt_days_iff hnonneg).2 hTTL).symm

/-- What a valid configuration has to state so that the store opens with it. -/
theorem opensAsStated_iff (hid : cfg.node.nodeID ≠ []) (hvalid : cfg.storage.Valid) :
    cfg.OpensAsStated ↔ cfg.node.dataDir ≠ [] ∧ cfg.storage.maxValueSizeMB.toInt = 1 ∧
      cfg.storage.cacheSizeMB.toInt < 2 ^ 43 ∧ cfg.storage.memTableMB.toInt < 2 ^ 43 ∧
      cfg.storage.tombstoneTTLDays.toInt ≤ 106751 ∧ cfg.storage.vclockPruneDays.toInt ≤ 106751 := by
  have hcache := StorageConfig.toInt_shiftLeft_twenty_iff hvalid.cacheSizeMB.le
  have hmem := StorageConfig.toInt_shiftLeft_twenty_iff hvalid.memTableMB.le
  have hTTL := StorageConfig.toInt_days_iff hvalid.tombstoneTTLDays
  have hprune := StorageConfig.toInt_days_iff hvalid.vclockPruneDays
  constructor
  · intro h
    have haccepted := (RawStorageOptions.validate_eq_ok_iff _).1 h.accepted
    have hone : cfg.storage.maxValueSizeMB.toInt = 1 := by
      have hpos := hvalid.maxValueSizeMB.1
      have hle := haccepted.maxValueSize.2
      rw [h.maxValueSize] at hle
      change _ ≤ (1048576 : ℤ) at hle
      omega
    exact ⟨haccepted.dataDir, hone, hcache.1 h.blockCacheSize, hmem.1 h.memTableSize,
      hTTL.1 h.tombstoneTTL, hprune.1 h.vclockPruneThreshold⟩
  · rintro ⟨hdir, hone, hcacheLt, hmemLt, hTTLLe, hpruneLe⟩
    exact {
      accepted := (RawStorageOptions.validate_eq_ok_iff _).2
        (valid_storageOptions hid hvalid hdir hone hcacheLt hmemLt hTTLLe hpruneLe)
      blockCacheSize := hcache.2 hcacheLt
      memTableSize := hmem.2 hmemLt
      maxKeySize := StorageConfig.toInt_shiftLeft_ten hvalid.maxKeySizeKB.1.le hvalid.maxKeySizeKB.2
      maxValueSize := (StorageConfig.toInt_shiftLeft_twenty_iff hvalid.maxValueSizeMB.1.le).2
        (by omega)
      tombstoneTTL := hTTL.2 hTTLLe
      vclockPruneThreshold := hprune.2 hpruneLe }

/-- Durations of whole days lose nothing in seconds. -/
theorem OpensAsStated.toInt_wholeSeconds_tombstoneTTL (h : cfg.OpensAsStated)
    (hvalid : cfg.storageOptions.Valid) :
    (Duration.wholeSeconds cfg.storageOptions.tombstoneTTL).toInt =
      cfg.storage.tombstoneTTLDays.toInt * (24 * 3600) := by
  have hdays := h.tombstoneTTL
  rw [Duration.toInt_wholeSeconds hvalid.tombstoneTTL,
    if_neg (Duration.not_roundsUp_of_dvd (by omega)), hdays]
  omega

/-- A valid configuration opens the store with the values it states exactly if it names a data
directory, limits values to the one megabyte of the format, and its sizes and durations fit 64 bits.
Of two such configurations the one with the longer tombstone TTL collects tombstones no earlier. -/
theorem opens_as_stated_iff (services : Bytes → Option ℤ) (cfg cfg' : Config)
    (hvalid : cfg.validate services = .ok ()) :
    (cfg.OpensAsStated ↔ cfg.node.dataDir ≠ [] ∧ cfg.storage.maxValueSizeMB.toInt = 1 ∧
      cfg.storage.cacheSizeMB.toInt < 2 ^ 43 ∧ cfg.storage.memTableMB.toInt < 2 ^ 43 ∧
      cfg.storage.tombstoneTTLDays.toInt ≤ 106751 ∧ cfg.storage.vclockPruneDays.toInt ≤ 106751) ∧
    (cfg.OpensAsStated → cfg'.OpensAsStated →
      cfg.storage.tombstoneTTLDays ≤ cfg'.storage.tombstoneTTLDays →
      ∀ store store', newStorage cfg.storageOptions = .ok store →
        newStorage cfg'.storageOptions = .ok store' →
        store.opts.tombstoneTTL.wholeSeconds ≤ store'.opts.tombstoneTTL.wholeSeconds) := by
  obtain ⟨hid, hstorage⟩ := of_validate hvalid
  refine ⟨opensAsStated_iff hid hstorage, fun h h' hle store store' hstore hstore' => ?_⟩
  obtain ⟨haccepted, rfl⟩ := newStorage_eq_ok hstore
  obtain ⟨haccepted', rfl⟩ := newStorage_eq_ok hstore'
  have hdays := Int64.le_iff_toInt_le.1 hle
  have hexact := h.toInt_wholeSeconds_tombstoneTTL haccepted
  have hexact' := h'.toInt_wholeSeconds_tombstoneTTL haccepted'
  rw [Int64.le_iff_toInt_le]
  change (Duration.wholeSeconds cfg.storageOptions.tombstoneTTL).toInt ≤
    (Duration.wholeSeconds cfg'.storageOptions.tombstoneTTL).toInt
  omega

end Config

/-- `DefaultStorageConfig`. -/
def defaultStorageConfig : StorageConfig where
  syncWrites := true
  cacheSizeMB := 256
  memTableMB := 64
  maxOpenFiles := 1000
  maxKeySizeKB := 64
  maxValueSizeMB := 1
  maxSiblings := 100
  siblingWarningThreshold := 5
  tombstoneGCEnabled := true
  tombstoneTTLDays := 7
  tombstoneGCInterval := StorageConfig.hour
  vclockPruneDays := 7
  vclockMaxEntries := 50

/-- A node on its own that keeps tombstones for so many days, and the defaults. -/
def keepingTombstones (days : Int64) : Config where
  node := ⟨ascii "n1", ascii "./data"⟩
  cluster := ⟨ascii "n1", ascii "127.0.0.1:7071", [⟨ascii "n1", ascii "127.0.0.1:7071", []⟩],
    1000000000, 2000000000, 5, 60000000000⟩
  storage := { defaultStorageConfig with tombstoneTTLDays := days }
  quorum := ⟨1, 1, 1, false⟩
  readRepair := ⟨1000000000, .finite 1⟩
  antiEntropy := ⟨3600000000000, 30000000000, 10485760, 1, 10⟩
  connection := ⟨10, 60000000000, 3600000000000, 5000000000, 100000000, 30000000000, .finite 2, 10⟩

/-- A week and a month. -/
theorem week_opens_as_stated :
    (keepingTombstones 7).OpensAsStated ∧
      ∀ store store', newStorage (keepingTombstones 7).storageOptions = .ok store →
        newStorage (keepingTombstones 30).storageOptions = .ok store' →
        store.opts.tombstoneTTL.wholeSeconds ≤ store'.opts.tombstoneTTL.wholeSeconds := by
  have hweek := Config.opens_as_stated_iff (fun _ => none) (keepingTombstones 7)
    (keepingTombstones 30) (by decide +kernel)
  have hmonth := Config.opens_as_stated_iff (fun _ => none) (keepingTombstones 30)
    (keepingTombstones 7) (by decide +kernel)
  have h := hweek.1.2 (by decide +kernel)
  exact ⟨h, hweek.2 h (hmonth.1.2 (by decide +kernel)) (by decide)⟩

/-- 213504 days wrap around to 25 minutes, which both validators accept. -/
theorem centuries_become_minutes :
    (keepingTombstones 213504).validate (fun _ => none) = .ok () ∧
      (keepingTombstones 213504).storageOptions.validate = .ok () ∧
      (keepingTombstones 213504).storageOptions.tombstoneTTL = 1526290448384 ∧
      (keepingTombstones 213504).storageOptions.tombstoneTTL <
        (keepingTombstones 7).storageOptions.tombstoneTTL := by
  decide +kernel

end GoQuorum
