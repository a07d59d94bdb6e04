import GoQuorum.Server.InternalAPI
import GoQuorum.Storage.Antichain

/-!
# Convergence of replicas

Hint replay, read repair and anti-entropy deliver siblings through `Replicate` again and again, in
any order.  Replicas that received the same siblings agree on what clients see of them
(`replicas_converge`) when every delivery finds its predecessors: stored siblings are before the
delivered one, or concurrent with it, or a copy of it that prints alike.

A copy delivered in another second does not print alike, because the receiver stamps the clock with
its own time.  Then it is stored a second time (`redelivery_duplicates`).
-/

namespace GoQuorum

open Lib Lib.Versions

/-- A replica with the siblings it has accepted. -/
structure Replica where
  store : Storage
  delivered : List SiblingData

/-- A `Replicate` request for a key: its sibling, the times it is stamped with, and the call's
surroundings. -/
structure Delivery where
  sibling : SiblingData
  stamp : NodeID → Int64
  env : CallEnv

/-- The sibling as `Replicate` passes it on. -/
def Delivery.incoming (d : Delivery) : Sibling := d.sibling.toSibling d.stamp

/-- The sibling with every clock entry stamped zero. -/
def SiblingData.bare (d : SiblingData) : Sibling := d.toSibling fun _ => 0

/-- The replica after a request; a refused sibling is not delivered. -/
def Replica.deliver (key : Bytes) (r : Replica) (d : Delivery) : Option Replica :=
  let (resp, store) := replicate d.env d.stamp r.store ⟨key, d.sibling⟩
  some ⟨store, if resp.success then r.delivered ++ [d.sibling] else r.delivered⟩

/-- A replica that has received nothing. -/
def Replica.new (opts : StorageOptions) : Replica := ⟨Storage.new opts, []⟩

/-- The delivery prunes nothing. -/
def PlainDelivery (key : Bytes) (r : Replica) (d : Delivery) : Prop :=
  Storage.NoPrune d.env r.store key [d.incoming]

instance (key : Bytes) (r : Replica) (d : Delivery) : Decidable (PlainDelivery key r d) :=
  inferInstanceAs (Decidable (Storage.NoPrune _ _ _ _))

/-- How a stored sibling may relate to a delivered one: before it, concurrent with it, or a copy of
it that prints alike. -/
def Precedes (e x : Sibling) : Prop :=
  e.vclock.happensBefore x.vclock = true ∨
    (e.vclock.isConcurrentWith x.vclock = true ∧ e.vclock.string ≠ x.vclock.string) ∨
    (e.vclock.string = x.vclock.string ∧ e.view = x.view)

instance (e x : Sibling) : Decidable (Precedes e x) :=
  inferInstanceAs (Decidable (_ ∨ _ ∨ _))

/-- A delivery that finds its predecessors, with a clock the record format can hold. -/
def OrderlyDelivery (key : Bytes) (r : Replica) (d : Delivery) : Prop :=
  d.incoming.vclock.Readable ∧
    match r.store.stored key with
    | .ok set => ∀ e ∈ set, Precedes e d.incoming
    | .error _ => True

instance (key : Bytes) (r : Replica) (d : Delivery) : Decidable (OrderlyDelivery key r d) :=
  match h : r.store.stored key with
  | .ok set => decidable_of_iff (d.incoming.vclock.Readable ∧ ∀ e ∈ set, Precedes e d.incoming)
      (by simp only [OrderlyDelivery, h])
  | .error _ => decidable_of_iff d.incoming.vclock.Readable
      (by simp only [OrderlyDelivery, h, and_true])

/-! ## The frontier of what was delivered -/

/-- The stored siblings are the frontier of the delivered ones: pairwise concurrent and distinctly
printed, each a copy of a delivered one, and every delivered one is there or was superseded. -/
structure Frontier (set : SiblingSet) (delivered : List SiblingData) : Prop where
  storable : ∀ e ∈ set, e.Storable
  noTTL : NoTTL set
  antichain : Antichain Sibling.vclock set
  prints : (set.map Sibling.printed).Nodup
  source : ∀ e ∈ set, ∃ d ∈ delivered, e.view = d.bare.view
  kept : ∀ d ∈ delivered, ∃ e ∈ set, e.view = d.bare.view ∨ d.bare.vclock < e.vclock

theorem view_incoming (d : Delivery) : d.incoming.view = d.sibling.bare.view := by
  rw [Delivery.incoming, SiblingData.bare, view_toSibling, view_toSibling]

theorem frontier_empty : Frontier [] [] :=
  ⟨by simp, fun sib hs => absurd hs List.not_mem_nil, List.Pairwise.nil, List.nodup_nil, by simp,
    by simp⟩

theorem not_lt_of_precedes {e x : Sibling} (h : Precedes e x) : ¬ x.vclock < e.vclock := by
  rcases h with h | ⟨h, -⟩ | ⟨-, h⟩
  · exact (VectorClock.happensBefore_iff.1 h).asymm
  · exact fun hlt => (isConcurrentWith_iff.1 h).2 hlt.le
  · exact (antisymmRel_of_view h).not_gt

theorem printed_eq_of_precedes {e x : Sibling} (h : Precedes e x)
    (heq : AntisymmRel (· ≤ ·) x.vclock e.vclock) : x.printed = e.printed := by
  rcases h with h | ⟨h, -⟩ | ⟨h, -⟩
  · exact absurd (VectorClock.happensBefore_iff.1 h) heq.not_gt
  · exact absurd heq.2 (isConcurrentWith_iff.1 h).1
  · exact h.symm

/-- What a stored sibling becomes when another is delivered: it is superseded, kept, or replaced by
its copy. -/
theorem fate_of_stored {set : SiblingSet} {e x : Sibling}
    (hprints : (set.map Sibling.printed).Nodup) (he : e ∈ set) (h : Precedes e x) :
    e.vclock < x.vclock ∨ e ∈ reconcileSiblings set [x] ∨ e.view = x.view := by
  rcases h with h | ⟨hc, hne⟩ | ⟨-, h⟩
  · exact Or.inl (VectorClock.happensBefore_iff.1 h)
  · right
    left
    rw [reconcile_singleton]
    have hmem : e ∈ [x] ++ retained Sibling.vclock [x] set := by
      refine List.mem_append_right _ (mem_retained.2 ⟨he, fun n hn hlt => ?_⟩)
      rw [List.mem_singleton.1 hn] at hlt
      exact (isConcurrentWith_iff.1 hc).1 hlt.le
    -- deduplication keeps a sibling that prints like `e`, and that can only be `e` itself
    obtain ⟨z, hz, hze⟩ := exists_mem_dedupBy Sibling.printed [] hmem List.not_mem_nil
    rcases mem_of_mem_join hz with hx | hzs
    · rw [List.mem_singleton.1 hx] at hze
      exact absurd hze.symm hne
    · rw [← List.inj_on_of_nodup_map hprints hzs he hze]
      exact hz
  · exact Or.inr (Or.inr h)

theorem frontier_reconcile {set : SiblingSet} {delivered : List SiblingData} {d : Delivery}
    (h : Frontier set delivered) (hprec : ∀ e ∈ set, Precedes e d.incoming)
    (hx : d.incoming.Storable) :
    Frontier (reconcileSiblings set [d.incoming]) (delivered ++ [d.sibling]) := by
  have hself : d.incoming ∈ reconcileSiblings set [d.incoming] := by
    rw [reconcile_singleton]
    exact mem_join_of_first
  have hmem : ∀ e ∈ reconcileSiblings set [d.incoming], e = d.incoming ∨ e ∈ set :=
    fun e he => (mem_of_mem_reconcile he).imp_left List.mem_singleton.1
  refine ⟨?_, ?_, ?_, ?_, ?_, ?_⟩
  · intro e he
    rcases hmem e he with rfl | he
    · exact hx
    · exact h.storable e he
  · exact h.noTTL.reconcile fun sib hs => by rw [List.mem_singleton.1 hs]; rfl
  · refine antichain_reconcile h.antichain (List.pairwise_singleton _ _) ?_ ?_
    · intro i hi e he
      rw [List.mem_singleton.1 hi]
      exact not_lt_of_precedes (hprec e he)
    · intro i hi e he heq
      rw [List.mem_singleton.1 hi] at heq ⊢
      exact printed_eq_of_precedes (hprec e he) heq
  · rw [reconcile_singleton]
    exact nodup_map_join
  · intro e he
    rcases hmem e he with rfl | he
    · exact ⟨d.sibling, List.mem_append_right _ List.mem_cons_self, view_incoming d⟩
    · obtain ⟨d', hd', hv⟩ := h.source e he
      exact ⟨d', List.mem_append_left _ hd', hv⟩
  · intro d' hd'
    rcases List.mem_append.1 hd' with hd' | hd'
    · obtain ⟨e, he, hv⟩ := h.kept d' hd'
      have hle : d'.bare.vclock ≤ e.vclock := hv.elim (fun hv => le_of_view hv.symm) le_of_lt
      rcases fate_of_stored h.prints he (hprec e he) with hlt | hin | hcopy
      · exact ⟨_, hself, Or.inr (hle.trans_lt hlt)⟩
      · exact ⟨e, hin, hv⟩
      · refine ⟨_, hself, hv.imp (fun hv => hcopy.symm.trans hv) fun hlt => ?_⟩
        exact lt_of_lt_of_antisymmRel hlt (antisymmRel_of_view hcopy)
    · rw [List.mem_singleton.1 hd']
      exact ⟨_, hself, Or.inl (view_incoming d)⟩

/-! ## Runs -/

/-- The invariant of a run of orderly deliveries. -/
def Converging (key : Bytes) (r : Replica) : Prop :=
  ∃ set, r.store.stored key = .ok set ∧ Frontier set r.delivered

/-- A delivery is refused and changes nothing, or it is a write. -/
theorem deliver_cases {key : Bytes} {r r' : Replica} {d : Delivery}
    (h : r.deliver key d = some r') :
    r' = r ∨ ∃ s', r.store.put d.env key [d.incoming] = .ok s' ∧
      r' = ⟨s', r.delivered ++ [d.sibling]⟩ := by
  unfold Replica.deliver replicate at h
  have hin : ReplicateReq.siblings d.stamp ⟨key, d.sibling⟩ = [d.incoming] := rfl
  rw [hin] at h
  cases hput : r.store.put d.env key [d.incoming] with
  | error e =>
    rw [hput] at h
    exact Or.inl (Option.some.inj h).symm
  | ok s' =>
    rw [hput] at h
    exact Or.inr ⟨s', rfl, (Option.some.inj h).symm⟩

theorem converging_deliver {key : Bytes} {r r' : Replica} {d : Delivery} (h : Converging key r)
    (hplain : PlainDelivery key r d) (hord : OrderlyDelivery key r d)
    (hstep : r.deliver key d = some r') : Converging key r' := by
  obtain ⟨set, hset, hfr⟩ := h
  obtain ⟨hread, hprec⟩ := hord
  rw [hset] at hprec
  rcases deliver_cases hstep with rfl | ⟨s', hput, rfl⟩
  · exact ⟨set, hset, hfr⟩
  · obtain ⟨data, hdata, -, rfl⟩ := Storage.put_eq_ok.1 hput
    have hval := Storage.value_length_of_prepare hdata d.incoming List.mem_cons_self
    obtain ⟨all, hall, hdec⟩ := Storage.decode_of_noPrune hdata hplain
      (List.forall_mem_singleton.2 hread)
    obtain rfl := Except.ok.inj (hset.symm.trans hall)
    rw [unexpired_of_noTTL hfr.noTTL] at hdec
    refine ⟨_, ?_, frontier_reconcile hfr hprec ⟨hread, hval⟩⟩
    rw [Storage.stored_insert_self]
    exact hdec

/-- The frontier of one replica's deliveries is part of the other's. -/
theorem Frontier.view_mem {set₁ set₂ : SiblingSet} {ds₁ ds₂ : List SiblingData}
    (h₁ : Frontier set₁ ds₁) (h₂ : Frontier set₂ ds₂) (h : ∀ d, d ∈ ds₁ ↔ d ∈ ds₂) {e : Sibling}
    (he : e ∈ set₁) : ∃ e' ∈ set₂, e'.view = e.view := by
  obtain ⟨d, hd, hv⟩ := h₁.source e he
  obtain ⟨e', he', hv' | hlt⟩ := h₂.kept d ((h d).1 hd)
  · exact ⟨e', he', hv'.trans hv.symm⟩
  · -- a sibling that superseded `e` at the other replica was delivered here as well
    obtain ⟨d', hd', hv'⟩ := h₂.source e' he'
    obtain ⟨e'', he'', hk⟩ := h₁.kept d' ((h d').2 hd')
    have hle : d'.bare.vclock ≤ e''.vclock := hk.elim (fun hv => le_of_view hv.symm) le_of_lt
    have hbelow : e.vclock < e''.vclock :=
      calc e.vclock ≤ d.bare.vclock := le_of_view hv
        _ < e'.vclock := hlt
        _ ≤ d'.bare.vclock := le_of_view hv'
        _ ≤ e''.vclock := hle
    exact absurd hbelow (h₁.antichain.not_lt he he'')

theorem Frontier.nodup_view {set : SiblingSet} {ds : List SiblingData} (h : Frontier set ds) :
    (set.map Sibling.view).Nodup :=
  List.pairwise_map.2 (h.antichain.imp fun hinc hv => hinc.1 (le_of_view hv))

/-- Two replicas that accepted the same siblings, each in some order, any number of times and at any
moments, with every delivery orderly, store the same multiset of values, counters and tombstones. -/
theorem replicas_converge (key : Bytes) (opts₁ opts₂ : StorageOptions) (r₁ r₂ : Replica)
    (siblings : List SiblingData)
    (h₁ : Runs (Replica.deliver key) (fun r d => PlainDelivery key r d ∧ OrderlyDelivery key r d)
      (Replica.new opts₁) r₁)
    (h₂ : Runs (Replica.deliver key) (fun r d => PlainDelivery key r d ∧ OrderlyDelivery key r d)
      (Replica.new opts₂) r₂)
    (hall₁ : ∀ d, d ∈ r₁.delivered ↔ d ∈ siblings)
    (hall₂ : ∀ d, d ∈ r₂.delivered ↔ d ∈ siblings) :
    ∃ set₁ set₂, r₁.store.stored key = .ok set₁ ∧ r₂.store.stored key = .ok set₂ ∧
      (set₁.map Sibling.view).Perm (set₂.map Sibling.view) := by
  have hinit : ∀ opts, Converging key (Replica.new opts) := fun opts => ⟨[], rfl, frontier_empty⟩
  obtain ⟨set₁, hs₁, hf₁⟩ := h₁.invariant (Converging key) (hinit opts₁)
    fun _ _ _ h hc => converging_deliver h hc.1 hc.2
  obtain ⟨set₂, hs₂, hf₂⟩ := h₂.invariant (Converging key) (hinit opts₂)
    fun _ _ _ h hc => converging_deliver h hc.1 hc.2
  have hsame : ∀ d, d ∈ r₁.delivered ↔ d ∈ r₂.delivered := fun d => (hall₁ d).trans (hall₂ d).symm
  refine ⟨set₁, set₂, hs₁, hs₂, ?_⟩
  rw [List.perm_ext_iff_of_nodup hf₁.nodup_view hf₂.nodup_view]
  intro v
  simp only [List.mem_map]
  constructor
  · rintro ⟨e, he, rfl⟩
    exact hf₁.view_mem hf₂ hsame he
  · rintro ⟨e, he, rfl⟩
    exact hf₂.view_mem hf₁ (fun d => (hsame d).symm) he

/-- A version written by one node, as it is sent. -/
def versionOf (n : UInt8) : SiblingData := ⟨[n], [([n], 1)], false, 100⟩

/-- A delivery at one moment. -/
def deliveredAt (now : Int64) (d : SiblingData) : Delivery := ⟨d, fun _ => now, CallEnv.steady now⟩

set_option maxRecDepth 4000 in
theorem replicas_converge_two_orders :
    ∃ r₁ r₂ : Replica, r₁.delivered = [versionOf 97, versionOf 98] ∧
      r₂.delivered = [versionOf 98, versionOf 97, versionOf 97] ∧
      ∃ set₁ set₂, r₁.store.stored [107] = .ok set₁ ∧ r₂.store.stored [107] = .ok set₂ ∧
        (set₁.map Sibling.view).Perm (set₂.map Sibling.view) := by
  obtain ⟨r₁, h₁, hd₁⟩ := Runs.exists_of_exec (Replica.deliver [107])
    (fun r d => PlainDelivery [107] r d ∧ OrderlyDelivery [107] r d)
    (Replica.new defaultStorageOptions)
    [deliveredAt 100 (versionOf 97), deliveredAt 101 (versionOf 98)] Replica.delivered
    (by decide +kernel : _ = some [versionOf 97, versionOf 98]) (by decide +kernel)
  obtain ⟨r₂, h₂, hd₂⟩ := Runs.exists_of_exec (Replica.deliver [107])
    (fun r d => PlainDelivery [107] r d ∧ OrderlyDelivery [107] r d)
    (Replica.new defaultStorageOptions)
    [deliveredAt 200 (versionOf 98), deliveredAt 300 (versionOf 97),
      deliveredAt 300 (versionOf 97)] Replica.delivered
    (by decide +kernel : _ = some [versionOf 98, versionOf 97, versionOf 97]) (by decide +kernel)
  refine ⟨r₁, r₂, hd₁, hd₂, replicas_converge [107] _ _ r₁ r₂ [versionOf 97, versionOf 98] h₁ h₂ ?_ ?_⟩
  · simp [hd₁]
  · simp [hd₂, or_comm]

set_option maxRecDepth 4000 in
/-- A sibling delivered in two different seconds is stored twice. -/
theorem redelivery_duplicates :
    ∃ r₁ r₂ : Replica,
      Runs (Replica.deliver [107]) (PlainDelivery [107]) (Replica.new defaultStorageOptions) r₁ ∧
      Runs (Replica.deliver [107]) (PlainDelivery [107]) (Replica.new defaultStorageOptions) r₂ ∧
      (∀ d, d ∈ r₁.delivered ↔ d ∈ [versionOf 97]) ∧
      (∀ d, d ∈ r₂.delivered ↔ d ∈ [versionOf 97]) ∧
      ∃ set₁ set₂, r₁.store.stored [107] = .ok set₁ ∧ r₂.store.stored [107] = .ok set₂ ∧
        ¬ (set₁.map Sibling.view).Perm (set₂.map Sibling.view) := by
  obtain ⟨r₁, h₁, hf₁⟩ := Runs.exists_of_exec (Replica.deliver [107]) (PlainDelivery [107])
    (Replica.new defaultStorageOptions) [deliveredAt 100 (versionOf 97)]
    (fun r => (r.store.stored [107], r.delivered))
    (by decide +kernel : _ = some (.ok [(deliveredAt 100 (versionOf 97)).incoming],
      [versionOf 97])) (by decide +kernel)
  obtain ⟨r₂, h₂, hf₂⟩ := Runs.exists_of_exec (Replica.deliver [107]) (PlainDelivery [107])
    (Replica.new defaultStorageOptions)
    [deliveredAt 100 (versionOf 97), deliveredAt 101 (versionOf 97)]
    (fun r => (r.store.stored [107], r.delivered))
    (by decide +kernel : _ = some (.ok [(deliveredAt 101 (versionOf 97)).incoming,
      (deliveredAt 100 (versionOf 97)).incoming], [versionOf 97, versionOf 97])) (by decide +kernel)
  obtain ⟨hs₁, hd₁⟩ := Prod.mk.inj hf₁
  obtain ⟨hs₂, hd₂⟩ := Prod.mk.inj hf₂
  refine ⟨r₁, r₂, h₁, h₂, by simp [hd₁], by simp [hd₂], _, _, hs₁, hs₂, fun hperm => ?_⟩
  exact absurd hperm.length_eq (by decide)

end GoQuorum
