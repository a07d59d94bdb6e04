import GoQuorum.Cluster.Replication

/-!
# Background traffic carries only writes

Hints, read repairs and anti-entropy resend siblings that were stored or answered somewhere, and
what is stored came in by such a request or by a local write.  So every sibling in the cluster, on a
replica or on its disk, in a hint or under way, has the data of a write that was issued (`Traced`),
and each step keeps it so (`Traced.step`), also a crash that loses part of a store.
-/

namespace GoQuorum

open Lib Lib.Versions

/-! ## The data of a sibling -/

namespace Sibling

/-- Text ids arrive unchanged. -/
theorem received_eq {sib : Sibling} (h : sib.vclock.TextIDs) (stamp : NodeID → Int64) :
    sib.received stamp = sib.toData.toSibling stamp := by
  rw [received, overJSON_toData h]

/-- A sibling that is received is sent on as it came. -/
theorem toData_wire (stamp : NodeID → Int64) (sib : Sibling) :
    (sib.toData.toSibling stamp).toData = sib.toData := by
  have hcounters : (entriesToVClock stamp sib.toData.context).counters = sib.vclock.counters := by
    rw [counters_entriesToVClock, toData, vclockToEntries, SortedMap.ofList_toList]
  exact congrArg (fun c => SiblingData.mk sib.value (SortedMap.toList c) sib.tombstone sib.timestamp)
    hcounters

theorem counters_of_toData {x y : Sibling} (h : x.toData = y.toData) :
    x.vclock.counters = y.vclock.counters := by
  have hlist : x.vclock.counters.toList = y.vclock.counters.toList :=
    congrArg SiblingData.context h
  rw [← SortedMap.ofList_toList x.vclock.counters, hlist, SortedMap.ofList_toList]

end Sibling

/-- The sibling has the data of the write `i`, on the key. -/
def FromWrite (writes : ℕ → Option WriteOp) (i : ℕ) (key : Bytes) (x : Sibling) : Prop :=
  ∃ op, writes i = some op ∧ op.plan.key = key ∧ x.toData = op.plan.sibling.toData

/-- The sibling has the data of some write on the key. -/
def Sent (writes : ℕ → Option WriteOp) (key : Bytes) (x : Sibling) : Prop :=
  ∃ i, FromWrite writes i key x

section

variable {s t : ClusterState} {i : ℕ} {key : Bytes} {x y : Sibling}

theorem FromWrite.mono (h : FromWrite s.writes i key x) (he : s.Extends t) :
    FromWrite t.writes i key x := by
  obtain ⟨op, hop, hkey, hdata⟩ := h
  obtain ⟨op', hop', hplan, -⟩ := he i op hop
  exact ⟨op', hop', by rw [hplan, hkey], by rw [hplan, hdata]⟩

theorem Sent.mono (h : Sent s.writes key x) (he : s.Extends t) : Sent t.writes key x := by
  obtain ⟨i, hi⟩ := h
  exact ⟨i, hi.mono he⟩

theorem Sent.of_toData {writes : ℕ → Option WriteOp} (h : Sent writes key x)
    (hdata : y.toData = x.toData) : Sent writes key y := by
  obtain ⟨i, op, hop, hkey, hx⟩ := h
  exact ⟨i, op, hop, hkey, hdata.trans hx⟩

end

/-! ## Hints -/

namespace HandoffState

/-- Every hint that is pending or in a replay run has a property. -/
structure AllHints (P : Hint → Prop) (s : HandoffState) : Prop where
  pending : ∀ target, ∀ h ∈ s.pending target, P h.hint
  runs : ∀ r run, s.runs r = some run → ∀ h, h ∈ run.todo ∨ h ∈ run.remaining → P h.hint

variable {P Q : Hint → Prop} {s t : HandoffState}

theorem allHints_init : AllHints P init :=
  ⟨fun _ _ h => absurd h List.not_mem_nil, fun _ _ h => by cases h⟩

theorem AllHints.mono (h : s.AllHints P) (himp : ∀ hint, P hint → Q hint) : s.AllHints Q :=
  ⟨fun target hint hm => himp _ (h.pending target hint hm),
    fun r run hr hint hm => himp _ (h.runs r run hr hint hm)⟩

theorem AllHints.storeHint (h : s.AllHints P) (target : NodeID) {hint : Hint} (hint_ok : P hint) :
    (s.storeHint target hint).AllHints P := by
  refine ⟨fun n h' hm => ?_, fun r run hr => h.runs r run hr⟩
  rw [pending_storeHint] at hm
  split_ifs at hm
  · rcases List.mem_append.1 hm with hm | hm
    · split_ifs at hm
      · exact h.pending target h' (List.mem_of_mem_tail hm)
      · exact h.pending target h' hm
    · rw [List.mem_singleton.1 hm]
      exact hint_ok
  · exact h.pending n h' hm

theorem AllHints.storeHints (h : s.AllHints P) {nodeID : NodeID} {now : NodeID → ℤ} {key : Bytes}
    {siblings : SiblingSet} (hint_ok : ∀ time, P ⟨key, siblings, time⟩)
    (responses : List WriteResponse) :
    (s.storeHints nodeID now key siblings responses).AllHints P := by
  unfold HandoffState.storeHints
  induction responses generalizing s with
  | nil => exact h
  | cons resp responses ih =>
    rw [List.foldl_cons]
    split_ifs
    · exact ih (h.storeHint resp.nodeID (hint_ok _))
    · exact ih h

theorem AllHints.setRun (h : s.AllHints P) {i : ℕ} {run : ReplayRun}
    (hrun : ∀ h, h ∈ run.todo ∨ h ∈ run.remaining → P h.hint) {delivered expired} :
    AllHints P { s with
      runs := Function.update s.runs i (some run), delivered := delivered, expired := expired } := by
  refine ⟨h.pending, fun r run' hr => ?_⟩
  rcases update_eq_some hr with ⟨-, hr⟩ | hr
  · obtain rfl := Option.some.inj hr
    exact hrun
  · exact h.runs r run' hr

/-- Only `StoreHint` brings in a hint. -/
theorem AllHints.step (h : s.AllHints P) {nodeID : NodeID} {e : HandoffEvent}
    (hstore : ∀ target key siblings now, e = .store target key siblings now →
      P ⟨key, siblings, now⟩) (hs : s.step nodeID e = some t) : t.AllHints P := by
  cases step_cases hs with
  | idle => exact h
  | store target key siblings now hne => exact h.storeHint target (hstore _ _ _ _ rfl)
  | snapshot i target now =>
    refine h.setRun fun h' hm => ?_
    rcases hm with hm | hm
    · exact h.pending target h' hm
    · cases hm
  | attempt i success run h₀ todo htodo hrun =>
    have hold := h.runs i run hrun
    rw [htodo] at hold
    unfold attemptHint
    split_ifs
    · exact h.setRun fun h' hm => hold h' (hm.imp_left (List.mem_cons_of_mem h₀))
    · exact h.setRun fun h' hm => hold h' (hm.imp_left (List.mem_cons_of_mem h₀))
    · refine h.setRun fun h' hm => ?_
      rcases hm with hm | hm
      · exact hold h' (Or.inl (List.mem_cons_of_mem h₀ hm))
      · rcases List.mem_append.1 hm with hm | hm
        · exact hold h' (Or.inr hm)
        · exact hold h' (Or.inl (List.mem_singleton.1 hm ▸ List.mem_cons_self))
  | writeBack i run hrun htodo =>
    refine ⟨fun n h' hm => ?_, fun r run' hr => ?_⟩
    · rw [pending_writeBack] at hm
      split_ifs at hm
      · exact h.runs i run hrun h' (Or.inr hm)
      · exact h.pending n h' hm
    · rcases update_eq_some hr with ⟨-, hr⟩ | hr
      · cases hr
      · exact h.runs r run' hr

end HandoffState

/-- Every sibling of the hint has the data of a write. -/
def HintSent (writes : ℕ → Option WriteOp) (hint : Hint) : Prop :=
  ∀ x ∈ hint.siblings, Sent writes hint.key x

/-! ## Where siblings come from -/

namespace ReplicationState

/-- The stores, writes and reads. -/
def core (s : ReplicationState) : ClusterState := ⟨s.stores, s.writes, fun _ => none, s.reads⟩

/-- A `RemotePut` carries data of writes, that of the fan-out of a write the data of this one. -/
structure SendingTraced (writes : ℕ → Option WriteOp) (snd : Sending) : Prop where
  sent : ∀ x ∈ snd.siblings, Sent writes snd.key x
  own : ∀ i, snd.caller = .write i → ∀ x ∈ snd.siblings, FromWrite writes i snd.key x

/-- Every sibling has the data of a write that was issued. -/
structure Traced (s : ReplicationState) : Prop where
  /-- The clocks of writes have valid node ids, so they arrive as they were sent. -/
  clocks : ∀ i op, s.writes i = some op → op.plan.sibling.vclock.ValidIDs
  stores : ∀ n k set, (s.stores n).stored k = .ok set → ∀ x ∈ set, Sent s.writes k x
  flushed : ∀ n k set, (s.flushed n).stored k = .ok set → ∀ x ∈ set, Sent s.writes k x
  handlers : ∀ t h, s.handlers t = some h → ∀ set, decodeSiblingSet h.data = .ok set →
    ∀ x ∈ set, Sent s.writes h.key x
  sendings : ∀ x snd, s.sendings x = some snd → SendingTraced s.writes snd
  hints : ∀ n, (s.handoffs n).AllHints (HintSent s.writes)
  answers : ∀ j op, s.reads j = some op → ∀ resp ∈ op.answers, ∀ x ∈ resp.siblings,
    Sent s.writes op.key x

variable {s t : ReplicationState}

theorem traced_init (opts : NodeID → StorageOptions) : (init opts).Traced where
  clocks i op h := by cases h
  stores n k set h x hx := by
    obtain rfl : set = [] := (Except.ok.inj h).symm
    cases hx
  flushed n k set h x hx := by
    obtain rfl : set = [] := (Except.ok.inj h).symm
    cases hx
  handlers t h hh := by cases hh
  sendings x snd h := by cases h
  hints n := HandoffState.allHints_init
  answers j op h := by cases h

theorem SendingTraced.mono {snd : Sending} (h : SendingTraced s.writes snd)
    (he : s.core.Extends t.core) : SendingTraced t.writes snd :=
  ⟨fun x hx => Sent.mono (s := s.core) (h.sent x hx) he,
    fun i hi x hx => FromWrite.mono (s := s.core) (h.own i hi x hx) he⟩

/-- More writes and responses. -/
theorem Traced.withWrites (h : s.Traced) {writes : ℕ → Option WriteOp}
    (he : s.core.Extends { s.core with writes := writes })
    (hids : ∀ i op, writes i = some op → op.plan.sibling.vclock.ValidIDs) :
    Traced { s with writes := writes } := by
  have mono : ∀ {k x}, Sent s.writes k x → Sent writes k x :=
    fun hx => Sent.mono (s := s.core) hx he
  refine ⟨hids, fun n k set hs x hx => mono (h.stores n k set hs x hx),
    fun n k set hs x hx => mono (h.flushed n k set hs x hx),
    fun t hd hh set hs x hx => mono (h.handlers t hd hh set hs x hx),
    fun x snd hx => (h.sendings x snd hx).mono (t := { s with writes := writes }) he,
    fun n => (h.hints n).mono fun hint hh x hx => mono (hh x hx),
    fun j op hj resp hr x hx => mono (h.answers j op hj resp hr x hx)⟩

theorem Traced.respond (h : s.Traced) (i : ℕ) (resp : WriteResponse) : (s.respond i resp).Traced := by
  refine h.withWrites (ClusterState.extends_respond s.core i resp) fun k op hk => ?_
  obtain ⟨op', hop', rfl | ⟨-, rfl⟩⟩ := ClusterState.writes_respond (s := s.core) hk
  · exact h.clocks k op hop'
  · rw [op'.plan_respond]
    exact h.clocks k op' hop'

theorem Traced.setHandoff (h : s.Traced) {n : NodeID} {handoff : HandoffState}
    (hok : handoff.AllHints (HintSent s.writes)) : (s.setHandoff n handoff).Traced := by
  refine ⟨h.clocks, h.stores, h.flushed, h.handlers, h.sendings, fun m => ?_, h.answers⟩
  by_cases hm : m = n
  · subst hm
    simp only [ReplicationState.setHandoff, Function.update_self]
    exact hok
  · simp only [ReplicationState.setHandoff, Function.update_of_ne hm]
    exact h.hints m

/-- A step of the hints that stores none. -/
theorem Traced.stepHandoff (h : s.Traced) {n : NodeID} {e : HandoffEvent} {handoff : HandoffState}
    (hs : (s.handoffs n).step n e = some handoff)
    (hno : ∀ target key siblings now, e ≠ .store target key siblings now) :
    (s.setHandoff n handoff).Traced :=
  h.setHandoff ((h.hints n).step (fun _ _ _ _ he => absurd he (hno _ _ _ _)) hs)

theorem Traced.setReplaying (h : s.Traced) (n : NodeID) (r : ℕ) (x : Option ℕ) :
    (s.setReplaying n r x).Traced :=
  ⟨h.clocks, h.stores, h.flushed, h.handlers, h.sendings, h.hints, h.answers⟩

theorem Traced.start (h : s.Traced) (i : ℕ) (n : NodeID) : (s.start i n).Traced :=
  ⟨h.clocks, h.stores, h.flushed, h.handlers, h.sendings, h.hints, h.answers⟩

theorem Traced.markHinted (h : s.Traced) (i : ℕ) : (s.markHinted i).Traced :=
  ⟨h.clocks, h.stores, h.flushed, h.handlers, h.sendings, h.hints, h.answers⟩

theorem Traced.setSending (h : s.Traced) {x : ℕ} {snd : Option Sending}
    (hok : ∀ snd', snd = some snd' → SendingTraced s.writes snd') : (s.setSending x snd).Traced := by
  refine ⟨h.clocks, h.stores, h.flushed, h.handlers, fun y snd' hy => ?_, h.hints, h.answers⟩
  rcases update_eq_some hy with ⟨-, hy⟩ | hy
  · exact hok snd' hy
  · exact h.sendings y snd' hy

theorem Traced.setHandler (h : s.Traced) {t : ℕ} {hd : Option Handler}
    (hok : ∀ hd', hd = some hd' → ∀ set, decodeSiblingSet hd'.data = .ok set →
      ∀ x ∈ set, Sent s.writes hd'.key x) : (s.setHandler t hd).Traced := by
  refine ⟨h.clocks, h.stores, h.flushed, fun u hd' hu => ?_, h.sendings, h.hints, h.answers⟩
  rcases update_eq_some hu with ⟨-, hu⟩ | hu
  · exact hok hd' hu
  · exact h.handlers u hd' hu

theorem Traced.dropHandler (h : s.Traced) (t : ℕ) : (s.setHandler t none).Traced :=
  h.setHandler fun _ he => by cases he

/-- What `Storage.Put` is about to write comes from the record it has read and from its argument. -/
theorem Traced.prepared (h : s.Traced) {n : NodeID} {env : CallEnv} {key data : Bytes}
    {sib : Sibling} (hprep : (s.stores n).prepare env key [sib] = .ok data)
    (hprune : Storage.NoPrune env (s.stores n) key [sib]) (hsent : Sent s.writes key sib) :
    ∀ set, decodeSiblingSet data = .ok set → ∀ x ∈ set, Sent s.writes key x := by
  obtain ⟨all, hall, henc⟩ := Storage.prepare_of_noPrune hprep hprune
  intro set hset x hx
  rw [eq_of_decodeSiblingSet henc hset] at hx
  rcases mem_of_mem_reconcile hx with hx | hx
  · rw [List.mem_singleton.1 hx]
    exact hsent
  · exact h.stores n key all hall x (mem_of_mem_unexpired hx)

theorem Traced.store (h : s.Traced) {t : ℕ} {hd : Handler} (hh : s.handlers t = some hd) :
    (s.store hd).Traced := by
  refine ⟨h.clocks, fun n k set hs x hx => ?_, h.flushed, h.handlers, h.sendings, h.hints,
    h.answers⟩
  have hstored := Cluster.stored_store s.core
    ⟨0, hd.node, hd.key, hd.sibling, hd.env, hd.seen, hd.data⟩ n k
  rw [show ((s.store hd).stores n).stored k = _ from hstored] at hs
  split_ifs at hs with hc
  · rw [hc.2]
    exact h.handlers t hd hh set hs x hx
  · exact h.stores n k set hs x hx

theorem Traced.flush (h : s.Traced) (n : NodeID) : (s.flush n).Traced := by
  refine ⟨h.clocks, h.stores, fun m k set hs => ?_, h.handlers, h.sendings, h.hints, h.answers⟩
  simp only [ReplicationState.flush] at hs
  by_cases hm : m = n
  · rw [hm, Function.update_self] at hs
    exact h.stores n k set hs
  · rw [Function.update_of_ne hm] at hs
    exact h.flushed m k set hs

theorem Traced.tell (h : s.Traced) (snd : Sending) (error : Option ReplicaFailure) :
    (s.tell snd error).Traced := by
  unfold ReplicationState.tell
  split
  · exact h.respond _ _
  · refine Traced.setReplaying ?_ _ _ _
    cases hstep : (s.handoffs snd.sender).step snd.sender _ with
    | none => exact h.setHandoff (h.hints _)
    | some handoff => exact h.stepHandoff hstep fun _ _ _ _ he => by cases he
  · exact h

theorem Traced.finish (h : s.Traced) (x : ℕ) (snd : Sending) (error : Option ReplicaFailure) :
    (s.finish x snd error).Traced :=
  (h.setSending fun _ he => by cases he).tell snd error

theorem Traced.proceed (h : s.Traced) {x : ℕ} {snd : Sending} (hsnd : s.sendings x = some snd)
    (error : Option StorageError) : (s.proceed x snd error).Traced := by
  unfold ReplicationState.proceed
  split
  · exact h.finish _ _ _
  · split
    · exact h.finish _ _ _
    · rename_i rest _ hrest
      refine h.setSending fun snd' hsnd' => ?_
      obtain rfl := Option.some.inj hsnd'
      have hold := h.sendings x snd hsnd
      exact ⟨fun y hy => hold.sent y (List.mem_of_mem_tail hy),
        fun i hi y hy => hold.own i hi y (List.mem_of_mem_tail hy)⟩

theorem Traced.reply (h : s.Traced) (t : ℕ) (hd : Handler) (error : Option StorageError) :
    (s.reply t hd error).Traced := by
  unfold ReplicationState.reply
  split
  · exact h.respond _ _
  · split
    · rename_i snd hsnd
      split_ifs
      · exact h.proceed hsnd error
      · exact h
    · exact h

theorem Traced.withReads (h : s.Traced) {reads : ℕ → Option ReadOp}
    (hr : ∀ j op, reads j = some op → ∀ resp ∈ op.answers, ∀ x ∈ resp.siblings,
      Sent s.writes op.key x) : Traced { s with reads := reads } :=
  ⟨h.clocks, h.stores, h.flushed, h.handlers, h.sendings, h.hints, hr⟩

theorem Traced.respondRead (h : s.Traced) {j : ℕ} {resp : ReadResponse}
    (hnew : ∀ op, s.reads j = some op → ∀ x ∈ resp.siblings, Sent s.writes op.key x) :
    (s.respondRead j resp).Traced := by
  refine h.withReads fun k op' hk r hr x hx => ?_
  rcases update_eq_some hk with ⟨-, hk⟩ | hk
  · obtain ⟨op, hop, rfl⟩ := Option.map_eq_some_iff.1 hk
    unfold ReadOp.respond at hr ⊢
    split_ifs at hr ⊢
    · rcases List.mem_append.1 hr with hr | hr
      · exact h.answers j op hop r hr x hx
      · rw [List.mem_singleton.1 hr] at hx
        exact hnew op hop x hx
    · exact h.answers j op hop r hr x hx
  · exact h.answers k op' hk r hr x hx

/-- Whichever store a node finds again. -/
theorem Traced.crashNode (h : s.Traced) (n : NodeID) : (s.crashNode n).Traced := by
  refine ⟨h.clocks, fun m k set hs => ?_, h.flushed, fun t hd hh => ?_, fun x snd hx => ?_,
    fun m => ?_, h.answers⟩
  · simp only [ReplicationState.crashNode] at hs
    by_cases hm : m = n
    · rw [hm, Function.update_self, restored] at hs
      split_ifs at hs
      · exact h.stores n k set hs
      · exact h.flushed n k set hs
    · rw [Function.update_of_ne hm] at hs
      exact h.stores m k set hs
  · obtain ⟨hd', hh', rfl⟩ := Option.map_eq_some_iff.1 hh
    exact h.handlers t hd' hh'
  · exact h.sendings x snd (Option.filter_eq_some_iff.1 hx).1
  · by_cases hm : m = n
    · subst hm
      simp only [ReplicationState.crashNode, Function.update_self]
      exact HandoffState.allHints_init
    · simp only [ReplicationState.crashNode, Function.update_of_ne hm]
      exact h.hints m

end ReplicationState

/-- What a replica answers comes from its record. -/
theorem Coordinator.exists_of_mem_readReplica {sum64 : Bytes → UInt64} (c : Coordinator sum64)
    {env : CallEnv} {stamp : ℕ → NodeID → Int64} {store : Storage} {key : Bytes} {n : NodeID}
    {x : Sibling} (hx : x ∈ (c.readReplica env stamp store key n).siblings) :
    ∃ set, store.stored key = .ok set ∧ ∃ y ∈ set, x.toData = y.toData := by
  unfold readReplica at hx
  split_ifs at hx
  · split at hx
    · rename_i set hraw
      obtain ⟨all, hall, hfound⟩ := bind_eq_ok.1 hraw
      refine ⟨all, (Storage.readRecord_eq_ok hall).1, x, ?_, rfl⟩
      unfold Storage.foundOr at hfound
      split_ifs at hfound
      obtain rfl := Except.ok.inj hfound
      exact mem_of_mem_unexpired hx
    · cases hx
    · cases hx
  · unfold read at hx
    split at hx
    · cases hx
    · rename_i siblings hget
      obtain ⟨all, hall, hfound⟩ := bind_eq_ok.1 hget
      refine ⟨all, (Storage.readRecord_eq_ok hall).1, ?_⟩
      unfold Storage.foundOr at hfound
      split_ifs at hfound with hnil
      obtain rfl := Except.ok.inj hfound
      rw [if_neg hnil] at hx
      obtain ⟨i, hi, rfl⟩ := List.mem_mapIdx.1 hx
      rw [List.length_map] at hi
      refine ⟨(filterTombstones all)[i], (List.mem_filter.1 (List.getElem_mem hi)).1, ?_⟩
      rw [List.getElem_map]
      exact Sibling.toData_wire _ _

theorem fromWrite_of_write {writes : ℕ → Option WriteOp} {i : ℕ} {op : WriteOp}
    (h : writes i = some op) : FromWrite writes i op.plan.key op.plan.sibling :=
  ⟨op, h, rfl, rfl⟩

section

variable {s : ReplicationState} {key : Bytes} {x : Sibling}

/-- The siblings of writes have valid node ids. -/
theorem Sent.validIDs (h : Sent s.writes key x) (htraced : s.Traced) : x.vclock.ValidIDs := by
  obtain ⟨i, op, hop, -, hdata⟩ := h
  exact (htraced.clocks i op hop).of_counters (Sibling.counters_of_toData hdata).symm

/-- They keep their data on the way. -/
theorem Sent.received (h : Sent s.writes key x) (htraced : s.Traced) (stamp : NodeID → Int64) :
    Sent s.writes key (x.received stamp) := by
  refine h.of_toData ?_
  rw [x.received_eq (h.validIDs htraced).textIDs, x.toData_wire]

end

namespace ReplicationState

open Cluster

variable {sum64 : Bytes → UInt64} {cl : Cluster sum64} {s s' : ReplicationState}
  {e : ReplicationEvent}

/-- One step brings in no data but that of a write it issues. -/
theorem Traced.step (h : s.Traced) (hplain : s.Plain e) (hs : cl.replicationStep s e = some s') :
    s'.Traced := by
  cases moved_of_step hplain hs with
  | issue new planned =>
    refine h.withWrites (ClusterState.extends_issue (s := s.core) new _) fun k op hk => ?_
    rcases update_eq_some hk with ⟨-, hk⟩ | hk
    · obtain rfl := Option.some.inj hk
      exact (planned_of_plan planned hplain.1 hplain.2).clock
    · exact h.clocks k op hk
  | send free write starts other =>
    refine (h.start _ _).setSending fun snd hsnd => ?_
    obtain rfl := Option.some.inj hsnd
    refine ⟨fun x hx => ?_, fun k hk x hx => ?_⟩
    · rw [List.mem_singleton.1 hx]
      exact ⟨_, fromWrite_of_write write⟩
    · obtain rfl := Caller.write.inj hk
      rw [List.mem_singleton.1 hx]
      exact fromWrite_of_write write
  | localWrite free write starts prepared =>
    refine (h.start _ _).setHandler fun hd hhd => ?_
    obtain rfl := Option.some.inj hhd
    exact h.prepared prepared (hplain _ write) ⟨_, fromWrite_of_write write⟩
  | localRefused write => exact (h.start _ _).respond _ _
  | deliver free sending unserved head prepared =>
    rename_i snd sib rest data
    have htraced := h.sendings _ snd sending
    have hsent : Sent s.writes snd.key sib := by
      refine htraced.sent sib ?_
      rw [head]
      exact List.mem_cons_self
    refine Traced.setHandler (h.setSending fun snd' hsnd' => ?_) fun hd hhd => ?_
    · obtain rfl := Option.some.inj hsnd'
      exact ⟨htraced.sent, htraced.own⟩
    · obtain rfl := Option.some.inj hhd
      refine h.prepared prepared (hplain snd sending sib ?_) ?_
      · rw [head]
        exact rfl
      · exact hsent.received h _
  | deliverRefused sending => exact h.finish _ _ _
  | commit handler alive written stored replied =>
    subst stored
    have hstored := (h.store handler).dropHandler
    rw [replied]
    split_ifs
    · exact (hstored _).reply _ _ _
    · exact hstored _
  | commitFailed handler failed dropped replied =>
    subst dropped
    have hdropped := h.dropHandler
    rw [replied]
    split_ifs
    · exact (hdropped _).reply _ _ _
    · exact hdropped _
  | abort sending => exact h.finish _ _ _
  | hint write answered new live =>
    refine (h.markHinted _).setHandoff ((h.hints _).storeHints (fun time x hx => ?_) _)
    rw [List.mem_singleton.1 hx]
    exact ⟨_, fromWrite_of_write write⟩
  | snapshot step => exact h.stepHandoff step fun _ _ _ _ he => by cases he
  | replay free running idle next young =>
    rename_i run hint todo
    refine (h.setReplaying _ _ _).setSending fun snd hsnd => ?_
    obtain rfl := Option.some.inj hsnd
    refine ⟨?_, fun i hi => by cases hi⟩
    refine (h.hints _).runs _ run running hint (Or.inl ?_)
    rw [next]
    exact List.mem_cons_self
  | expire running idle next old step => exact h.stepHandoff step fun _ _ _ _ he => by cases he
  | writeBack step => exact h.stepHandoff step fun _ _ _ _ he => by cases he
  | get new planned =>
    refine h.withReads fun k op hk resp hresp => ?_
    rcases update_eq_some hk with ⟨-, hk⟩ | hk
    · obtain rfl := Option.some.inj hk
      cases hresp
    · exact h.answers k op hk resp hresp
  | answer read =>
    refine h.respondRead fun op hop x hx => ?_
    obtain rfl := Option.some.inj (read.symm.trans hop)
    obtain ⟨set, hset, y, hy, hdata⟩ := Coordinator.exists_of_mem_readReplica _ hx
    exact (h.stores _ _ set hset y hy).of_toData hdata
  | failRead => exact h.respondRead fun op hop x hx => by cases hx
  | repair free read stale =>
    rename_i op
    refine h.setSending fun snd hsnd => ?_
    obtain rfl := Option.some.inj hsnd
    refine ⟨fun x hx => ?_, fun i hi => by cases hi⟩
    obtain ⟨resp, hresp, hx⟩ := List.mem_flatMap.1 (mem_of_mem_mergeAllSiblings hx)
    exact h.answers _ op read resp ((collected_subperm stale.1).subset hresp) x hx
  | push free record =>
    refine h.setSending fun snd hsnd => ?_
    obtain rfl := Option.some.inj hsnd
    exact ⟨h.stores _ _ _ record, fun i hi => by cases hi⟩
  | flush => exact h.flush _
  | crash => exact h.crashNode _

end ReplicationState

end GoQuorum
