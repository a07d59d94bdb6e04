import GoQuorum.Cluster.Durability

/-!
# What a read returns

A read sees the replicas at different moments.  `Shows` relates each response of a read to a record
that the replica held when it answered, so that what holds of all records while a read runs holds of
its responses (`Shows.step`).  Since read and write quorums overlap, one of the responses a `Get`
collects comes from a replica that acknowledged a given write (`exists_acked_response`), and where
nothing is deleted the `Get` therefore returns a sibling whose clock dominates that of the write
(`get_dominates_acknowledged_put`).
-/

namespace GoQuorum

open Lib Lib.Versions

/-! ## One replica -/

/-- What a coordinator sees of a record: all of its own, and only the live siblings of another's. -/
def visible (coordinator : MemberID) (n : NodeID) (set : SiblingSet) : SiblingSet :=
  if n = coordinator then set else filterTombstones set

theorem mem_of_mem_visible {coordinator : MemberID} {n : NodeID} {set : SiblingSet} {x : Sibling}
    (h : x ∈ visible coordinator n set) : x ∈ set := by
  unfold visible at h
  split_ifs at h
  · exact h
  · exact (List.mem_filter.1 h).1

theorem mem_filterTombstones {set : SiblingSet} {x : Sibling} (h : x ∈ set)
    (hlive : x.tombstone = false) : x ∈ filterTombstones set :=
  List.mem_filter.2 ⟨h, by simp [hlive]⟩

theorem mem_visible_of_live {set : SiblingSet} {x : Sibling} (h : x ∈ set)
    (hlive : x.tombstone = false) (coordinator : MemberID) (n : NodeID) :
    x ∈ visible coordinator n set := by
  unfold visible
  split_ifs
  · exact h
  · exact mem_filterTombstones h hlive

theorem map_view_wire (stamp : ℕ → NodeID → Int64) (l : List Sibling) :
    ((l.map Sibling.toData).mapIdx fun i d => d.toSibling (stamp i)).map Sibling.view =
      l.map Sibling.view := by
  refine List.ext_getElem (by simp) fun i h₁ h₂ => ?_
  simp only [List.getElem_map, List.getElem_mapIdx, view_wire]

/-- What `GetRaw` contributes, found or not. -/
theorem siblings_getRaw {env : CallEnv} {store : Storage} {key : Bytes} {set : SiblingSet}
    (hr : store.readRecord env key = .ok set) (httl : NoTTL set) :
    store.getRaw env key = Storage.foundOr set := by
  rw [Storage.getRaw, hr, ok_bind, unexpired_of_noTTL httl]

theorem siblings_read {env : CallEnv} {store : Storage} {key : Bytes} {set : SiblingSet}
    (hr : store.readRecord env key = .ok set) (stamp : ℕ → NodeID → Int64) :
    (((read env store key).toSiblingSet stamp).getD []).map Sibling.view =
      (filterTombstones set).map Sibling.view := by
  have hget : store.get env key = Storage.foundOr (filterTombstones set) := by
    rw [Storage.get, hr, ok_bind]
  unfold read
  rw [hget, Storage.foundOr]
  split_ifs with hnil
  · rw [hnil]
    rfl
  · simp only [if_neg hnil, InternalReadResp.toSiblingSet, if_true, Option.getD_some]
    exact map_view_wire stamp _

/-- A response that does not fail shows what is visible of the record. -/
theorem Coordinator.siblings_readReplica {sum64 : Bytes → UInt64} (c : Coordinator sum64)
    {env : CallEnv} {store : Storage} {key : Bytes} (hwell : store.readsWell env key = true)
    (httl : ∀ set, store.stored key = .ok set → NoTTL set) (stamp : ℕ → NodeID → Int64)
    (n : NodeID) :
    ∃ set, store.stored key = .ok set ∧
      (c.readReplica env stamp store key n).siblings.map Sibling.view =
        (visible c.nodeID n set).map Sibling.view := by
  unfold Storage.readsWell at hwell
  split at hwell
  · rename_i set hr
    have hset := (Storage.readRecord_eq_ok hr).1
    refine ⟨set, hset, ?_⟩
    unfold readReplica visible
    split_ifs with hn
    · rw [siblings_getRaw hr (httl set hset), Storage.foundOr]
      split_ifs with hnil
      · rw [hnil]
        rfl
      · rfl
    · exact siblings_read hr stamp
  · rename_i hr
    refine ⟨[], Storage.stored_of_keyNotFound hr, ?_⟩
    have hraw : store.getRaw env key = .error .keyNotFound := by
      rw [Storage.getRaw, hr]
      rfl
    have hget : store.get env key = .error .keyNotFound := by
      rw [Storage.get, hr]
      rfl
    unfold readReplica visible
    split_ifs with hn
    · rw [hraw]
      rfl
    · rw [read, hget]
      rfl
  · cases hwell

/-! ## All responses of a read -/

namespace Cluster

open ClusterState

variable {sum64 : Bytes → UInt64} {cl : Cluster sum64} {s t s₁ s₂ : ClusterState} {e : ClusterEvent}

/-- Every successful response of a read shows what is visible of a record with the property `Q` of
the state, the key and the replica. -/
def Shows (Q : ClusterState → Bytes → NodeID → SiblingSet → Prop) (j : ℕ) (s : ClusterState) :
    Prop :=
  ∀ op, s.reads j = some op → ∀ resp ∈ op.answers, resp.error = none →
    ∃ set, Q s op.key resp.nodeID set ∧
      resp.siblings.map Sibling.view =
        (visible op.coordinator resp.nodeID set).map Sibling.view

section

variable {Q : ClusterState → Bytes → NodeID → SiblingSet → Prop} {j : ℕ}

theorem Shows.frame (h : Shows Q j s) (hreads : t.reads = s.reads)
    (hmono : ∀ k n set, Q s k n set → Q t k n set) : Shows Q j t := by
  intro op hop resp hresp herr
  rw [hreads] at hop
  obtain ⟨set, hQ, hview⟩ := h op hop resp hresp herr
  exact ⟨set, hmono _ _ _ hQ, hview⟩

/-- A response may be recorded if it fails or shows such a record. -/
theorem Shows.respondRead (h : Shows Q j s) {k : ℕ} {resp : ReadResponse}
    (hmono : ∀ k n set, Q s k n set → Q t k n set) (ht : t = s.respondRead k resp)
    (hnew : ∀ op, s.reads k = some op → resp.error = none → ∃ set, Q s op.key resp.nodeID set ∧
      resp.siblings.map Sibling.view =
        (visible op.coordinator resp.nodeID set).map Sibling.view) : Shows Q j t := by
  intro op' hop' r hr herr
  rw [ht] at hop'
  rcases update_eq_some hop' with ⟨rfl, hop'⟩ | hop'
  · obtain ⟨op, hop, rfl⟩ := Option.map_eq_some_iff.1 hop'
    unfold ReadOp.respond at hr ⊢
    split_ifs at hr ⊢ with hc
    · rcases List.mem_append.1 hr with hr | hr
      · obtain ⟨set, hQ, hview⟩ := h op hop r hr herr
        exact ⟨set, hmono _ _ _ hQ, hview⟩
      · obtain rfl := List.mem_singleton.1 hr
        obtain ⟨set, hQ, hview⟩ := hnew op hop herr
        exact ⟨set, hmono _ _ _ hQ, hview⟩
    · obtain ⟨set, hQ, hview⟩ := h op hop r hr herr
      exact ⟨set, hmono _ _ _ hQ, hview⟩
  · obtain ⟨set, hQ, hview⟩ := h op' hop' r hr herr
    exact ⟨set, hmono _ _ _ hQ, hview⟩

/-- What holds of every record holds of the records that responses show. -/
theorem Shows.step (h : Shows Q j s) (hsound : cl.Sound s) (hplain : s.Plain e)
    (hs : cl.step s e = some t) (hmono : ∀ k n set, Q s k n set → Q t k n set)
    (hQ : ∀ k n set, (s.stores n).stored k = .ok set → Q s k n set) : Shows Q j t := by
  cases e with
  | issue i coordinator times call =>
    obtain ⟨-, plan, -, rfl⟩ := step_issue hs
    exact h.frame rfl hmono
  | receive u i node stamp env =>
    obtain ⟨key, sibling, data, -, -, rfl⟩ := step_receive hs
    exact h.frame rfl hmono
  | commit u ack =>
    obtain ⟨tr, -, rfl | rfl | rfl⟩ := step_commit hs
    all_goals exact h.frame rfl hmono
  | fail i node err =>
    obtain rfl := Option.some.inj hs
    exact h.frame rfl hmono
  | get k coordinator key =>
    obtain ⟨-, prefList, -, rfl⟩ := step_get hs
    intro op hop resp hresp herr
    rcases update_eq_some hop with ⟨-, hop⟩ | hop
    · obtain rfl := Option.some.inj hop
      cases hresp
    · obtain ⟨set, hq, hview⟩ := h op hop resp hresp herr
      exact ⟨set, hmono _ _ _ hq, hview⟩
  | answer k node env stamp =>
    obtain ⟨op, hop, rfl⟩ := step_answer hs
    refine h.respondRead hmono rfl fun op' hop' _ => ?_
    obtain rfl : op = op' := Option.some.inj (hop.symm.trans hop')
    obtain ⟨set, hset, hview⟩ := (cl.coordinator op.coordinator).siblings_readReplica
      (hplain op hop) (fun set hset x hx => (hsound.stores node op.key set hset x hx).1) stamp node
    have hnode : ((cl.coordinator op.coordinator).readReplica env stamp (s.stores node) op.key
        node).nodeID = node := by
      unfold Coordinator.readReplica
      split_ifs
      · split <;> rfl
      · rfl
    rw [hnode]
    exact ⟨set, hQ _ _ _ hset, hview⟩
  | failRead k node err =>
    obtain rfl := Option.some.inj hs
    exact h.respondRead hmono rfl fun op hop herr => by cases herr

end

/-- The records a read sees after the state `s₁`: their siblings are those of writes, and they cover
what the replica had acknowledged in `s₁`. -/
def Durable (s₁ s : ClusterState) (key : Bytes) (n : NodeID) (set : SiblingSet) : Prop :=
  (∀ x ∈ set, s.Issued key x) ∧ ∀ i op, s₁.writes i = some op → op.plan.key = key → op.Acked n →
    Covers Sibling.vclock set op.plan.sibling.vclock

/-- A read that begins after `s₁` sees durable records only. -/
theorem shows_durable {ok : ClusterState → ClusterEvent → Prop} {j : ℕ}
    (hok : ∀ s e, ok s e → s.Plain e ∧ s.Atomic e) (h₁ : cl.Sound s₁) (hnew : s₁.reads j = none)
    (hrun : Runs cl.step ok s₁ s₂) :
    cl.Sound s₂ ∧ s₁.Extends s₂ ∧ Shows (Durable s₁) j s₂ := by
  have hinit : cl.Sound s₁ ∧ s₁.Extends s₁ ∧ Shows (Durable s₁) j s₁ := by
    refine ⟨h₁, extends_of_eq rfl, fun op hop => ?_⟩
    rw [hnew] at hop
    cases hop
  refine hrun.invariant (fun s => cl.Sound s ∧ s₁.Extends s ∧ Shows (Durable s₁) j s) hinit ?_
  rintro s e t ⟨hsound, hext, hshows⟩ hc hs
  obtain ⟨hplain, hatomic⟩ := hok s e hc
  have hst := extends_step hs
  refine ⟨hsound.step hplain hatomic hs, hext.trans hst, hshows.step hsound hplain hs ?_ ?_⟩
  · exact fun k n set hQ => ⟨fun x hx => (hQ.1 x hx).mono hst, hQ.2⟩
  · intro k n set hset
    refine ⟨fun x hx => (hsound.stores n k set hset x hx).2, fun i op hop hkey hack => ?_⟩
    obtain ⟨op', hop', hplan, hacks⟩ := hext i op hop
    rw [← hplan]
    exact (hsound.acked i op' n hop' (hacks n hack) set (by rw [hplan, hkey, hset])).covers

/-! ## Overlapping quorums -/

/-- A `Put` that returned a clock has `W` acknowledgements. -/
theorem acks_of_putResult {w : WriteOp} {c : VectorClock} (h : cl.putResult w = some (.ok c)) :
    cl.quorumConfig.W ≤ countSuccesses w.responses ∧ w.plan.sibling.vclock = c := by
  unfold putResult at h
  split_ifs at h
  exact (Coordinator.finishPut_eq_ok cl.strict).1 (Option.some.inj h)

/-- What a `Get` collects is part of what was answered, each replica once. -/
theorem collected_subperm {op : ReadOp} {arrivals : List ReadResponse}
    (harr : arrivals.Subperm op.answers) : (cl.collected arrivals).Subperm op.answers := by
  obtain ⟨l, hl, he⟩ := collectReads_eq cl.quorumConfig.R [] arrivals
  rw [collected, he, List.nil_append]
  exact hl.sublist.subperm.trans harr

theorem nodup_of_subperm {α : Type} {f : α → NodeID} {l l' : List α} (h : (l'.map f).Nodup)
    (hs : l.Subperm l') : (l.map f).Nodup := by
  obtain ⟨m, hm, hsub⟩ := hs
  exact (hm.map f).nodup_iff.1 (h.sublist (hsub.map f))

/-- A read quorum contains a replica that acknowledged the write. -/
theorem exists_acked_response {w : WriteOp} {r : ReadOp} {arrivals : List ReadResponse}
    (hw : cl.Planned w) (hr : cl.ReadPlanned r) (hkey : r.key = w.plan.key)
    (hW : cl.quorumConfig.W ≤ countSuccesses w.responses) (harr : arrivals.Subperm r.answers)
    (hR : cl.quorumConfig.R ≤ readSuccesses (cl.collected arrivals)) :
    ∃ resp ∈ cl.collected arrivals, resp.error = none ∧ w.Acked resp.nodeID := by
  have hlist : w.plan.prefList = r.prefList := by
    have h := hr.prefList
    rw [hkey, hw.prefList] at h
    exact Except.ok.inj h
  obtain ⟨hN, -, -⟩ := QuorumConfig.bounds_of_validate cl.valid
  have hlen := (HashRing.getPreferenceList_eq_ok (by omega) hw.prefList).2
  have hstrong : cl.quorumConfig.R + cl.quorumConfig.W > cl.quorumConfig.N :=
    of_decide_eq_true cl.strong
  have hcoll : (cl.collected arrivals).Subperm r.answers := collected_subperm harr
  have acks : (w.responses.filter fun resp => resp.error.isNone).Sublist w.responses :=
    List.filter_sublist
  have oks : ((cl.collected arrivals).filter fun resp => resp.error.isNone).Sublist
      (cl.collected arrivals) := List.filter_sublist
  obtain ⟨n, hnw, hnr⟩ := exists_common_node
    (hw.nodup.sublist (acks.map WriteResponse.nodeID))
    ((nodup_of_subperm hr.nodup hcoll).sublist (oks.map ReadResponse.nodeID))
    (fun n hn => by
      obtain ⟨resp, hresp, rfl⟩ := List.mem_map.1 hn
      exact hw.subset resp (List.mem_filter.1 hresp).1)
    (fun n hn => by
      obtain ⟨resp, hresp, rfl⟩ := List.mem_map.1 hn
      rw [hlist]
      exact hr.subset resp (hcoll.subset (List.mem_filter.1 hresp).1))
    (by
      rw [List.length_map, List.length_map, ← List.countP_eq_length_filter,
        ← List.countP_eq_length_filter]
      change w.plan.prefList.length < countSuccesses w.responses +
        readSuccesses (cl.collected arrivals)
      omega)
  obtain ⟨resp, hresp, rfl⟩ := List.mem_map.1 hnr
  obtain ⟨wresp, hwresp, hnode⟩ := List.mem_map.1 hnw
  obtain ⟨hmem, herr⟩ := List.mem_filter.1 hresp
  obtain ⟨hwmem, hwerr⟩ := List.mem_filter.1 hwresp
  refine ⟨resp, hmem, Option.isNone_iff_eq_none.1 herr, ?_⟩
  rw [WriteOp.Acked, ← hnode, ← Option.isNone_iff_eq_none.1 hwerr]
  exact hwmem

/-! ## What is collected -/

variable (cl) in
/-- The siblings a `Get` merges. -/
def gathered (arrivals : List ReadResponse) : List Sibling :=
  (cl.collected arrivals).flatMap ReadResponse.siblings

/-- Only a successful response has siblings. -/
theorem error_of_mem_siblings {resp : ReadResponse} {x : Sibling} (h : x ∈ resp.siblings) :
    resp.error = none := by
  unfold ReadResponse.siblings at h
  split_ifs at h with herr
  · exact Option.isNone_iff_eq_none.1 herr
  · cases h

/-- What is gathered from durable records are siblings of writes. -/
theorem issued_of_gathered {j : ℕ} {r : ReadOp} {arrivals : List ReadResponse}
    (hshows : Shows (Durable s₁) j s) (hr : s.reads j = some r)
    (harr : arrivals.Subperm r.answers) {x : Sibling} (hx : x ∈ cl.gathered arrivals) :
    s.Issued r.key x := by
  obtain ⟨resp, hresp, hx⟩ := List.mem_flatMap.1 hx
  have herr := error_of_mem_siblings hx
  obtain ⟨set, hQ, hview⟩ := hshows r hr resp ((collected_subperm harr).subset hresp) herr
  have hmem : x.view ∈ resp.siblings.map Sibling.view := List.mem_map_of_mem hx
  rw [hview] at hmem
  obtain ⟨y, hy, e⟩ := List.mem_map.1 hmem
  obtain ⟨i, op, hop, hkey, hv⟩ := hQ.1 y (mem_of_mem_visible hy)
  exact ⟨i, op, hop, hkey, e.symm.trans hv⟩

/-- A record that covers an acknowledged write is among those a `Get` sees; what is live in it is
gathered. -/
theorem exists_covering {j : ℕ} {w : WriteOp} {r : ReadOp} {arrivals : List ReadResponse} {i : ℕ}
    (hsound₁ : cl.Sound s₁) (hw : s₁.writes i = some w)
    (hW : cl.quorumConfig.W ≤ countSuccesses w.responses) (hsound : cl.Sound s)
    (hshows : Shows (Durable s₁) j s) (hr : s.reads j = some r) (hkey : r.key = w.plan.key)
    (harr : arrivals.Subperm r.answers)
    (hR : cl.quorumConfig.R ≤ readSuccesses (cl.collected arrivals)) :
    ∃ x, w.plan.sibling.vclock ≤ x.vclock ∧ s.Issued r.key x ∧
      (x.tombstone = false → Covers Sibling.vclock (cl.gathered arrivals) w.plan.sibling.vclock) := by
  obtain ⟨resp, hresp, herr, hack⟩ := exists_acked_response (hsound₁.writes i w hw)
    (hsound.reads j r hr) hkey hW harr hR
  obtain ⟨set, ⟨hissued, hcovers⟩, hview⟩ :=
    hshows r hr resp ((collected_subperm harr).subset hresp) herr
  obtain ⟨x, hx, hle⟩ := hcovers i w hw hkey.symm hack
  refine ⟨x, hle, hissued x hx, fun hlive => ?_⟩
  have hmem : x.view ∈ (visible r.coordinator resp.nodeID set).map Sibling.view :=
    List.mem_map_of_mem (mem_visible_of_live hx hlive _ _)
  rw [← hview] at hmem
  obtain ⟨y, hy, e⟩ := List.mem_map.1 hmem
  exact ⟨y, List.mem_flatMap.2 ⟨resp, hresp, hy⟩, hle.trans (le_of_view e.symm)⟩

/-- A covered clock is dominated by one that the merge keeps. -/
theorem exists_merged {arrivals : List ReadResponse} {c : VectorClock}
    (h : Covers Sibling.vclock (cl.gathered arrivals) c) :
    ∃ z ∈ maximals Sibling.vclock (cl.gathered arrivals), c ≤ z.vclock ∧
      z ∈ cl.gathered arrivals := by
  obtain ⟨z, hz, hle⟩ := covers_maximals h
  exact ⟨z, hz, hle, (mem_of_mem_maximals hz).1⟩

/-- A live sibling that the merge keeps is returned. -/
theorem getResult_of_live {r : ReadOp} {arrivals : List ReadResponse}
    (hR : cl.quorumConfig.R ≤ readSuccesses (cl.collected arrivals)) {z : Sibling}
    (hz : z ∈ maximals Sibling.vclock (cl.gathered arrivals)) (hlive : z.tombstone = false) :
    ∃ sibs, cl.getResult r arrivals = .ok sibs ∧ z ∈ sibs := by
  have hmem := mem_filterTombstones hz hlive
  refine ⟨_, ?_, hmem⟩
  rw [getResult, Coordinator.finishGet_of_quorum hR]
  exact if_neg (List.ne_nil_of_mem hmem)

/-- Without a read quorum a `Get` fails. -/
theorem getResult_of_no_quorum {r : ReadOp} {arrivals : List ReadResponse}
    (hR : ¬ cl.quorumConfig.R ≤ readSuccesses (cl.collected arrivals)) :
    ∃ q, cl.getResult r arrivals = .error (.quorum q) :=
  ⟨_, if_pos (not_le.1 hR)⟩

/-! ## Runs without deletes -/

/-- No write is a tombstone. -/
def AllLive (s : ClusterState) : Prop :=
  ∀ i op, s.writes i = some op → op.plan.sibling.tombstone = false

theorem AllLive.step (h : AllLive s) (hno : e.NoDelete) (hs : cl.step s e = some t) :
    AllLive t := by
  intro k op' hk
  rcases write_of_step hs hk with ⟨op, hop, hplan⟩ | ⟨coordinator, times, call, rfl, hplan⟩
  · rw [hplan]
    exact h k op hop
  · rw [(Coordinator.plan_eq_ok hplan).2.1]
    cases call with
    | put key value context ttlSeconds => rfl
    | delete key context => exact hno.elim

end Cluster

open Cluster ClusterState

/-- With overlapping quorums, in any run of `Put`s, replica writes and redeliveries: once a `Put` has
returned its clock, every later `Get` on the key fails for want of a quorum or returns a sibling
whose clock dominates it. -/
theorem get_dominates_acknowledged_put {sum64 : Bytes → UInt64} (cl : Cluster sum64)
    (opts : NodeID → StorageOptions) (s₁ s₂ : ClusterState) (i j : ℕ) (w : WriteOp) (r : ReadOp)
    (c : VectorClock) (arrivals : List ReadResponse)
    (h₁ : Runs cl.step (fun s e => e.NoDelete ∧ s.Plain e ∧ s.Atomic e) (init opts) s₁)
    (hw : s₁.writes i = some w) (hput : cl.putResult w = some (.ok c)) (hnew : s₁.reads j = none)
    (h₂ : Runs cl.step (fun s e => e.NoDelete ∧ s.Plain e ∧ s.Atomic e) s₁ s₂)
    (hr : s₂.reads j = some r) (hkey : r.key = w.plan.key)
    (harr : arrivals.Subperm r.answers) :
    (∃ q, cl.getResult r arrivals = .error (.quorum q)) ∨
      ∃ sibs, cl.getResult r arrivals = .ok sibs ∧ ∃ sib ∈ sibs, sib.vclock.dominates c = true := by
  obtain ⟨hW, rfl⟩ := acks_of_putResult hput
  have hsound₁ := sound_of_runs (fun _ _ h => h.2) (sound_init opts) h₁
  have hlive : AllLive s₂ := (h₁.trans h₂).invariant AllLive (fun _ _ h => by cases h)
    fun _ _ _ h hc => h.step hc.1
  obtain ⟨hsound₂, -, hshows⟩ := shows_durable (fun _ _ h => h.2) hsound₁ hnew h₂
  by_cases hR : cl.quorumConfig.R ≤ readSuccesses (cl.collected arrivals)
  swap
  · exact Or.inl (getResult_of_no_quorum hR)
  -- every sibling is live, so the covering record is visible and the merged cover is returned
  have live : ∀ x, s₂.Issued r.key x → x.tombstone = false := by
    rintro x ⟨k, op, hop, -, hview⟩
    rw [tombstone_of_view hview]
    exact hlive k op hop
  obtain ⟨x, -, hissued, hcovers⟩ :=
    exists_covering hsound₁ hw hW hsound₂ hshows hr hkey harr hR
  obtain ⟨z, hz, hle, hgathered⟩ := exists_merged (hcovers (live x hissued))
  obtain ⟨sibs, hres, hmem⟩ :=
    getResult_of_live (r := r) hR hz (live z (issued_of_gathered hshows hr harr hgathered))
  exact Or.inr ⟨sibs, hres, z, hmem, VectorClock.dominates_iff.2 hle⟩

/-- Three replicas, of which two are read and two written. -/
def sampleCluster : Cluster sampleSum64 where
  ring := sampleRing [n1, n2, n3]
  quorumConfig := ⟨3, 2, 2, false⟩
  valid := by decide
  strict := rfl
  strong := by decide

/-- A `Put` of one byte under the key `k`, at time 100. -/
def putEvent (i : ℕ) (coordinator : MemberID) (value : UInt8) (context : VectorClock) :
    ClusterEvent :=
  .issue i coordinator ⟨100, 100, 100⟩ (.put [107] [value] context 0)

/-- The write `i` reaches nodes, at time 100, and is acknowledged by each. -/
def deliverTo (i : ℕ) (coordinator : MemberID) (nodes : List MemberID) : List ClusterEvent :=
  nodes.flatMap fun node =>
    [.receive 0 i node (if node = coordinator then none else some fun _ => 100)
      (CallEnv.steady 100), .commit 0 true]

/-- A `Get` of the key `k` with the answers of some nodes. -/
def getFrom (coordinator : MemberID) (nodes : List MemberID) : List ClusterEvent :=
  .get 0 coordinator [107] ::
    nodes.map fun node => .answer 0 node (CallEnv.steady 100) fun _ _ => 100

/-- A `Put` by `n1` that `n1` and `n2` take and `n3` does not. -/
def putOnTwo : List ClusterEvent :=
  putEvent 0 n1 1 VectorClock.new :: deliverTo 0 n1 [n1, n2] ++
    [.fail 0 n3 (.remote n3 .unreachable)]

/-- A version of one byte that a node has made with its own counter, at time 100. -/
def versionBy (node : MemberID) (counter : UInt64) (value : UInt8) : Sibling :=
  ⟨[value], VectorClock.new.set 100 node counter, 100, false, 0⟩

/-- The cluster with default options before anything has happened. -/
def sampleStart : ClusterState := init fun _ => defaultStorageOptions

set_option maxRecDepth 4000 in
theorem get_dominates_acknowledged_put_two_of_three :
    ∃ (w : WriteOp) (r : ReadOp),
      sampleCluster.putResult w = some (.ok (VectorClock.new.set 100 [110, 49] 1)) ∧
      ((∃ q, sampleCluster.getResult r r.answers = .error (.quorum q)) ∨
        ∃ sibs, sampleCluster.getResult r r.answers = .ok sibs ∧
          ∃ sib ∈ sibs, sib.vclock.dominates (VectorClock.new.set 100 [110, 49] 1) = true) := by
  let s₁ := stateAfter sampleCluster.step sampleStart putOnTwo
  let s₂ := stateAfter sampleCluster.step s₁ (getFrom n3 [n3, n2])
  obtain ⟨w, hw, hput⟩ := Option.map_eq_some_iff.1
    (by decide +kernel : (s₁.writes 0).map (fun w => (sampleCluster.putResult w, w.plan.key)) =
      some (some (.ok (VectorClock.new.set 100 [110, 49] 1)), [107]))
  obtain ⟨r, hr, hkey⟩ := Option.map_eq_some_iff.1
    (by decide +kernel : (s₂.reads 0).map ReadOp.key = some [107])
  obtain ⟨hput, hwkey⟩ := Prod.mk.inj hput
  refine ⟨w, r, hput, get_dominates_acknowledged_put sampleCluster
    (fun _ => defaultStorageOptions) s₁ s₂ 0 0 w r _ _ ?_ hw hput ?_ ?_ hr (hkey.trans hwkey.symm)
    (List.Subperm.refl _)⟩
  · exact Runs.stateAfter (by decide +kernel)
  · exact Option.isNone_iff_eq_none.1 (by decide +kernel)
  · exact Runs.stateAfter (by decide +kernel)

end GoQuorum
