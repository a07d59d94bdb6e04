import GoQuorum.Server.RemoteWrites

/-!
# Merging reads and repairing replicas

A `Get` keeps the maximal versions among what its replicas answer (`mergeAllSiblings`), and
`internal/cluster/read_repair.go` sends them to the replicas that miss some of them.  The first
section says that the merge is a function of the set of clocks it is given
(`mergeAllSiblings_maximal`).  The second follows a repair: one `Replicate` request for each merged
sibling, each reconciled with what the earlier ones have left.  A repair that succeeds leaves exactly
the merged clocks (`repair_completes`).
-/

namespace GoQuorum

open Lib Lib.Versions

/-! ## What a read merges -/

/-- The same clocks up to `Equals`. -/
def SameClocks (l m : List Sibling) : Prop :=
  (∀ x ∈ l, ∃ y ∈ m, x.vclock.equals y.vclock = true) ∧
    ∀ y ∈ m, ∃ x ∈ l, y.vclock.equals x.vclock = true

instance (l m : List Sibling) : Decidable (SameClocks l m) := inferInstanceAs (Decidable (_ ∧ _))

theorem sameClocks_iff {l m : List Sibling} : SameClocks l m ↔
    (∀ x ∈ l, ∃ y ∈ m, AntisymmRel (· ≤ ·) x.vclock y.vclock) ∧
      ∀ y ∈ m, ∃ x ∈ l, AntisymmRel (· ≤ ·) y.vclock x.vclock := by
  simp only [SameClocks, VectorClock.equals_iff]

/-- Lists that cover each other are merged to the same clocks. -/
theorem sameClocks_mergeAllSiblings {l m : List Sibling}
    (hlm : ∀ x ∈ l, Covers Sibling.vclock m x.vclock)
    (hml : ∀ y ∈ m, Covers Sibling.vclock l y.vclock) :
    SameClocks (mergeAllSiblings l) (mergeAllSiblings m) := by
  rw [mergeAllSiblings_eq_maximals, mergeAllSiblings_eq_maximals, sameClocks_iff]
  exact ⟨fun x hx => exists_mem_maximals_of_covers hlm hml hx,
    fun y hy => exists_mem_maximals_of_covers hml hlm hy⟩

theorem covers_of_mem {l : List Sibling} {x : Sibling} (h : x ∈ l) :
    Covers Sibling.vclock l x.vclock :=
  ⟨x, h, le_rfl⟩

theorem covers_append_left {l m : List Sibling} {c : VectorClock}
    (h : Covers Sibling.vclock l c) : Covers Sibling.vclock (l ++ m) c := by
  obtain ⟨x, hx, hc⟩ := h
  exact ⟨x, List.mem_append_left m hx, hc⟩

theorem covers_append_right {l m : List Sibling} {c : VectorClock}
    (h : Covers Sibling.vclock m c) : Covers Sibling.vclock (l ++ m) c := by
  obtain ⟨x, hx, hc⟩ := h
  exact ⟨x, List.mem_append_right l hx, hc⟩

theorem covers_mergeAllSiblings {l : List Sibling} {x : Sibling} (h : x ∈ l) :
    Covers Sibling.vclock (mergeAllSiblings l) x.vclock := by
  rw [mergeAllSiblings_eq_maximals]
  exact covers_maximals (covers_of_mem h)

theorem mem_of_mem_mergeAllSiblings {l : List Sibling} {x : Sibling}
    (h : x ∈ mergeAllSiblings l) : x ∈ l := by
  rw [mergeAllSiblings_eq_maximals] at h
  exact (mem_of_mem_maximals h).1

/-- No merged sibling supersedes another. -/
theorem not_lt_of_mem_mergeAllSiblings {l : List Sibling} {x y : Sibling}
    (hx : x ∈ mergeAllSiblings l) (hy : y ∈ mergeAllSiblings l) : ¬ x.vclock < y.vclock := by
  rw [mergeAllSiblings_eq_maximals] at hx
  exact (mem_of_mem_maximals hx).2 y (mem_of_mem_mergeAllSiblings hy)

/-- `mergeAllSiblings` computes the maximal versions: siblings of the list with concurrent clocks, one
above every sibling of the list.  So neither order nor repetitions matter, and merging can be done
piecewise. -/
theorem mergeAllSiblings_maximal :
    (∀ l : List Sibling,
      (∀ x ∈ mergeAllSiblings l, x ∈ l) ∧
      ((mergeAllSiblings l).Pairwise fun x y => x.vclock.compare y.vclock = .concurrent) ∧
      ∀ x ∈ l, ∃ y ∈ mergeAllSiblings l,
        x.vclock.compare y.vclock = .before ∨ x.vclock.compare y.vclock = .equal) ∧
    (∀ l l' : List Sibling, l ⊆ l' → l' ⊆ l →
      SameClocks (mergeAllSiblings l) (mergeAllSiblings l')) ∧
    ∀ l₁ l₂ : List Sibling, SameClocks (mergeAllSiblings (l₁ ++ l₂))
      (mergeAllSiblings (mergeAllSiblings l₁ ++ mergeAllSiblings l₂)) := by
  refine ⟨fun l => ⟨fun x => mem_of_mem_mergeAllSiblings, ?_, fun x hx => ?_⟩,
    fun l l' hl hl' => ?_, fun l₁ l₂ => ?_⟩
  · simp only [VectorClock.compare_eq_concurrent]
    rw [mergeAllSiblings_eq_maximals]
    exact antichain_maximals
  · obtain ⟨y, hy, hxy⟩ := covers_mergeAllSiblings hx
    refine ⟨y, hy, ?_⟩
    rw [VectorClock.compare_eq_before, VectorClock.compare_eq_equal]
    by_cases hyx : y.vclock ≤ x.vclock
    · exact Or.inr ⟨hxy, hyx⟩
    · exact Or.inl (lt_of_le_not_ge hxy hyx)
  · exact sameClocks_mergeAllSiblings (fun x hx => covers_of_mem (hl hx))
      fun y hy => covers_of_mem (hl' hy)
  · refine sameClocks_mergeAllSiblings (fun x hx => ?_) fun y hy => covers_of_mem ?_
    · rcases List.mem_append.1 hx with hx | hx
      · exact covers_append_left (covers_mergeAllSiblings hx)
      · exact covers_append_right (covers_mergeAllSiblings hx)
    · rcases List.mem_append.1 hy with hy | hy
      · exact List.mem_append_left _ (mem_of_mem_mergeAllSiblings hy)
      · exact List.mem_append_right _ (mem_of_mem_mergeAllSiblings hy)

/-! ## The repairer -/

/-- `isDominatedOrEqual`. -/
def isDominatedOrEqual (vClock : VectorClock) (siblings : List Sibling) : Bool :=
  siblings.any fun sib =>
    let comparison := vClock.compare sib.vclock
    comparison == .before || comparison == .equal

/-- `checkNeedsRepair`; the set of a replica that has nothing is nil. -/
def checkNeedsRepair (merged : List Sibling) : Option SiblingSet → Bool
  | none => true
  | some replicaSiblings =>
    merged.any fun mergedSib => !isDominatedOrEqual mergedSib.vclock replicaSiblings

/-- The parts of a `ReadRepairer` that decide what it sends. -/
structure ReadRepairer where
  nodeID : NodeID
  enabled : Bool

namespace ReadRepairer

/-- `sendRepair`: the store of the replica afterwards.  The node itself is skipped, and the result of
the request is only counted. -/
def sendRepair (rr : ReadRepairer) (net : ℕ → Request) (nodeID : NodeID) (key : Bytes)
    (merged : List Sibling) (store : Storage) : Storage :=
  if nodeID = rr.nodeID then store else (remotePut key net store merged).2

/-- One round of the loop of `TriggerRepair`. -/
def repairResponse (rr : ReadRepairer) (net : NodeID → ℕ → Request) (key : Bytes)
    (merged : List Sibling) (stores : NodeID → Storage) (resp : ReadResponse) : NodeID → Storage :=
  if resp.error.isNone && checkNeedsRepair merged resp.siblingSet then
    Function.update stores resp.nodeID
      (rr.sendRepair (net resp.nodeID) resp.nodeID key merged (stores resp.nodeID))
  else stores

/-- `TriggerRepair`: the stores afterwards.  `drawn` is the outcome of the draw against
`Probability`. -/
def triggerRepair (rr : ReadRepairer) (drawn : Bool) (net : NodeID → ℕ → Request) (key : Bytes)
    (merged : List Sibling) (responses : List ReadResponse) (stores : NodeID → Storage) :
    NodeID → Storage :=
  if rr.enabled && drawn then responses.foldl (rr.repairResponse net key merged) stores else stores

variable {rr : ReadRepairer} {net : NodeID → ℕ → Request} {key : Bytes} {merged : List Sibling}

theorem repairResponse_of_ne {resp : ReadResponse} {n : NodeID} (h : n ≠ resp.nodeID)
    (stores : NodeID → Storage) : rr.repairResponse net key merged stores resp n = stores n := by
  unfold repairResponse
  split_ifs
  · exact Function.update_of_ne h _ _
  · rfl

theorem foldl_repairResponse_of_notMem {responses : List ReadResponse} {n : NodeID}
    (h : n ∉ responses.map ReadResponse.nodeID) (stores : NodeID → Storage) :
    responses.foldl (rr.repairResponse net key merged) stores n = stores n := by
  induction responses generalizing stores with
  | nil => rfl
  | cons resp responses ih =>
    rw [List.map_cons, List.mem_cons, not_or] at h
    rw [List.foldl_cons, ih h.2, repairResponse_of_ne h.1]

/-- A replica that is found stale is sent the merged siblings. -/
theorem triggerRepair_apply {responses : List ReadResponse} (hen : rr.enabled = true)
    (hnodup : (responses.map ReadResponse.nodeID).Nodup) {resp : ReadResponse}
    (hresp : resp ∈ responses) (hstale : resp.error = none ∧
      checkNeedsRepair merged resp.siblingSet = true) (hother : resp.nodeID ≠ rr.nodeID)
    (stores : NodeID → Storage) :
    rr.triggerRepair true net key merged responses stores resp.nodeID =
      (remotePut key (net resp.nodeID) (stores resp.nodeID) merged).2 := by
  rw [triggerRepair, hen, Bool.and_true, if_pos rfl]
  induction responses generalizing stores with
  | nil => cases hresp
  | cons r responses ih =>
    rw [List.map_cons, List.nodup_cons] at hnodup
    rw [List.foldl_cons]
    rcases List.mem_cons.1 hresp with rfl | hresp
    · rw [foldl_repairResponse_of_notMem hnodup.1, repairResponse, hstale.1, hstale.2,
        Option.isNone_none, Bool.and_true, if_pos rfl, Function.update_self, sendRepair,
        if_neg hother]
    · have hne : resp.nodeID ≠ r.nodeID := fun e => hnodup.1 (e ▸ List.mem_map_of_mem hresp)
      rw [ih hnodup.2 hresp, repairResponse_of_ne hne]

end ReadRepairer

/-! ## The record of a repaired replica -/

/-- No request of a `RemotePut` prunes anything or meets an expired sibling. -/
def Undisturbed (key : Bytes) : (ℕ → Request) → Storage → List Sibling → Prop
  | _, _, [] => True
  | net, s, sib :: rest =>
    (Storage.NoPrune (net 0).env s key [sib.received (net 0).stamp] ∧
      s.Unexpired (net 0).env key) ∧
    ∀ t ∈ (s.put (net 0).env key [sib.received (net 0).stamp]).toOption,
      Undisturbed key (fun i => net (i + 1)) t rest

instance decidableUndisturbed (key : Bytes) : (net : ℕ → Request) → (s : Storage) →
    (l : List Sibling) → Decidable (Undisturbed key net s l)
  | _, _, [] => isTrue trivial
  | net, s, sib :: rest =>
    have : ∀ t : Storage, Decidable (Undisturbed key (fun i => net (i + 1)) t rest) := fun t =>
      decidableUndisturbed key (fun i => net (i + 1)) t rest
    inferInstanceAs (Decidable ((_ ∧ _) ∧ ∀ t ∈ Storage.put _ s key [sib.received _] |>.toOption,
      Undisturbed key (fun i => net (i + 1)) t rest))

/-- The siblings of a `RemotePut` as the peer receives them. -/
def receivedAll (net : ℕ → Request) (siblings : List Sibling) : List Sibling :=
  siblings.mapIdx fun i sib => sib.received (net i).stamp

/-- One reconciliation after the other. -/
def reconcileAll (set : SiblingSet) (incoming : List Sibling) : SiblingSet :=
  incoming.foldl (fun set x => reconcileSiblings set [x]) set

/-- A successful `RemotePut` reconciles the record with one sibling after the other. -/
theorem keeps_remotePut {key : Bytes} {net : ℕ → Request} {s : Storage} {siblings : List Sibling}
    {set : SiblingSet} (h : s.Keeps key set) (hquiet : Undisturbed key net s siblings)
    (hok : (remotePut key net s siblings).1 = .ok ()) :
    (remotePut key net s siblings).2.Keeps key (reconcileAll set (receivedAll net siblings)) := by
  induction siblings generalizing net s set with
  | nil => exact h
  | cons sib rest ih =>
    obtain ⟨-, t, hput, hrest⟩ := remotePut_cons_eq_ok hok
    obtain ⟨⟨hprune, hexp⟩, hnext⟩ := hquiet
    rw [hput] at hnext
    rw [hrest] at hok ⊢
    have hcons : receivedAll net (sib :: rest) =
        sib.received (net 0).stamp :: receivedAll (fun i => net (i + 1)) rest := List.mapIdx_cons
    obtain ⟨hset, hkeeps⟩ := h.put hput hprune
    rw [hexp.unexpired_eq hset] at hkeeps
    rw [hcons, reconcileAll, List.foldl_cons]
    exact ih hkeeps (hnext t rfl) hok

/-- What is left is new, or old and older than nothing new. -/
theorem mem_reconcileAll {set : SiblingSet} {incoming : List Sibling} {x : Sibling}
    (h : x ∈ reconcileAll set incoming) :
    x ∈ incoming ∨ x ∈ set ∧ ∀ w ∈ incoming, ¬ x.vclock < w.vclock := by
  induction incoming generalizing set with
  | nil => exact Or.inr ⟨h, fun w hw => absurd hw List.not_mem_nil⟩
  | cons w incoming ih =>
    rcases ih h with hx | ⟨hx, hnot⟩
    · exact Or.inl (List.mem_cons_of_mem w hx)
    · rcases mem_of_mem_reconcile hx with hw | hold
      · exact Or.inl (List.mem_singleton.1 hw ▸ List.mem_cons_self)
      · exact Or.inr ⟨hold, List.forall_mem_cons.2 ⟨not_lt_of_mem_reconcile hx, hnot⟩⟩

/-- Everything new is covered. -/
theorem covers_reconcileAll (set : SiblingSet) {incoming : List Sibling}
    (hids : ∀ w ∈ incoming, w.vclock.ValidIDs) {w : Sibling} (hw : w ∈ incoming) :
    Covers Sibling.vclock (reconcileAll set incoming) w.vclock := by
  let T : Sibling → Prop := fun x => x.vclock.ValidIDs
  have hT : PrintsFaithfully T := printsFaithfully_of_validIDs fun _ h => h
  have singleton : ∀ x ∈ incoming, ∀ y ∈ [x], T y := fun x hx y hy =>
    List.mem_singleton.1 hy ▸ hids x hx
  -- what is tracked stays tracked, and each incoming sibling is tracked once it is there
  have keep : ∀ l ⊆ incoming, ∀ set c, Tracked T set c → Tracked T (reconcileAll set l) c := by
    intro l
    induction l with
    | nil => exact fun _ _ _ h => h
    | cons x l ih =>
      intro hl set c h
      obtain ⟨hx, hl⟩ := List.cons_subset.1 hl
      exact ih hl _ _ (tracks_reconcile_old hT (singleton x hx) h)
  have reach : ∀ l ⊆ incoming, w ∈ l → ∀ set, Tracked T (reconcileAll set l) w.vclock := by
    intro l
    induction l with
    | nil => exact fun _ h => absurd h List.not_mem_nil
    | cons x l ih =>
      intro hxl hwl set
      obtain ⟨hx, hl⟩ := List.cons_subset.1 hxl
      rcases List.mem_cons.1 hwl with rfl | hwl
      · exact keep l hl _ _ (tracks_reconcile_new hT (singleton w hx) List.mem_cons_self)
      · exact ih hl hwl _
  exact (reach incoming (List.Subset.refl _) hw set).covers

theorem mem_receivedAll {net : ℕ → Request} {siblings : List Sibling} {w : Sibling}
    (h : w ∈ receivedAll net siblings) :
    ∃ m ∈ siblings, ∃ i, w = m.received (net i).stamp := by
  obtain ⟨i, hi, rfl⟩ := List.mem_mapIdx.1 h
  exact ⟨siblings[i], List.getElem_mem hi, i, rfl⟩

theorem exists_mem_receivedAll (net : ℕ → Request) {siblings : List Sibling} {m : Sibling}
    (h : m ∈ siblings) : ∃ w ∈ receivedAll net siblings, ∃ i, w = m.received (net i).stamp := by
  obtain ⟨i, hi, rfl⟩ := List.mem_iff_getElem.1 h
  exact ⟨_, List.mem_mapIdx.2 ⟨i, hi, rfl⟩, i, rfl⟩

section

variable (net : ℕ → Request) {set : SiblingSet} {merged : List Sibling}
  (hids : ∀ m ∈ merged, m.vclock.ValidIDs)
  (hcovered : ∀ x ∈ set, Covers Sibling.vclock merged x.vclock)

include hids

theorem validIDs_receivedAll : ∀ w ∈ receivedAll net merged, w.vclock.ValidIDs := by
  intro w hw
  obtain ⟨m, hm, i, rfl⟩ := mem_receivedAll hw
  exact (m.received_of_validIDs (hids m hm) _).1

include hcovered

/-- A repair leaves no clocks but the merged ones. -/
theorem exists_merged_of_mem_reconcileAll {x : Sibling}
    (hx : x ∈ reconcileAll set (receivedAll net merged)) :
    ∃ m ∈ merged, AntisymmRel (· ≤ ·) x.vclock m.vclock := by
  rcases mem_reconcileAll hx with hw | ⟨hold, hnot⟩
  · obtain ⟨m, hm, i, rfl⟩ := mem_receivedAll hw
    exact ⟨m, hm, (m.received_of_validIDs (hids m hm) _).2.symm⟩
  · obtain ⟨m, hm, hxm⟩ := hcovered x hold
    obtain ⟨w, hw, i, rfl⟩ := exists_mem_receivedAll net hm
    have hmw := (m.received_of_validIDs (hids m hm) (net i).stamp).2
    refine ⟨m, hm, hxm, ?_⟩
    by_contra hmx
    exact hnot _ hw (lt_of_lt_of_le (lt_of_le_not_ge hxm hmx) hmw.1)

/-- A repair leaves the merged clocks. -/
theorem sameClocks_reconcileAll (hanti : ∀ m ∈ merged, ∀ m' ∈ merged, ¬ m.vclock < m'.vclock) :
    SameClocks (reconcileAll set (receivedAll net merged)) merged := by
  have hfrom : ∀ x ∈ reconcileAll set (receivedAll net merged),
      ∃ m ∈ merged, AntisymmRel (· ≤ ·) x.vclock m.vclock :=
    fun x => exists_merged_of_mem_reconcileAll net hids hcovered
  rw [sameClocks_iff]
  refine ⟨hfrom, fun m hm => ?_⟩
  obtain ⟨w, hw, i, rfl⟩ := exists_mem_receivedAll net hm
  obtain ⟨x, hx, hwx⟩ := covers_reconcileAll set (validIDs_receivedAll net hids) hw
  obtain ⟨m', hm', hxm'⟩ := hfrom x hx
  have hmx : m.vclock ≤ x.vclock := (m.received_of_validIDs (hids m hm) _).2.1.trans hwx
  refine ⟨x, hx, hmx, ?_⟩
  by_contra hxm
  exact hanti m hm m' hm' (lt_of_lt_of_le (lt_of_le_not_ge hmx hxm) hxm'.1)

end

theorem isDominatedOrEqual_iff {c : VectorClock} {siblings : List Sibling} :
    isDominatedOrEqual c siblings = true ↔ Covers Sibling.vclock siblings c := by
  simp only [isDominatedOrEqual, List.any_eq_true, Bool.or_eq_true, beq_iff_eq,
    VectorClock.compare_eq_before, VectorClock.compare_eq_equal, Covers]
  refine exists_congr fun x => and_congr_right fun _ => ⟨fun h => h.elim (·.le) (·.1), fun h => ?_⟩
  by_cases hx : x.vclock ≤ c
  · exact Or.inr ⟨h, hx⟩
  · exact Or.inl (lt_of_le_not_ge h hx)

theorem checkNeedsRepair_eq_false {merged : List Sibling} {set : SiblingSet} :
    checkNeedsRepair merged (answerOf set) = false ↔
      set ≠ [] ∧ ∀ m ∈ merged, Covers Sibling.vclock set m.vclock := by
  unfold answerOf
  split_ifs with h
  · simp [checkNeedsRepair, h]
  · simp only [checkNeedsRepair, List.any_eq_false, Bool.not_eq_true', Bool.not_eq_false,
      isDominatedOrEqual_iff]
    exact (and_iff_right h).symm

/-- A successful repair of a replica leaves it with exactly the merged clocks, so no stale sibling is
left, and the replica needs no repair any more unless there was nothing to send. -/
theorem repair_completes (key : Bytes) (net : ℕ → Request) (r : NodeID) (s s' : Storage)
    (S : SiblingSet) (responses : List ReadResponse) (merged : List Sibling)
    (hS : s.stored key = .ok S) (hresp : ⟨r, answerOf S, none⟩ ∈ responses)
    (hmerged : merged = mergeAllSiblings (responses.flatMap ReadResponse.siblings))
    (hids : ∀ m ∈ merged, m.vclock.ValidIDs)
    (hquiet : Undisturbed key net s merged)
    (hok : remotePut key net s merged = (.ok (), s')) :
    ∃ set, s'.Keeps key set ∧ SameClocks set merged ∧
      (∀ x ∈ S, (∃ m ∈ merged, x.vclock.happensBefore m.vclock = true) → x ∉ set) ∧
      (checkNeedsRepair merged (answerOf set) = false ↔
        ∃ resp ∈ responses, resp.siblings ≠ []) := by
  have hcovered : ∀ x ∈ S, Covers Sibling.vclock merged x.vclock := by
    intro x hx
    rw [hmerged]
    refine covers_mergeAllSiblings (List.mem_flatMap.2 ⟨_, hresp, ?_⟩)
    have hne : S ≠ [] := List.ne_nil_of_mem hx
    rw [answerOf, if_neg hne]
    exact hx
  have hanti : ∀ m ∈ merged, ∀ m' ∈ merged, ¬ m.vclock < m'.vclock := by
    rw [hmerged]
    exact fun m hm m' hm' => not_lt_of_mem_mergeAllSiblings hm hm'
  have hkeeps := keeps_remotePut (Or.inl hS) hquiet (congrArg Prod.fst hok)
  rw [hok] at hkeeps
  have hsame := sameClocks_reconcileAll net hids hcovered hanti
  refine ⟨_, hkeeps, hsame, ?_, ?_⟩
  · rintro x hx ⟨m, hm, hlt⟩ hleft
    rw [VectorClock.happensBefore_iff] at hlt
    obtain ⟨m', hm', hxm'⟩ := exists_merged_of_mem_reconcileAll net hids hcovered hleft
    exact hanti m' hm' m hm (lt_of_le_of_lt hxm'.2 hlt)
  · rw [checkNeedsRepair_eq_false]
    rw [sameClocks_iff] at hsame
    constructor
    · rintro ⟨hne, -⟩
      obtain ⟨x, hx⟩ := List.exists_mem_of_ne_nil _ hne
      obtain ⟨m, hm, -⟩ := hsame.1 x hx
      rw [hmerged] at hm
      obtain ⟨resp, hr, hmr⟩ := List.mem_flatMap.1 (mem_of_mem_mergeAllSiblings hm)
      exact ⟨resp, hr, List.ne_nil_of_mem hmr⟩
    · rintro ⟨resp, hr, hne⟩
      obtain ⟨y, hy⟩ := List.exists_mem_of_ne_nil _ hne
      obtain ⟨m, hm, -⟩ := covers_mergeAllSiblings (List.mem_flatMap.2 ⟨resp, hr, hy⟩)
      rw [← hmerged] at hm
      obtain ⟨x, hx, -⟩ := hsame.2 m hm
      refine ⟨List.ne_nil_of_mem hx, fun m hm => ?_⟩
      obtain ⟨x, hx, hmx⟩ := hsame.2 m hm
      exact ⟨x, hx, hmx.1⟩

/-- What `n2` holds of the key `k` after a first write through `n1`. -/
def staleVersion : Sibling := ⟨[1], VectorClock.new.set 100 [110, 49] 1, 100, false, 0⟩

/-- The store of `n2` then. -/
def staleStore : Storage :=
  ((Storage.new defaultStorageOptions).put (CallEnv.steady 100) [107] [staleVersion]).toOption.getD
    (Storage.new defaultStorageOptions)

/-- The answers of `n1`, which has the next version, and of `n2`. -/
def staleAnswers : List ReadResponse :=
  [⟨[110, 49], some [rewrittenByN1], none⟩, ⟨[110, 50], answerOf [staleVersion], none⟩]

theorem repair_completes_of_stale_replica : ∃ s' set,
    remotePut [107] promptNet staleStore [rewrittenByN1] = (.ok (), s') ∧ s'.Keeps [107] set ∧
      SameClocks set [rewrittenByN1] ∧ staleVersion ∉ set ∧
      checkNeedsRepair [rewrittenByN1] (answerOf set) = false := by
  obtain ⟨s', hok⟩ : ∃ s', remotePut [107] promptNet staleStore [rewrittenByN1] = (.ok (), s') :=
    ⟨_, Prod.fst_eq_iff.1 (by decide +kernel)⟩
  obtain ⟨set, hkeeps, hsame, hgone, hrepaired⟩ := repair_completes [107] promptNet [110, 50]
    staleStore s' [staleVersion] staleAnswers [rewrittenByN1] (by decide +kernel) (by decide +kernel)
    (by decide +kernel) (by decide +kernel) (by decide +kernel) hok
  exact ⟨s', set, hok, hkeeps, hsame, hgone _ List.mem_cons_self (by decide +kernel),
    hrepaired.2 (by decide +kernel)⟩

/-- When no replica has the key, the repair sends nothing and the replica is still found to need
it. -/
theorem empty_repair_leaves_need :
    let s := Storage.new defaultStorageOptions
    let responses : List ReadResponse := [⟨[110, 50], answerOf [], none⟩]
    let merged := mergeAllSiblings (responses.flatMap ReadResponse.siblings)
    s.stored [107] = .ok [] ∧ Undisturbed [107] promptNet s merged ∧
      remotePut [107] promptNet s merged = (.ok (), s) ∧
      checkNeedsRepair merged (answerOf []) = true :=
  ⟨rfl, trivial, rfl, rfl⟩

end GoQuorum
